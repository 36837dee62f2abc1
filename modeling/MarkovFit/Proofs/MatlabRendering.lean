import MarkovFit.Proofs.MatlabGrammar
import Mathlib.Algebra.Field.Rat

/-!
# The meaning of Matlab text

An expression denotes a partial function of its names, over any field and for any powers and
ceilings. The Matlab text of an expression is read as one tree. That tree denotes the same function
if no exponent is a power or a root itself: those are written without parentheses, and Matlab groups
them to the left.
-/

namespace MarkovFit.Proofs

open MarkovFit.Expr

/-! ### Functions -/

/-- Powers and ceilings of the elements of a field. A power need not exist. -/
structure Interpretation (K : Type) where
  pow : K → K → Option K
  ceil : K → K

section

variable {K : Type} [Field K] [DecidableEq K]

/-- The result of an operation; a division by zero has none. -/
def Interpretation.apply (I : Interpretation K) : Operator → K → K → Option K
  | .add, a, b => some (a + b)
  | .sub, a, b => some (a - b)
  | .mul, a, b => some (a * b)
  | .div, a, b => if b = 0 then none else some (a / b)
  | .pow, a, b => I.pow a b

/-- The value of an expression for values of its names. A root is a power to one half. -/
def fieldValue (I : Interpretation K) (names : String → K) : Expr → Option K
  | .number v => some (v.toRat : K)
  | .ident name => some (names name)
  | .neg e => (fieldValue I names e).map (- ·)
  | .ceil e => (fieldValue I names e).map I.ceil
  | .sqrt e => (fieldValue I names e).bind fun a => I.pow a ((1 / 2 : ℚ) : K)
  | .binary op l r =>
    (fieldValue I names l).bind fun a => (fieldValue I names r).bind (I.apply op a)

end

/-- The expressions have the same values, over every field. -/
def SameFunction (e e' : Expr) : Prop :=
  ∀ (K : Type) [Field K] [DecidableEq K] (I : Interpretation K) (names : String → K),
    fieldValue I names e = fieldValue I names e'

section

variable {e e' e'' l l' m r r' : Expr} {op : Operator} {t : Token}

theorem SameFunction.refl (e : Expr) : SameFunction e e := fun _ _ _ _ _ => rfl

theorem SameFunction.trans (h : SameFunction e e') (h' : SameFunction e' e'') :
    SameFunction e e'' :=
  fun K _ _ I names => (h K I names).trans (h' K I names)

theorem SameFunction.neg (h : SameFunction e e') : SameFunction (.neg e) (.neg e') := by
  intro K _ _ I names
  rw [fieldValue, fieldValue, h K I names]

theorem SameFunction.ceil (h : SameFunction e e') : SameFunction (.ceil e) (.ceil e') := by
  intro K _ _ I names
  rw [fieldValue, fieldValue, h K I names]

theorem SameFunction.sqrt (h : SameFunction e e') : SameFunction (.sqrt e) (.sqrt e') := by
  intro K _ _ I names
  rw [fieldValue, fieldValue, h K I names]

theorem SameFunction.binary (h : SameFunction l l') (h' : SameFunction r r') :
    SameFunction (.binary op l r) (.binary op l' r') := by
  intro K _ _ I names
  rw [fieldValue, fieldValue, h K I names, h' K I names]

/-- A sum goes on as its last part does. -/
theorem sameFunction_sum (hop : sumOperator? t = some op) (l m r : Expr) :
    SameFunction (.binary op (.binary .add l m) r) (.binary .add l (.binary op m r)) := by
  intro K _ _ I names
  cases t <;> cases hop
  all_goals
    simp only [fieldValue]
    cases fieldValue I names l <;> cases fieldValue I names m <;> cases fieldValue I names r <;>
      simp [Interpretation.apply, add_assoc, add_sub_assoc]

theorem sameFunction_product (hop : productOperator? t = some op) (l m r : Expr) :
    SameFunction (.binary op (.binary .mul l m) r) (.binary .mul l (.binary op m r)) := by
  intro K _ _ I names
  cases t <;> cases hop
  all_goals
    simp only [fieldValue]
    cases fieldValue I names l <;> cases fieldValue I names m <;> cases fieldValue I names r <;>
      simp [Interpretation.apply, mul_assoc, mul_div_assoc]
  split <;> rfl

/-- The exponent of roots. -/
def rootExponent : Decimal := (Decimal.ofParts? false 5 1).getD .one

theorem sameFunction_sqrt (e : Expr) :
    SameFunction (.binary .pow e (.number rootExponent)) (.sqrt e) := by
  have hvalue : rootExponent.toRat = 1 / 2 := by decide +kernel
  intro K _ _ I names
  rw [fieldValue, fieldValue, fieldValue, hvalue]
  rfl

end

/-! ### Texts of phrases -/

theorem MatlabDerives.looser {phrase : Phrase} {ts : List Token} {e : Expr}
    (h : MatlabDerives phrase ts e) : MatlabDerives phrase.looser ts e :=
  match phrase, h with
  | .atom, h => .base h
  | .power, h => .power h
  | .unary, h => .factor h
  | .product, h => .summand h
  | .sum, h => h

theorem MatlabDerives.loosen {phrase phrase' : Phrase} {ts : List Token} {e : Expr}
    (h : MatlabDerives phrase ts e) (hlevel : phrase'.level ≤ phrase.level) :
    MatlabDerives phrase' ts e := by
  by_cases heq : phrase = phrase'
  · exact heq ▸ h
  · have hstep : phrase'.level ≤ phrase.looser.level ∧ phrase.looser.level < phrase.level := by
      revert heq hlevel
      cases phrase <;> cases phrase' <;> decide
    exact h.looser.loosen hstep.1
termination_by phrase.level
decreasing_by exact hstep.2

/-- A sum of two sums is read as one sum, grouped to the left. -/
theorem exists_sum {ts us : List Token} {l r : Expr} (hl : MatlabDerives .sum ts l)
    (hr : MatlabDerives .sum us r) : ∃ e, MatlabDerives .sum (ts ++ .plus :: us) e ∧
      SameFunction e (.binary .add l r) :=
  match hr with
  | .summand hr => ⟨_, .sum hl rfl hr, .refl _⟩
  | @MatlabDerives.sum ts' us' t op l' r' hl' hop hr' => by
    obtain ⟨e, he, hsame⟩ := exists_sum hl hl'
    refine ⟨.binary op e r', ?_, ?_⟩
    · simpa using he.sum hop hr'
    · exact (hsame.binary (.refl r')).trans (sameFunction_sum hop l l' r')

theorem exists_product {ts us : List Token} {l r : Expr} (hl : MatlabDerives .product ts l)
    (hr : MatlabDerives .product us r) : ∃ e, MatlabDerives .product (ts ++ .star :: us) e ∧
      SameFunction e (.binary .mul l r) :=
  match hr with
  | .factor hr => ⟨_, .product hl rfl hr, .refl _⟩
  | @MatlabDerives.product ts' us' t op l' r' hl' hop hr' => by
    obtain ⟨e, he, hsame⟩ := exists_product hl hl'
    refine ⟨.binary op e r', ?_, ?_⟩
    · simpa using he.product hop hr'
    · exact (hsame.binary (.refl r')).trans (sameFunction_product hop l l' r')

section

variable {cs ds : List Char} {c : Char}

theorem not_sign_of_isIdentRest (h : isIdentRest c = true) : c ≠ '.' ∧ isMatrixSign c = false := by
  refine ⟨?_, ?_⟩
  · rintro rfl
    exact absurd h (by decide)
  · by_contra hsign
    obtain (rfl | rfl) | rfl : (c = '*' ∨ c = '/') ∨ c = '^' := by
      simpa only [isMatrixSign, Bool.not_eq_false, Bool.or_eq_true, beq_iff_eq] using hsign
    all_goals exact absurd h (by decide)

theorem undots_digits (h : ∀ c ∈ cs, Text.isDigit c = true) : Undots cs cs :=
  undots_self fun c hc => not_sign_of_isIdentRest (isIdentRest_of_isDigit (h c hc))

/-- The point of a number has digits after it. -/
theorem undots_magnitudeChars (a : Decimal) : Undots a.magnitudeChars a.magnitudeChars := by
  have hwhole : ∀ c ∈ (toString (a.mantissa / Nat.pow 10 a.scale)).toList, Text.isDigit c = true :=
    fun c => isDigit_of_mem_toString
  rw [Decimal.magnitudeChars]
  split
  · exact undots_digits hwhole
  · rename_i hscale
    apply (undots_digits hwhole).append
    have hlength := length_paddedDigits (Nat.pos_of_ne_zero hscale)
      (Nat.mod_lt a.mantissa (by positivity : 0 < 10 ^ a.scale))
    have hfraction : ∀ c ∈ Decimal.paddedDigits a.scale (a.mantissa % Nat.pow 10 a.scale),
        Text.isDigit c = true := fun c => isDigit_of_mem_paddedDigits
    simp only [Nat.pow_eq] at hfraction ⊢
    cases hdigits : Decimal.paddedDigits a.scale (a.mantissa % 10 ^ a.scale) with
    | nil =>
      rw [hdigits] at hlength
      exact absurd hlength.symm hscale
    | cons c cs =>
      rw [hdigits] at hfraction
      have hc := not_sign_of_isIdentRest (isIdentRest_of_isDigit (hfraction c List.mem_cons_self))
      exact undots_point_cons hc.2 (undots_digits hfraction)

theorem undots_name (h : IsName cs) : Undots cs cs :=
  undots_self fun c hc => not_sign_of_isIdentRest (h.isIdentRest c hc)

theorem undots_parenthesize (h : Undots cs ds) : Undots ('(' :: cs ++ [')']) ('(' :: ds ++ [')']) :=
  undots_cons (by decide) rfl (h.append (undots_cons (by decide) rfl undots_nil))

/-- A sign with blanks around it and a point in front. -/
theorem undots_spaced_sign {cs' ds' : List Char} (hsign : isMatrixSign c = true) (h : Undots cs ds)
    (h' : Undots cs' ds') :
    Undots (cs ++ ' ' :: '.' :: c :: ' ' :: cs') (ds ++ ' ' :: c :: ' ' :: ds') :=
  h.append (undots_cons (by decide) rfl (undots_sign_cons hsign (undots_cons (by decide) rfl h')))

theorem undots_spaced {cs' ds' : List Char} (hc : c ≠ '.') (hsign : isMatrixSign c = false)
    (h : Undots cs ds) (h' : Undots cs' ds') :
    Undots (cs ++ ' ' :: c :: ' ' :: cs') (ds ++ ' ' :: c :: ' ' :: ds') :=
  h.append (undots_cons (by decide) rfl (undots_cons hc hsign (undots_cons (by decide) rfl h')))

end

/-- The characters are read as a phrase with this tree. -/
def ReadsAs (phrase : Phrase) (cs : List Char) (e : Expr) : Prop :=
  ∃ ds ts, Undots cs ds ∧ Spells ds ts ∧ MatlabDerives phrase ts e

section

variable {phrase phrase' : Phrase} {cs ds : List Char} {b e l r : Expr}

theorem ReadsAs.loosen (h : ReadsAs phrase cs e) (hlevel : phrase'.level ≤ phrase.level) :
    ReadsAs phrase' cs e := by
  obtain ⟨us, ts, hundots, hspells, hderives⟩ := h
  exact ⟨us, ts, hundots, hspells, hderives.loosen hlevel⟩

theorem readsAs_magnitude {v : Decimal} (h : v.negative = false) :
    ReadsAs .atom v.magnitudeChars (.number v) :=
  ⟨_, _, undots_magnitudeChars v, spells_number h, .number v⟩

theorem readsAs_name {name : String} (h : IsName name.toList) :
    ReadsAs .atom name.toList (.ident name) :=
  ⟨_, _, undots_name h, spells_name h, .ident name⟩

theorem ReadsAs.paren (h : ReadsAs .sum cs e) : ReadsAs .atom ('(' :: cs ++ [')']) e := by
  obtain ⟨us, ts, hundots, hspells, hderives⟩ := h
  exact ⟨_, _, undots_parenthesize hundots, hspells.parenthesize, .paren hderives⟩

theorem ReadsAs.ceil (h : ReadsAs .sum cs e) :
    ReadsAs .atom ("ceil".toList ++ ('(' :: cs ++ [')'])) (.ceil e) := by
  obtain ⟨us, ts, hundots, hspells, hderives⟩ := h
  have hname : IsName "ceil".toList := ⟨'c', ['e', 'i', 'l'], rfl, rfl, List.all_eq_true.1 rfl⟩
  have hcall := (spells_name hname).append hspells.parenthesize fun _ _ => clear_of_symbol? rfl
  exact ⟨_, _, (undots_name hname).append (undots_parenthesize hundots), hcall, .ceil hderives⟩

theorem ReadsAs.neg (h : ReadsAs .unary cs e) : ReadsAs .unary ('-' :: cs) (.neg e) := by
  obtain ⟨us, ts, hundots, hspells, hderives⟩ := h
  exact ⟨_, _, undots_cons (by decide) rfl hundots, spells_symbol_cons rfl hspells, .minus hderives⟩

theorem ReadsAs.pow (h : ReadsAs .power cs b) (h' : ReadsAs .atom ds e) :
    ReadsAs .power (cs ++ ' ' :: '.' :: '^' :: ' ' :: ds) (.binary .pow b e) := by
  obtain ⟨us, ts, hundots, hspells, hderives⟩ := h
  obtain ⟨us', ts', hundots', hspells', hderives'⟩ := h'
  exact ⟨_, _, undots_spaced_sign rfl hundots hundots', hspells.spaced_symbol rfl hspells',
    .pow hderives hderives'⟩

theorem ReadsAs.root (h : ReadsAs .power cs e) :
    ReadsAs .power (cs ++ ['.', '^', '0', '.', '5'])
      (.binary .pow e (.number rootExponent)) := by
  obtain ⟨us, ts, hundots, hspells, hderives⟩ := h
  have htext : rootExponent.magnitudeChars = ['0', '.', '5'] := by decide
  have hundots' : Undots ['.', '^', '0', '.', '5'] ['^', '0', '.', '5'] :=
    undots_sign_cons rfl (htext ▸ undots_magnitudeChars rootExponent)
  have hnumber : Spells ['0', '.', '5'] [.number rootExponent] := htext ▸ spells_number rfl
  exact ⟨_, _, hundots.append hundots', hspells.symbol rfl hnumber,
    .pow hderives (.number rootExponent)⟩

theorem ReadsAs.mul (h : ReadsAs .product cs l) (h' : ReadsAs .unary ds r) :
    ReadsAs .product (cs ++ ' ' :: '.' :: '*' :: ' ' :: ds) (.binary .mul l r) := by
  obtain ⟨us, ts, hundots, hspells, hderives⟩ := h
  obtain ⟨us', ts', hundots', hspells', hderives'⟩ := h'
  exact ⟨_, _, undots_spaced_sign rfl hundots hundots', hspells.spaced_symbol rfl hspells',
    .product hderives rfl hderives'⟩

theorem ReadsAs.div (h : ReadsAs .product cs l) (h' : ReadsAs .unary ds r) :
    ReadsAs .product (cs ++ ' ' :: '.' :: '/' :: ' ' :: ds) (.binary .div l r) := by
  obtain ⟨us, ts, hundots, hspells, hderives⟩ := h
  obtain ⟨us', ts', hundots', hspells', hderives'⟩ := h'
  exact ⟨_, _, undots_spaced_sign rfl hundots hundots', hspells.spaced_symbol rfl hspells',
    .product hderives rfl hderives'⟩

theorem ReadsAs.add (h : ReadsAs .sum cs l) (h' : ReadsAs .product ds r) :
    ReadsAs .sum (cs ++ ' ' :: '+' :: ' ' :: ds) (.binary .add l r) := by
  obtain ⟨us, ts, hundots, hspells, hderives⟩ := h
  obtain ⟨us', ts', hundots', hspells', hderives'⟩ := h'
  exact ⟨_, _, undots_spaced (by decide) rfl hundots hundots', hspells.spaced_symbol rfl hspells',
    .sum hderives rfl hderives'⟩

theorem ReadsAs.sub (h : ReadsAs .sum cs l) (h' : ReadsAs .product ds r) :
    ReadsAs .sum (cs ++ ' ' :: '-' :: ' ' :: ds) (.binary .sub l r) := by
  obtain ⟨us, ts, hundots, hspells, hderives⟩ := h
  obtain ⟨us', ts', hundots', hspells', hderives'⟩ := h'
  exact ⟨_, _, undots_spaced (by decide) rfl hundots hundots', hspells.spaced_symbol rfl hspells',
    .sum hderives rfl hderives'⟩

theorem ReadsAs.matlabReads {text : String} (h : ReadsAs .sum text.toList e) :
    MatlabReads text e := by
  obtain ⟨cs, ts, hundots, hspells, hderives⟩ := h
  exact ⟨cs, ts, hundots.eq_some, scan_eq_ok_of_spells (by rwa [String.toList_ofList]), hderives⟩

end

/-- The characters are read as a phrase that denotes what the expression does. -/
def Writes (phrase : Phrase) (cs : List Char) (e : Expr) : Prop :=
  ∃ e', ReadsAs phrase cs e' ∧ SameFunction e' e

section

variable {phrase phrase' : Phrase} {cs ds : List Char} {b e l r : Expr}

theorem Writes.loosen (h : Writes phrase cs e) (hlevel : phrase'.level ≤ phrase.level) :
    Writes phrase' cs e := by
  obtain ⟨e', hreads, hsame⟩ := h
  exact ⟨e', hreads.loosen hlevel, hsame⟩

theorem writes_number {v : Decimal} (h : v.negative = false) :
    Writes .atom v.shortText.toList (.number v) := by
  have habs : v.abs = v := by
    cases v
    subst h
    rfl
  rw [shortText_toList, habs, h]
  refine ⟨_, readsAs_magnitude (negative_normalize h), ?_⟩
  intro K _ _ I names
  rw [fieldValue, fieldValue, toRat_normalize]

theorem writes_name {name : String} (h : IsName name.toList) :
    Writes .atom name.toList (.ident name) :=
  ⟨_, readsAs_name h, .refl _⟩

theorem Writes.paren (h : Writes .sum cs e) : Writes .atom ('(' :: cs ++ [')']) e := by
  obtain ⟨e', hreads, hsame⟩ := h
  exact ⟨e', hreads.paren, hsame⟩

theorem Writes.ceil (h : Writes .sum cs e) :
    Writes .atom ("ceil".toList ++ ('(' :: cs ++ [')'])) (.ceil e) := by
  obtain ⟨e', hreads, hsame⟩ := h
  exact ⟨_, hreads.ceil, hsame.ceil⟩

theorem Writes.neg (h : Writes .unary cs e) : Writes .unary ('-' :: cs) (.neg e) := by
  obtain ⟨e', hreads, hsame⟩ := h
  exact ⟨_, hreads.neg, hsame.neg⟩

theorem Writes.pow (h : Writes .power cs b) (h' : Writes .atom ds e) :
    Writes .power (cs ++ ' ' :: '.' :: '^' :: ' ' :: ds) (.binary .pow b e) := by
  obtain ⟨b', hreads, hsame⟩ := h
  obtain ⟨e', hreads', hsame'⟩ := h'
  exact ⟨_, hreads.pow hreads', hsame.binary hsame'⟩

theorem Writes.root (h : Writes .power cs e) :
    Writes .power (cs ++ ['.', '^', '0', '.', '5']) (.sqrt e) := by
  obtain ⟨e', hreads, hsame⟩ := h
  exact ⟨_, hreads.root, (hsame.binary (.refl _)).trans (sameFunction_sqrt e)⟩

theorem Writes.mul (h : Writes .product cs l) (h' : Writes .product ds r) :
    Writes .product (cs ++ ' ' :: '.' :: '*' :: ' ' :: ds) (.binary .mul l r) := by
  obtain ⟨l', ⟨us, ts, hundots, hspells, hderives⟩, hsame⟩ := h
  obtain ⟨r', ⟨us', ts', hundots', hspells', hderives'⟩, hsame'⟩ := h'
  obtain ⟨e, he, hgrouped⟩ := exists_product hderives hderives'
  exact ⟨e, ⟨_, _, undots_spaced_sign rfl hundots hundots', hspells.spaced_symbol rfl hspells', he⟩,
    hgrouped.trans (hsame.binary hsame')⟩

theorem Writes.div (h : Writes .product cs l) (h' : Writes .unary ds r) :
    Writes .product (cs ++ ' ' :: '.' :: '/' :: ' ' :: ds) (.binary .div l r) := by
  obtain ⟨l', hreads, hsame⟩ := h
  obtain ⟨r', hreads', hsame'⟩ := h'
  exact ⟨_, hreads.div hreads', hsame.binary hsame'⟩

theorem Writes.add (h : Writes .sum cs l) (h' : Writes .sum ds r) :
    Writes .sum (cs ++ ' ' :: '+' :: ' ' :: ds) (.binary .add l r) := by
  obtain ⟨l', ⟨us, ts, hundots, hspells, hderives⟩, hsame⟩ := h
  obtain ⟨r', ⟨us', ts', hundots', hspells', hderives'⟩, hsame'⟩ := h'
  obtain ⟨e, he, hgrouped⟩ := exists_sum hderives hderives'
  exact ⟨e, ⟨_, _, undots_spaced (by decide) rfl hundots hundots',
    hspells.spaced_symbol rfl hspells', he⟩, hgrouped.trans (hsame.binary hsame')⟩

theorem Writes.sub (h : Writes .sum cs l) (h' : Writes .product ds r) :
    Writes .sum (cs ++ ' ' :: '-' :: ' ' :: ds) (.binary .sub l r) := by
  obtain ⟨l', hreads, hsame⟩ := h
  obtain ⟨r', hreads', hsame'⟩ := h'
  exact ⟨_, hreads.sub hreads', hsame.binary hsame'⟩

theorem Writes.exists_reading {text : String} (h : Writes .sum text.toList e) :
    ∃ e', MatlabReads text e' ∧ SameFunction e' e := by
  obtain ⟨e', hreads, hsame⟩ := h
  exact ⟨e', hreads.matlabReads, hsame⟩

end

/-! ### Expressions -/

/-- An expression whose numbers and names are those of some text. -/
def Readable : Expr → Prop
  | .number v => v.negative = false
  | .ident name => IsName name.toList
  | .neg e | .ceil e | .sqrt e => Readable e
  | .binary _ l r => Readable l ∧ Readable r

theorem readable_of_derives {phrase : Phrase} {ts : List Token} {e : Expr}
    (h : Derives phrase ts e) (hts : ∀ t ∈ ts, Writable t) : Readable e := by
  induction h with
  | number v => exact hts _ List.mem_cons_self
  | ident name => exact hts _ List.mem_cons_self
  | ceil _ ih | sqrt _ ih | paren _ ih => exact ih fun t ht => hts t (by simp [ht])
  | minus _ ih | plus _ ih => exact ih fun t ht => hts t (List.mem_cons_of_mem _ ht)
  | base _ ih | power _ ih | factor _ ih | summand _ ih => exact ih hts
  | pow _ _ ihl ihr | product _ _ _ ihl ihr | sum _ _ _ ihl ihr =>
    exact ⟨ihl fun t ht => hts t (by simp [ht]), ihr fun t ht => hts t (by simp [ht])⟩

/-- Whether an expression is written with a sign of powers that no parentheses enclose. -/
def IsPower : Expr → Prop
  | .binary .pow _ _ | .sqrt _ => True
  | _ => False

/-- No exponent is a power or a root itself. -/
def PlainExponents : Expr → Prop
  | .number _ | .ident _ => True
  | .neg e | .ceil e | .sqrt e => PlainExponents e
  | .binary op l r => PlainExponents l ∧ PlainExponents r ∧ (op = .pow → ¬IsPower r)

mutual

/-- The expression with the powers that stand in exponents grouped to the left. -/
def leftGrouped : Expr → Expr
  | .number v => .number v
  | .ident name => .ident name
  | .neg e => .neg (leftGrouped e)
  | .ceil e => .ceil (leftGrouped e)
  | .sqrt e => .sqrt (leftGrouped e)
  | .binary .pow l r => raise (leftGrouped l) r
  | .binary op l r => .binary op (leftGrouped l) (leftGrouped r)

/-- A base in front of an exponent that goes on with powers and roots of its own. -/
def raise (b : Expr) : Expr → Expr
  | .sqrt e => .sqrt (.binary .pow b (leftGrouped e))
  | .binary .pow (.binary .pow l l') r => raise (.binary .pow b (leftGrouped (.binary .pow l l'))) r
  | .binary .pow l r => raise (raise b l) r
  | e => .binary .pow b (leftGrouped e)

end

theorem raise_of_not_isPower {b e : Expr} (h : ¬IsPower e) :
    raise b e = .binary .pow b (leftGrouped e) := by
  cases e with
  | sqrt e => exact absurd trivial h
  | binary op l r =>
    cases op with
    | pow => exact absurd trivial h
    | _ => rw [raise] <;> nofun
  | _ => rw [raise] <;> nofun

theorem leftGrouped_eq_self {e : Expr} (h : PlainExponents e) : leftGrouped e = e := by
  induction e with
  | number v | ident name => rw [leftGrouped]
  | neg e ih | ceil e ih | sqrt e ih => rw [leftGrouped, ih h]
  | binary op l r ihl ihr =>
    obtain ⟨hl, hr, hexponent⟩ := h
    cases op with
    | pow => rw [leftGrouped, raise_of_not_isPower (hexponent rfl), ihl hl, ihr hr]
    | _ =>
      rw [leftGrouped, ihl hl, ihr hr]
      nofun

/-- The tightest phrase that the text of an expression is. -/
def tightest : Expr → Phrase
  | .number _ | .ident _ | .ceil _ => .atom
  | .sqrt _ | .binary .pow _ _ => .power
  | .neg _ => .unary
  | .binary .mul _ _ | .binary .div _ _ => .product
  | .binary .add _ _ | .binary .sub _ _ => .sum

theorem tightest_level (e : Expr) :
    (tightest e).level = e.precedence ∨ (tightest e).level = 4 ∧ e.precedence = 5 := by
  cases e with
  | sqrt e => exact .inr ⟨rfl, rfl⟩
  | binary op l r => cases op <;> exact .inl rfl
  | _ => exact .inl rfl

theorem tightest_eq_atom {e : Expr} (h : ¬IsPower e) (hlevel : 4 ≤ e.precedence) :
    tightest e = .atom := by
  cases e with
  | sqrt e => exact absurd trivial h
  | neg e => exact absurd hlevel (by simp [precedence, negPrecedence])
  | binary op l r =>
    cases op with
    | pow => exact absurd trivial h
    | _ => exact absurd hlevel (by simp [precedence, Operator.precedence])
  | _ => rfl

/-- The text of an expression is read as its left-grouped tree. -/
def WritesTree (e : Expr) : Prop :=
  Writes (tightest e) (e.render .matlab).toList (leftGrouped e)

/-- Behind a base and a sign of powers, the expression raises the base. -/
def WritesExponent (e : Expr) : Prop :=
  ∀ {cs b}, Writes .power cs b → Writes .power (cs ++ ' ' :: '.' :: '^' :: ' ' ::
    (e.enclose .matlab Operator.pow.precedence false (e.render .matlab)).toList) (raise b e)

theorem toList_parenthesize (s : String) :
    (Style.matlab.parenthesize s).toList = '(' :: s.toList ++ [')'] := by
  change ("(" ++ s ++ ")").toList = _
  rw [String.toList_append, String.toList_append]
  rfl

section

variable {e l r : Expr} {op : Operator} {parent : Nat} {strict : Bool} {phrase : Phrase}

theorem WritesTree.sum (h : WritesTree e) : Writes .sum (e.render .matlab).toList (leftGrouped e) :=
  h.loosen (by cases tightest e <;> decide)

theorem WritesTree.parenthesize (h : WritesTree e) :
    Writes .atom (Style.matlab.parenthesize (e.render .matlab)).toList (leftGrouped e) := by
  rw [toList_parenthesize]
  exact h.sum.paren

/-- An operand is a phrase that binds as tightly as its operation asks, but no atom if it is a
root. -/
theorem WritesTree.enclose (h : WritesTree e)
    (hlevel : phrase.level ≤ if strict then parent + 1 else parent) (hpower : phrase.level ≤ 4) :
    Writes phrase (e.enclose .matlab parent strict (e.render .matlab)).toList (leftGrouped e) := by
  rw [Expr.enclose]
  by_cases hparens : e.needsParens parent strict = true
  · rw [if_pos hparens]
    exact h.parenthesize.loosen phrase.level_le
  · rw [if_neg hparens]
    apply h.loosen
    simp only [needsParens, Bool.or_eq_true, Bool.and_eq_true, decide_eq_true_eq, beq_iff_eq,
      not_or, not_and] at hparens
    obtain ⟨hloose, hequal⟩ := hparens
    have htight := tightest_level e
    cases strict with
    | false =>
      rw [if_neg Bool.false_ne_true] at hlevel
      omega
    | true =>
      have hne := hequal rfl
      rw [if_pos rfl] at hlevel
      omega

/-- What is no power is an exponent as a whole. -/
theorem WritesTree.exponent (h : WritesTree e) (hpower : ¬IsPower e) : WritesExponent e := by
  intro cs b hb
  rw [raise_of_not_isPower hpower]
  apply hb.pow
  rw [Expr.enclose]
  by_cases hparens : e.needsParens Operator.pow.precedence false = true
  · rw [if_pos hparens]
    exact h.parenthesize
  · rw [if_neg hparens, ← tightest_eq_atom hpower]
    · exact h
    · simp only [needsParens, Bool.false_and, Bool.or_false, decide_eq_true_eq] at hparens
      exact Nat.le_of_not_lt hparens

theorem render_matlab_binary (op : Operator) (l r : Expr) :
    (Expr.binary op l r).render .matlab =
      l.enclose .matlab op.precedence op.strictSides.1 (l.render .matlab) ++
        Style.matlab.operatorSign op ++
        r.enclose .matlab op.precedence op.strictSides.2 (r.render .matlab) := rfl

theorem writesTree_binary (hl : WritesTree l) (hr : WritesTree r) (hexponent : WritesExponent r) :
    WritesTree (.binary op l r) := by
  rw [WritesTree, render_matlab_binary, toList_append_append]
  cases op with
  | add =>
    rw [leftGrouped]
    · exact Writes.add (hl.enclose le_rfl (by decide)) (hr.enclose le_rfl (by decide))
    · nofun
  | sub =>
    rw [leftGrouped]
    · exact Writes.sub (hl.enclose le_rfl (by decide)) (hr.enclose le_rfl (by decide))
    · nofun
  | mul =>
    rw [leftGrouped]
    · exact Writes.mul (hl.enclose le_rfl (by decide)) (hr.enclose le_rfl (by decide))
    · nofun
  | div =>
    rw [leftGrouped]
    · exact Writes.div (hl.enclose le_rfl (by decide)) (hr.enclose le_rfl (by decide))
    · nofun
  | pow =>
    rw [leftGrouped]
    exact hexponent (hl.enclose (by decide) le_rfl)

theorem toList_sqrt (e : Expr) : ((Expr.sqrt e).render .matlab).toList =
    ('(' :: (e.render .matlab).toList ++ [')']) ++ ['.', '^', '0', '.', '5'] := by
  change ("(" ++ e.render .matlab ++ ").^0.5").toList = _
  rw [toList_append_append, List.append_assoc]
  rfl

theorem writesTree_sqrt (h : WritesTree e) : WritesTree (.sqrt e) := by
  rw [WritesTree, toList_sqrt, leftGrouped]
  exact (h.sum.paren.loosen (by decide)).root

theorem writesExponent_sqrt (h : WritesTree e) : WritesExponent (.sqrt e) := by
  intro cs b hb
  have htext : (Expr.sqrt e).enclose .matlab Operator.pow.precedence false
      ((Expr.sqrt e).render .matlab) = (Expr.sqrt e).render .matlab := rfl
  rw [htext, toList_sqrt, raise]
  have hroot := (hb.pow h.sum.paren).root
  rw [List.append_assoc] at hroot
  exact hroot

/-- The base of an exponent that is a power goes to the base in front of it. -/
theorem exists_raised (hl : WritesTree l) (hbase : WritesExponent l) (r : Expr) {cs : List Char}
    {b : Expr} (hb : Writes .power cs b) :
    ∃ b', raise b (.binary .pow l r) = raise b' r ∧
      Writes .power (cs ++ ' ' :: '.' :: '^' :: ' ' ::
        (l.enclose .matlab Operator.pow.precedence true (l.render .matlab)).toList) b' := by
  -- A power is put in parentheses there; a root is not, and goes on with the base in front.
  by_cases hpower : ∃ l₁ l₂, l = .binary .pow l₁ l₂
  · obtain ⟨l₁, l₂, rfl⟩ := hpower
    refine ⟨.binary .pow b (leftGrouped (.binary .pow l₁ l₂)), by rw [raise], ?_⟩
    exact hb.pow hl.parenthesize
  · refine ⟨raise b l, ?_, ?_⟩
    · rw [raise]
      exact fun l₁ l₂ h => hpower ⟨l₁, l₂, h⟩
    · have htext : l.enclose .matlab Operator.pow.precedence true (l.render .matlab) =
          l.enclose .matlab Operator.pow.precedence false (l.render .matlab) := by
        cases l with
        | binary op l₁ l₂ =>
          cases op with
          | pow => exact absurd ⟨l₁, l₂, rfl⟩ hpower
          | _ => rfl
        | _ => rfl
      rw [htext]
      exact hbase hb

theorem writesExponent_pow (hl : WritesTree l) (hbase : WritesExponent l)
    (hexponent : WritesExponent r) : WritesExponent (.binary .pow l r) := by
  intro cs b hb
  obtain ⟨b', hraise, hb'⟩ := exists_raised hl hbase r hb
  have htext : (Expr.binary .pow l r).enclose .matlab Operator.pow.precedence false
      ((Expr.binary .pow l r).render .matlab) = (Expr.binary .pow l r).render .matlab := rfl
  have hall := hexponent hb'
  rw [List.append_assoc] at hall
  rw [htext, render_matlab_binary, toList_append_append, hraise]
  exact hall

/-- What is written for an expression from a text, alone and behind a base. -/
theorem writes_render (h : Readable e) : WritesTree e ∧ WritesExponent e := by
  -- Both at once, since the text of a power goes on with that of its exponent.
  induction e with
  | number v =>
    have htree : WritesTree (.number v) := by
      rw [WritesTree, leftGrouped]
      exact writes_number h
    exact ⟨htree, htree.exponent id⟩
  | ident name =>
    have htree : WritesTree (.ident name) := by
      rw [WritesTree, leftGrouped]
      exact writes_name h
    exact ⟨htree, htree.exponent id⟩
  | neg e ih =>
    have htree : WritesTree (.neg e) := by
      rw [WritesTree, leftGrouped, render, String.toList_append]
      exact Writes.neg ((ih h).1.enclose (by decide) (by decide))
    exact ⟨htree, htree.exponent id⟩
  | ceil e ih =>
    have htree : WritesTree (.ceil e) := by
      rw [WritesTree, leftGrouped]
      change Writes .atom ("ceil(" ++ e.render .matlab ++ ")").toList _
      rw [toList_append_append]
      exact (ih h).1.sum.ceil
    exact ⟨htree, htree.exponent id⟩
  | sqrt e ih => exact ⟨writesTree_sqrt (ih h).1, writesExponent_sqrt (ih h).1⟩
  | binary op l r ihl ihr =>
    obtain ⟨hl, hbase⟩ := ihl h.1
    obtain ⟨hr, hexponent⟩ := ihr h.2
    have htree : WritesTree (.binary op l r) := writesTree_binary hl hr hexponent
    cases op with
    | pow => exact ⟨htree, writesExponent_pow hl hbase hexponent⟩
    | _ => exact ⟨htree, htree.exponent id⟩

end

theorem readable_of_parse {source : String} {e : Expr} (h : Expr.parse source = .ok e) :
    Readable e := by
  obtain ⟨ts, hts, hderives⟩ := parse_eq_ok_iff.1 h
  exact readable_of_derives hderives (writable_of_scan hts)

/-- The Matlab text of an expression has one reading. It denotes what the expression denotes with the
powers in its exponents grouped to the left, and so what the expression itself denotes if there are
none. -/
theorem matlab_text_denotes {source : String} {e : Expr} (h : Expr.parse source = .ok e) :
    (∃! e', MatlabReads (e.render .matlab) e') ∧
      ∀ e', MatlabReads (e.render .matlab) e' →
        SameFunction e' (leftGrouped e) ∧ (PlainExponents e → SameFunction e' e) := by
  obtain ⟨e', hreads, hsame⟩ := (writes_render (readable_of_parse h)).1.sum.exists_reading
  refine ⟨⟨e', hreads, fun e'' hreads' => matlabReads_unique hreads' hreads⟩, ?_⟩
  intro e'' hreads'
  obtain rfl := matlabReads_unique hreads' hreads
  refine ⟨hsame, fun hplain => ?_⟩
  rwa [leftGrouped_eq_self hplain] at hsame

/-- A number of one digit. -/
def digit (n : Fin 10) : Decimal := (Decimal.ofNat? n).getD .zero

/-- A root raised to a power behind a sign, a quotient, and an exponent with a sign. -/
theorem signedPower_denotes :
    let root : Expr := .sqrt (.binary .add (.ident "p") (.number (digit 1)))
    let quotient := Expr.binary .div (.neg (.binary .pow root (.number (digit 2))))
      (.number (digit 3))
    let e := Expr.binary .sub quotient (.binary .pow (.ceil (.ident "q")) (.neg (.ident "p")))
    Expr.parse "-sqrt(p + 1)^2 / 3 - ceil(q)^-p" = .ok e ∧
      e.render .matlab = "-(p + 1).^0.5 .^ 2 ./ 3 - ceil(q) .^ (-p)" ∧
      (∃! e', MatlabReads (e.render .matlab) e') ∧
      ∀ e', MatlabReads (e.render .matlab) e' → SameFunction e' e := by
  intro root quotient e
  have hscan : scan "-sqrt(p + 1)^2 / 3 - ceil(q)^-p" =
      .ok [.minus, .ident "sqrt", .leftParen, .ident "p", .plus, .number (digit 1), .rightParen,
        .caret, .number (digit 2), .slash, .number (digit 3), .minus, .ident "ceil", .leftParen,
        .ident "q", .rightParen, .caret, .minus, .ident "p"] :=
    toOption_eq_some.1 (by decide +kernel)
  have hparse : Expr.parse "-sqrt(p + 1)^2 / 3 - ceil(q)^-p" = .ok e :=
    parse_eq_ok_iff.2 ⟨_, hscan, ofTokens_eq_ok_iff.1 (by cbv)⟩
  have hplain : PlainExponents e := by simp [e, quotient, root, PlainExponents, IsPower]
  obtain ⟨hunique, hdenotes⟩ := matlab_text_denotes hparse
  exact ⟨hparse, by decide +kernel, hunique, fun e' h => (hdenotes e' h).2 hplain⟩

/-- A power in an exponent is written without parentheses, and Matlab groups it to the left: what is
written for 512 is read as 64. -/
theorem powerTower_denotes_other :
    let e := Expr.binary .pow (.number (digit 2))
      (.binary .pow (.number (digit 3)) (.number (digit 2)))
    let e' := Expr.binary .pow (.binary .pow (.number (digit 2)) (.number (digit 3)))
      (.number (digit 2))
    Expr.parse "2 ^ 3 ^ 2" = .ok e ∧ e.render .matlab = "2 .^ 3 .^ 2" ∧
      (∀ e'', MatlabReads (e.render .matlab) e'' ↔ e'' = e') ∧ ¬SameFunction e' e := by
  intro e e'
  have hscan : scan "2 ^ 3 ^ 2" =
      .ok [.number (digit 2), .caret, .number (digit 3), .caret, .number (digit 2)] :=
    toOption_eq_some.1 (by decide +kernel)
  have hparse : Expr.parse "2 ^ 3 ^ 2" = .ok e :=
    parse_eq_ok_iff.2 ⟨_, hscan, ofTokens_eq_ok_iff.1 (by cbv)⟩
  have hderives : MatlabDerives .power [.number (digit 2), .caret, .number (digit 3), .caret,
      .number (digit 2)] e' :=
    .pow (.pow (.base (.number _)) (.number _)) (.number _)
  have hreads : MatlabReads (e.render .matlab) e' :=
    ⟨"2 ^ 3 ^ 2".toList, _, by decide +kernel, by rwa [String.ofList_toList],
      hderives.loosen (by decide)⟩
  refine ⟨hparse, by decide +kernel, ?_, ?_⟩
  · exact fun e'' => ⟨fun h => matlabReads_unique h hreads, fun h => h ▸ hreads⟩
  · intro hsame
    have hvalue := hsame ℚ ⟨fun a b => some (a ^ b.num.toNat), id⟩ fun _ => 0
    revert hvalue
    decide +kernel

end MarkovFit.Proofs
