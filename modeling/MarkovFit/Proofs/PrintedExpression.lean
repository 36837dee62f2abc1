import MarkovFit.Expr.Render
import MarkovFit.Proofs.ExpressionGrammar
import MarkovFit.Proofs.ExpressionText

/-!
# The printed expression

An expression means a partial function of its names. What is written for an expression without a
ceiling is read as the same expression again, but for its numbers, which have lost the zeros at
their end, and for its sums and products, which are grouped to the left. None of that is seen in the
meaning, in the names or in the text.
-/

namespace MarkovFit.Proofs

open MarkovFit.Expr

/-! ### Meanings -/

/-- Partial functions for the roots and the powers. -/
structure Functions where
  sqrt : ℚ → Option ℚ
  pow : ℚ → ℚ → Option ℚ

/-- The result of an operation; a division by zero has none. -/
def Functions.apply (F : Functions) : Operator → ℚ → ℚ → Option ℚ
  | .add, a, b => some (a + b)
  | .sub, a, b => some (a - b)
  | .mul, a, b => some (a * b)
  | .div, a, b => if b = 0 then none else some (a / b)
  | .pow, a, b => F.pow a b

/-- A partial function of the values of names. -/
abbrev Meaning := Functions → (String → ℚ) → Option ℚ

namespace Meaning

def constant (a : ℚ) : Meaning := fun _ _ => some a

def neg (m : Meaning) : Meaning := fun F names => (m F names).map (- ·)

def root (m : Meaning) : Meaning := fun F names => (m F names).bind F.sqrt

/-- An operation on two meanings, with a result where both have one and it has one for them. -/
def combine (op : Operator) (m m' : Meaning) : Meaning := fun F names =>
  (m F names).bind fun a => (m' F names).bind (F.apply op a)

end Meaning

/-- The meaning of an expression over the rationals. -/
def meaning : Expr → Meaning
  | .number v => .constant v.toRat
  | .ident name => fun _ names => some (names name)
  | .neg e => (meaning e).neg
  | .binary op l r => (meaning l).combine op (meaning r)
  | .ceil e => fun F names => (meaning e F names).map fun a => (⌈a⌉ : ℚ)
  | .sqrt e => (meaning e).root

/-- A sum goes on as its last part does. -/
theorem combine_add_assoc {t : Token} {op : Operator} (hop : sumOperator? t = some op)
    (m m' m'' : Meaning) :
    m.combine .add (m'.combine op m'') = (m.combine .add m').combine op m'' := by
  funext F names
  cases t <;> cases hop
  all_goals
    simp only [Meaning.combine]
    cases m F names <;> cases m' F names <;> cases m'' F names <;>
      simp [Functions.apply, add_assoc, add_sub_assoc]

theorem combine_mul_assoc {t : Token} {op : Operator} (hop : productOperator? t = some op)
    (m m' m'' : Meaning) :
    m.combine .mul (m'.combine op m'') = (m.combine .mul m').combine op m'' := by
  funext F names
  cases t <;> cases hop
  all_goals
    simp only [Meaning.combine]
    cases m F names <;> cases m' F names <;> cases m'' F names <;>
      simp [Functions.apply, mul_assoc, mul_div_assoc]
  split <;> rfl

/-! ### Grouping to the left -/

/-- The second expression is the first one with sums and products grouped further to the left, and
with numbers that have lost the zeros at their end. -/
inductive Regroups : Expr → Expr → Prop
  | refl (e : Expr) : Regroups e e
  | trans {e e' e'' : Expr} : Regroups e e' → Regroups e' e'' → Regroups e e''
  | number (v : Decimal) : Regroups (.number v) (.number v.normalize)
  | neg {e e' : Expr} : Regroups e e' → Regroups (.neg e) (.neg e')
  | sqrt {e e' : Expr} : Regroups e e' → Regroups (.sqrt e) (.sqrt e')
  | binary (op : Operator) {l l' r r' : Expr} : Regroups l l' → Regroups r r' →
      Regroups (.binary op l r) (.binary op l' r')
  | sum {t : Token} {op : Operator} (hop : sumOperator? t = some op) (l m r : Expr) :
      Regroups (.binary .add l (.binary op m r)) (.binary op (.binary .add l m) r)
  | product {t : Token} {op : Operator} (hop : productOperator? t = some op) (l m r : Expr) :
      Regroups (.binary .mul l (.binary op m r)) (.binary op (.binary .mul l m) r)

/-- Sums bind as tightly as differences and group to the left. -/
theorem sumOperator?_sides {t : Token} {op : Operator} (hop : sumOperator? t = some op) :
    op.precedence = Operator.add.precedence ∧ op.strictSides.1 = false := by
  cases t <;> cases hop <;> exact ⟨rfl, rfl⟩

theorem productOperator?_sides {t : Token} {op : Operator} (hop : productOperator? t = some op) :
    op.precedence = Operator.mul.precedence ∧ op.strictSides.1 = false := by
  cases t <;> cases hop <;> exact ⟨rfl, rfl⟩

theorem render_math_binary (op : Operator) (l r : Expr) :
    (Expr.binary op l r).render .math =
      l.enclose .math op.precedence op.strictSides.1 (l.render .math) ++
        Style.math.operatorSign op ++
        r.enclose .math op.precedence op.strictSides.2 (r.render .math) := rfl

/-- A chain is written without parentheses around its last part. -/
theorem render_grouped_left {op op' : Operator} (hprecedence : op'.precedence = op.precedence)
    (hright : op.strictSides.2 = false) (hleft : op'.strictSides.1 = false) (l m r : Expr) :
    (Expr.binary op' (.binary op l m) r).render .math =
      (Expr.binary op l (.binary op' m r)).render .math := by
  have hopen : ∀ e : Expr, e.precedence = op.precedence →
      ∀ text, e.enclose .math op.precedence false text = text := by
    intro e he text
    rw [enclose, if_neg]
    simp [needsParens, he]
  rw [render_math_binary op' (.binary op l m), render_math_binary op l (.binary op' m r), hleft,
    hright, hprecedence, hopen (.binary op l m) rfl, hopen (.binary op' m r) hprecedence,
    render_math_binary op l m, render_math_binary op' m r, hleft, hright, hprecedence]
  simp only [String.append_assoc]

namespace Regroups

variable {e e' : Expr}

theorem meaning_eq (h : Regroups e e') : meaning e' = meaning e := by
  induction h with
  | refl => rfl
  | trans _ _ ih ih' => rw [ih', ih]
  | number v => rw [meaning, meaning, toRat_normalize]
  | neg _ ih | sqrt _ ih => rw [meaning, meaning, ih]
  | binary op _ _ ihl ihr => rw [meaning, meaning, ihl, ihr]
  | sum hop l m r => exact (combine_add_assoc hop _ _ _).symm
  | product hop l m r => exact (combine_mul_assoc hop _ _ _).symm

theorem addIdentifiers_eq (h : Regroups e e') (names : List String) :
    e'.addIdentifiers names = e.addIdentifiers names := by
  induction h generalizing names with
  | refl | number | sum | product => rfl
  | trans _ _ ih ih' => rw [ih', ih]
  | neg _ ih | sqrt _ ih => exact ih names
  | binary op _ _ ihl ihr => rw [addIdentifiers, addIdentifiers, ihl, ihr]

theorem precedence_eq (h : Regroups e e') : e'.precedence = e.precedence := by
  induction h with
  | refl | number | neg | sqrt | binary => rfl
  | trans _ _ ih ih' => rw [ih', ih]
  | sum hop => exact (sumOperator?_sides hop).1
  | product hop => exact (productOperator?_sides hop).1

theorem enclose_eq (h : Regroups e e') (style : Style) (parent : Nat) (strict : Bool)
    (text : String) : e'.enclose style parent strict text = e.enclose style parent strict text := by
  rw [enclose, enclose, needsParens, needsParens, h.precedence_eq]

theorem render_eq (h : Regroups e e') : e'.render .math = e.render .math := by
  induction h with
  | refl => rfl
  | trans _ _ ih ih' => rw [ih', ih]
  | number v =>
    rw [render, render, Decimal.shortText, normalize_normalize]
    rfl
  | neg h ih => rw [render, render, h.enclose_eq, ih]
  | sqrt _ ih => rw [render, render, ih]
  | binary op hl hr ihl ihr =>
    rw [render_math_binary, render_math_binary, hl.enclose_eq, hr.enclose_eq, ihl, ihr]
  | sum hop l m r =>
    obtain ⟨hprecedence, hleft⟩ := sumOperator?_sides hop
    exact render_grouped_left hprecedence rfl hleft l m r
  | product hop l m r =>
    obtain ⟨hprecedence, hleft⟩ := productOperator?_sides hop
    exact render_grouped_left hprecedence rfl hleft l m r

end Regroups

/-- A chain that follows a phrase may be grouped to the left together with it. -/
theorem exists_grouped_left {operator? : Token → Option Operator} {phrase phrase' : Phrase}
    (more : ∀ {ts us t op l r}, Derives phrase' ts l → operator? t = some op →
      Derives phrase us r → Derives phrase' (ts ++ t :: us) (.binary op l r))
    {t : Token} {op : Operator} (hop : operator? t = some op)
    (hassoc : ∀ {t' op'}, operator? t' = some op' → ∀ l m r,
      Regroups (.binary op l (.binary op' m r)) (.binary op' (.binary op l m) r))
    {ts us : List Token} {l r : Expr} (hl : Derives phrase' ts l)
    (hr : Chain operator? phrase us r) :
    ∃ e, Derives phrase' (ts ++ t :: us) e ∧ Regroups (.binary op l r) e := by
  obtain ⟨first, left, parts, hfirst, hparts, rfl, rfl⟩ := hr
  induction parts using List.reverseRecOn with
  | nil => exact ⟨.binary op l left, by simpa using more hl hop hfirst, .refl _⟩
  | append_singleton parts p ih =>
    obtain ⟨e, he, hregroups⟩ := ih fun q hq => hparts q (List.mem_append_left _ hq)
    obtain ⟨hsign, hp⟩ := hparts p (List.mem_append_right _ List.mem_cons_self)
    refine ⟨.binary p.op e p.tree, by simpa using more he hsign hp, ?_⟩
    rw [List.foldl_append]
    exact .trans (hassoc hsign l _ _) (.binary p.op hregroups (.refl p.tree))

theorem exists_sum_of_sums {ts us : List Token} {l r : Expr} (hl : Derives .sum ts l)
    (hr : Derives .sum us r) : ∃ e, Derives .sum (ts ++ .plus :: us) e ∧
      Regroups (.binary .add l r) e :=
  exists_grouped_left .sum rfl .sum hl (derives_sum_iff_chain.1 hr)

theorem exists_product_of_products {ts us : List Token} {l r : Expr} (hl : Derives .product ts l)
    (hr : Derives .product us r) : ∃ e, Derives .product (ts ++ .star :: us) e ∧
      Regroups (.binary .mul l r) e :=
  exists_grouped_left .product rfl .product hl (derives_product_iff_chain.1 hr)

/-! ### Phrases that are read -/

/-- How tightly a phrase binds. -/
def Phrase.level : Phrase → Nat
  | .sum => 1
  | .product => 2
  | .unary => 3
  | .power => 4
  | .atom => 5

theorem Phrase.level_le (phrase : Phrase) : phrase.level ≤ 5 := by
  cases phrase <;> decide

def Phrase.looser : Phrase → Phrase
  | .atom => .power
  | .power => .unary
  | .unary => .product
  | .product | .sum => .sum

theorem Derives.looser {phrase : Phrase} {ts : List Token} {e : Expr} (h : Derives phrase ts e) :
    Derives phrase.looser ts e :=
  match phrase, h with
  | .atom, h => .base h
  | .power, h => .power h
  | .unary, h => .factor h
  | .product, h => .summand h
  | .sum, h => h

/-- A phrase is also one of every kind that binds looser. -/
theorem Derives.loosen {phrase phrase' : Phrase} {ts : List Token} {e : Expr}
    (h : Derives phrase ts e) (hlevel : phrase'.level ≤ phrase.level) : Derives phrase' ts e := by
  by_cases heq : phrase = phrase'
  · exact heq ▸ h
  · have hstep : phrase'.level ≤ phrase.looser.level ∧ phrase.looser.level < phrase.level := by
      revert heq hlevel
      cases phrase <;> cases phrase' <;> decide
    exact h.looser.loosen hstep.1
termination_by phrase.level
decreasing_by exact hstep.2

/-- The characters are read as a phrase that is the expression, grouped to the left. -/
def Reads (phrase : Phrase) (cs : List Char) (e : Expr) : Prop :=
  ∃ ts e', Spells cs ts ∧ Derives phrase ts e' ∧ Regroups e e'

section

variable {cs ds : List Char} {e e' : Expr}

theorem Reads.loosen {phrase phrase' : Phrase} (h : Reads phrase cs e)
    (hlevel : phrase'.level ≤ phrase.level) : Reads phrase' cs e := by
  obtain ⟨ts, e', hspells, hderives, hregroups⟩ := h
  exact ⟨ts, e', hspells, hderives.loosen hlevel, hregroups⟩

theorem reads_number {v : Decimal} (h : v.negative = false) :
    Reads .atom v.shortText.toList (.number v) := by
  have habs : v.abs = v := by
    cases v
    subst h
    rfl
  rw [shortText_toList, habs, h]
  exact ⟨_, _, spells_number (negative_normalize h), .number _, .number v⟩

theorem reads_name {name : String} (h : IsName name.toList) :
    Reads .atom name.toList (.ident name) :=
  ⟨_, _, spells_name h, .ident name, .refl _⟩

theorem Reads.paren (h : Reads .sum cs e) : Reads .atom ('(' :: cs ++ [')']) e := by
  obtain ⟨ts, e', hspells, hderives, hregroups⟩ := h
  exact ⟨_, _, hspells.parenthesize, .paren hderives, hregroups⟩

theorem Reads.sqrt (h : Reads .sum cs e) :
    Reads .atom ("sqrt".toList ++ ('(' :: cs ++ [')'])) (.sqrt e) := by
  obtain ⟨ts, e', hspells, hderives, hregroups⟩ := h
  have hname : Spells "sqrt".toList [.ident "sqrt"] :=
    spells_name ⟨'s', ['q', 'r', 't'], rfl, rfl, List.all_eq_true.1 rfl⟩
  have hcall := hname.append hspells.parenthesize fun _ _ => clear_of_symbol? rfl
  exact ⟨_, _, hcall, .sqrt hderives, .sqrt hregroups⟩

theorem Reads.neg (h : Reads .unary cs e) : Reads .unary ('-' :: cs) (.neg e) := by
  obtain ⟨ts, e', hspells, hderives, hregroups⟩ := h
  exact ⟨_, _, spells_symbol_cons rfl hspells, .minus hderives, .neg hregroups⟩

theorem Reads.pow (h : Reads .atom cs e) (h' : Reads .unary ds e') :
    Reads .power (cs ++ '^' :: ds) (.binary .pow e e') := by
  obtain ⟨ts, l, hspells, hderives, hregroups⟩ := h
  obtain ⟨us, r, hspells', hderives', hregroups'⟩ := h'
  exact ⟨_, _, hspells.symbol rfl hspells', .pow hderives hderives',
    .binary .pow hregroups hregroups'⟩

theorem Reads.mul (h : Reads .product cs e) (h' : Reads .product ds e') :
    Reads .product (cs ++ ' ' :: '*' :: ' ' :: ds) (.binary .mul e e') := by
  obtain ⟨ts, l, hspells, hderives, hregroups⟩ := h
  obtain ⟨us, r, hspells', hderives', hregroups'⟩ := h'
  obtain ⟨grouped, hgrouped, hleft⟩ := exists_product_of_products hderives hderives'
  exact ⟨_, _, hspells.spaced_symbol rfl hspells', hgrouped,
    .trans (.binary .mul hregroups hregroups') hleft⟩

theorem Reads.div (h : Reads .product cs e) (h' : Reads .unary ds e') :
    Reads .product (cs ++ ' ' :: '/' :: ' ' :: ds) (.binary .div e e') := by
  obtain ⟨ts, l, hspells, hderives, hregroups⟩ := h
  obtain ⟨us, r, hspells', hderives', hregroups'⟩ := h'
  exact ⟨_, _, hspells.spaced_symbol rfl hspells', .product hderives rfl hderives',
    .binary .div hregroups hregroups'⟩

theorem Reads.add (h : Reads .sum cs e) (h' : Reads .sum ds e') :
    Reads .sum (cs ++ ' ' :: '+' :: ' ' :: ds) (.binary .add e e') := by
  obtain ⟨ts, l, hspells, hderives, hregroups⟩ := h
  obtain ⟨us, r, hspells', hderives', hregroups'⟩ := h'
  obtain ⟨grouped, hgrouped, hleft⟩ := exists_sum_of_sums hderives hderives'
  exact ⟨_, _, hspells.spaced_symbol rfl hspells', hgrouped,
    .trans (.binary .add hregroups hregroups') hleft⟩

theorem Reads.sub (h : Reads .sum cs e) (h' : Reads .product ds e') :
    Reads .sum (cs ++ ' ' :: '-' :: ' ' :: ds) (.binary .sub e e') := by
  obtain ⟨ts, l, hspells, hderives, hregroups⟩ := h
  obtain ⟨us, r, hspells', hderives', hregroups'⟩ := h'
  exact ⟨_, _, hspells.spaced_symbol rfl hspells', .sum hderives rfl hderives',
    .binary .sub hregroups hregroups'⟩

theorem Reads.exists_parse {text : String} (h : Reads .sum text.toList e) :
    ∃ e', Expr.parse text = .ok e' ∧ Regroups e e' := by
  obtain ⟨ts, e', hspells, hderives, hregroups⟩ := h
  exact ⟨e', parse_eq_ok_iff.2 ⟨ts, scan_eq_ok_of_spells hspells, hderives⟩, hregroups⟩

end

/-! ### Expressions -/

/-- Whether no ceiling occurs in an expression. -/
def CeilFree : Expr → Prop
  | .number _ | .ident _ => True
  | .neg e | .sqrt e => CeilFree e
  | .binary _ l r => CeilFree l ∧ CeilFree r
  | .ceil _ => False

/-- An expression without a ceiling whose numbers and names are those of some text. -/
def Printable : Expr → Prop
  | .number v => v.negative = false
  | .ident name => IsName name.toList
  | .neg e | .sqrt e => Printable e
  | .binary _ l r => Printable l ∧ Printable r
  | .ceil _ => False

theorem printable_of_derives {phrase : Phrase} {ts : List Token} {e : Expr}
    (h : Derives phrase ts e) (hts : ∀ t ∈ ts, Writable t) (hceil : CeilFree e) : Printable e := by
  induction h with
  | number v => exact hts _ List.mem_cons_self
  | ident name => exact hts _ List.mem_cons_self
  | ceil => exact hceil.elim
  | sqrt _ ih | paren _ ih => exact ih (fun t ht => hts t (by simp [ht])) hceil
  | minus _ ih | plus _ ih => exact ih (fun t ht => hts t (List.mem_cons_of_mem _ ht)) hceil
  | base _ ih | power _ ih | factor _ ih | summand _ ih => exact ih hts hceil
  | pow _ _ ihl ihr | product _ _ _ ihl ihr | sum _ _ _ ihl ihr =>
    exact ⟨ihl (fun t ht => hts t (by simp [ht])) hceil.1,
      ihr (fun t ht => hts t (by simp [ht])) hceil.2⟩

/-- The text is read as the expression, as any phrase that binds no tighter. -/
def ReadsBack (e : Expr) (text : String) : Prop :=
  ∀ phrase : Phrase, phrase.level ≤ e.precedence → Reads phrase text.toList e

theorem Operator.precedence_pos (op : Operator) : 1 ≤ op.precedence := by
  cases op <;> decide

theorem precedence_pos (e : Expr) : 1 ≤ e.precedence := by
  cases e with
  | binary op l r => exact Operator.precedence_pos op
  | _ => exact Nat.one_le_iff_ne_zero.2 nofun

theorem toList_append_append (a b c : String) :
    (a ++ b ++ c).toList = a.toList ++ (b.toList ++ c.toList) := by
  rw [String.toList_append, String.toList_append, List.append_assoc]

theorem toList_math_parenthesize (text : String) :
    (Style.math.parenthesize text).toList = '(' :: text.toList ++ [')'] := by
  change ("(" ++ text ++ ")").toList = _
  rw [String.toList_append, String.toList_append]
  rfl

section

variable {e l r : Expr} {text : String}

theorem readsBack_of_reads (phrase : Phrase) (hlevel : phrase.level = e.precedence)
    (h : Reads phrase text.toList e) : ReadsBack e text :=
  fun _ hphrase => h.loosen (hphrase.trans_eq hlevel.symm)

theorem ReadsBack.sum (h : ReadsBack e text) : Reads .sum text.toList e := h .sum (precedence_pos e)

theorem ReadsBack.parenthesize (h : ReadsBack e text) :
    Reads .atom (Style.math.parenthesize text).toList e := by
  rw [toList_math_parenthesize]
  exact h.sum.paren

/-- An operand is a phrase that binds as tightly as its operation asks. -/
theorem ReadsBack.enclose (h : ReadsBack e text) {parent : Nat} {strict : Bool} {phrase : Phrase}
    (hlevel : phrase.level ≤ if strict then parent + 1 else parent) :
    Reads phrase (e.enclose .math parent strict text).toList e := by
  rw [Expr.enclose]
  by_cases hparens : e.needsParens parent strict = true
  · rw [if_pos hparens]
    exact h.parenthesize.loosen phrase.level_le
  · rw [if_neg hparens]
    apply h
    simp only [needsParens, Bool.or_eq_true, Bool.and_eq_true, decide_eq_true_eq, beq_iff_eq,
      not_or, not_and] at hparens
    obtain ⟨hloose, hequal⟩ := hparens
    cases strict with
    | false => exact hlevel.trans (Nat.not_lt.1 hloose)
    | true =>
      have hne := hequal rfl
      rw [if_pos rfl] at hlevel
      omega

theorem readsBack_binary {op : Operator} (hl : ReadsBack l (l.render .math))
    (hr : ReadsBack r (r.render .math)) :
    ReadsBack (.binary op l r) ((Expr.binary op l r).render .math) := by
  rw [render_math_binary]
  -- an operand binds as tightly as the operation, or one step tighter on its strict side
  cases op with
  | add =>
    apply readsBack_of_reads .sum rfl
    rw [toList_append_append]
    exact Reads.add (hl.enclose le_rfl) (hr.enclose le_rfl)
  | sub =>
    apply readsBack_of_reads .sum rfl
    rw [toList_append_append]
    exact Reads.sub (hl.enclose le_rfl) (hr.enclose le_rfl)
  | mul =>
    apply readsBack_of_reads .product rfl
    rw [toList_append_append]
    exact Reads.mul (hl.enclose le_rfl) (hr.enclose le_rfl)
  | div =>
    apply readsBack_of_reads .product rfl
    rw [toList_append_append]
    exact Reads.div (hl.enclose le_rfl) (hr.enclose le_rfl)
  | pow =>
    apply readsBack_of_reads .power rfl
    rw [toList_append_append]
    exact Reads.pow (hl.enclose le_rfl) (hr.enclose (by decide))

theorem readsBack_neg (h : ReadsBack e (e.render .math)) :
    ReadsBack (.neg e) ((Expr.neg e).render .math) := by
  apply readsBack_of_reads .unary rfl
  rw [render, String.toList_append]
  exact Reads.neg (h.enclose (by decide))

theorem readsBack_sqrt (h : ReadsBack e (e.render .math)) :
    ReadsBack (.sqrt e) ((Expr.sqrt e).render .math) := by
  apply readsBack_of_reads .atom rfl
  change Reads .atom ("sqrt(" ++ e.render .math ++ ")").toList _
  rw [toList_append_append]
  exact h.sum.sqrt

/-- The text of an expression is read as the expression, grouped to the left. -/
theorem readsBack_render (h : Printable e) : ReadsBack e (e.render .math) := by
  induction e with
  | number v => exact readsBack_of_reads .atom rfl (reads_number h)
  | ident name => exact readsBack_of_reads .atom rfl (reads_name h)
  | neg e ih => exact readsBack_neg (ih h)
  | binary op l r ihl ihr => exact readsBack_binary (ihl h.1) (ihr h.2)
  | ceil e => exact h.elim
  | sqrt e ih => exact readsBack_sqrt (ih h)

end

/-- The expressions that are read: from a text of their own, or among the terms of a list. -/
inductive Parsed : Expr → Prop
  | alone {source : String} {e : Expr} : Expr.parse source = .ok e → Parsed e
  | term {source : String} {terms : List Expr} {e : Expr} :
      parseTerms source = .ok terms → e ∈ terms → Parsed e

theorem printable_of_parsed {e : Expr} (h : Parsed e) (hceil : CeilFree e) : Printable e := by
  cases h with
  | alone h =>
    obtain ⟨ts, hscan, hderives⟩ := parse_eq_ok_iff.1 h
    exact printable_of_derives hderives (writable_of_scan hscan) hceil
  | term h he =>
    obtain ⟨ts, hscan, hlist⟩ := bind_eq_ok.1 h
    rw [mapError_eq_ok] at hscan hlist
    obtain ⟨us, hus, hderives⟩ := (derives_of_listOfTokens hlist).2 e he
    exact printable_of_derives hderives (fun t ht => writable_of_scan hscan t (hus ht)) hceil

/-- The text of an expression that was read is read again, as the same expression but for the
grouping of its sums and products and the zeros at the end of its numbers. The new expression has
the same meaning, the same names and the same text. -/
theorem printed_expression_reads_back {e : Expr} (h : Parsed e) (hceil : CeilFree e) :
    ∃ e', Expr.parse e.text = .ok e' ∧ Regroups e e' ∧
      (∀ F names, meaning e' F names = meaning e F names) ∧
      e'.identifiers = e.identifiers ∧ e'.text = e.text := by
  have hback := readsBack_render (printable_of_parsed h hceil)
  obtain ⟨e', hparse, hregroups⟩ := hback.sum.exists_parse
  exact ⟨e', hparse, hregroups, fun F names => by rw [hregroups.meaning_eq],
    hregroups.addIdentifiers_eq [], hregroups.render_eq⟩

/-- A difference in a sum and a quotient in a product, both in parentheses that are not needed. -/
def nestedChains (exponent : Decimal) : Expr :=
  .binary .add (.ident "a") (.binary .sub (.ident "b") (.binary .mul
    (.binary .pow (.sqrt (.ident "c")) (.number exponent))
    (.binary .div (.ident "x") (.neg (.ident "y")))))

/-- The same chains without the parentheses. -/
def flatChains (exponent : Decimal) : Expr :=
  .binary .sub (.binary .add (.ident "a") (.ident "b")) (.binary .div (.binary .mul
    (.binary .pow (.sqrt (.ident "c")) (.number exponent)) (.ident "x")) (.neg (.ident "y")))

/-- Twenty-five tenths, with a zero at the end. -/
def longExponent : Decimal := ⟨false, 250, 2, by decide, by decide⟩

/-- A text with needless parentheses and a needless zero is printed without them, and what is
printed is read as the chains that it shows. -/
theorem nestedChains_read_back :
    Expr.parse "a + (b - sqrt(c) ^ 2.50 * (x / -y))" = .ok (nestedChains longExponent) ∧
      (nestedChains longExponent).text = "a + b - sqrt(c)^2.5 * x / -y" ∧
      Expr.parse "a + b - sqrt(c)^2.5 * x / -y" = .ok (flatChains longExponent.normalize) ∧
      (flatChains longExponent.normalize).text = "a + b - sqrt(c)^2.5 * x / -y" ∧
      ∀ F names, meaning (flatChains longExponent.normalize) F names =
        meaning (nestedChains longExponent) F names := by
  have hscan : scan "a + (b - sqrt(c) ^ 2.50 * (x / -y))" =
      .ok [.ident "a", .plus, .leftParen, .ident "b", .minus, .ident "sqrt", .leftParen,
        .ident "c", .rightParen, .caret, .number longExponent, .star, .leftParen, .ident "x",
        .slash, .minus, .ident "y", .rightParen, .rightParen] :=
    toOption_eq_some.1 (by decide +kernel)
  have hscan' : scan "a + b - sqrt(c)^2.5 * x / -y" =
      .ok [.ident "a", .plus, .ident "b", .minus, .ident "sqrt", .leftParen, .ident "c",
        .rightParen, .caret, .number longExponent.normalize, .star, .ident "x", .slash, .minus,
        .ident "y"] :=
    toOption_eq_some.1 (by decide +kernel)
  have hparse : Expr.parse "a + (b - sqrt(c) ^ 2.50 * (x / -y))" =
      .ok (nestedChains longExponent) :=
    parse_eq_ok_iff.2 ⟨_, hscan, ofTokens_eq_ok_iff.1 (by cbv)⟩
  have hparse' : Expr.parse "a + b - sqrt(c)^2.5 * x / -y" =
      .ok (flatChains longExponent.normalize) :=
    parse_eq_ok_iff.2 ⟨_, hscan', ofTokens_eq_ok_iff.1 (by cbv)⟩
  have htext : (nestedChains longExponent).text = "a + b - sqrt(c)^2.5 * x / -y" := by
    decide +kernel
  obtain ⟨e', hback, -, hmeaning, -, hagain⟩ :=
    printed_expression_reads_back (.alone hparse) (by simp [nestedChains, CeilFree])
  rw [htext] at hback hagain
  cases hback.symm.trans hparse'
  exact ⟨hparse, htext, hparse', hagain, hmeaning⟩

end MarkovFit.Proofs
