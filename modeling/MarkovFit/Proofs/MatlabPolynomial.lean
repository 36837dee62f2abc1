import MarkovFit.Proofs.MatlabRendering
import MarkovFit.Proofs.ModelRows
import MarkovFit.Proofs.MonomialBasis
import MarkovFit.Proofs.NamingFailures
import MarkovFit.Proofs.SettingsCheck

/-!
# Polynomials for Matlab

The Matlab text of a polynomial has one tree: the constant, and then one product for each further
monomial, added or taken off by the sign of its coefficient. Its value is the sum of all
coefficients times their monomials. The coefficients can be read off again.
-/

namespace MarkovFit.Proofs

open Settings MarkovFit.Expr

/-! ### Trees -/

/-- The number of an exponent. -/
def exponentNumber (e : ℕ) : Decimal := (Decimal.ofNat? e).getD .zero

/-- A power of a variable; the first power is the variable alone. -/
def powerTree (name : String) (e : ℕ) : Expr :=
  if e = 1 then .ident name else .binary .pow (.ident name) (.number (exponentNumber e))

/-- The variables in a monomial with their exponents. -/
def variablesIn (names : List String) (m : Monomial) : List (String × ℕ) :=
  (names.zip m.exponents).filter fun (_, e) => e != 0

/-- The factors of a monomial; without a variable it is a one. -/
def factorTrees (names : List String) (m : Monomial) : List Expr :=
  if (variablesIn names m).isEmpty then [.number .one]
  else (variablesIn names m).map fun (name, e) => powerTree name e

/-- The magnitude of a coefficient times a monomial. -/
def termTree (names : List String) (v : Decimal) (m : Monomial) : Expr :=
  (factorTrees names m).foldl (.binary .mul) (.number v.abs.normalize)

/-- A coefficient without a monomial. -/
def constantTree (v : Decimal) : Expr :=
  if v.negative && !v.isZero then .neg (.number v.abs.normalize) else .number v.abs.normalize

/-- A sum that goes on with a term; a negative coefficient is taken off. -/
def addTerm (names : List String) (value : Monomial → Decimal) (sum : Expr) (m : Monomial) : Expr :=
  .binary (if (value m).negative && !(value m).isZero then .sub else .add) sum
    (termTree names (value m) m)

/-- The terms of all monomials but `1` behind the constant. -/
def sumTree (p : Polynomial) (value : Monomial → Decimal) : Expr :=
  (monomials p).tail.foldl (addTerm p.registry.names value)
    (constantTree (value (Monomial.one p.registry.size)))

/-- The decimal under the name of a monomial. -/
def coefficientOf (p : Polynomial) (values : Valuation) (m : Monomial) : Decimal :=
  values.getD (nameOf p m) .zero

/-- The tree of a polynomial with these coefficients. -/
def polynomialTree (p : Polynomial) (values : Valuation) : Expr :=
  sumTree p (coefficientOf p values)

/-! ### Texts -/

section

variable {e : ℕ} {names : List String} {m : Monomial}

theorem isNat_exponentNumber (h : e < Decimal.mantissaBound) : IsNat (exponentNumber e) e := by
  obtain ⟨v, hv, hnat⟩ := exists_ofNat? h
  rw [exponentNumber, hv]
  exact hnat

theorem readsAs_exponent (h : e < Decimal.mantissaBound) :
    ReadsAs .atom (toString e).toList (.number (exponentNumber e)) := by
  have hnat := isNat_exponentNumber h
  have htext : (exponentNumber e).magnitudeChars = (toString e).toList := by
    rw [Decimal.magnitudeChars, if_pos hnat.scale, hnat.scale, hnat.mantissa, Nat.pow_eq, pow_zero,
      Nat.div_one]
  rw [← htext]
  exact readsAs_magnitude hnat.negative

theorem readsAs_power {name : String} (hname : IsName name.toList)
    (he : e < Decimal.mantissaBound) :
    ReadsAs .atom (Monomial.renderPower .matlab name e).toList (powerTree name e) := by
  rw [Monomial.renderPower, powerTree]
  by_cases hone : e = 1
  · rw [if_pos hone, if_pos hone]
    exact readsAs_name hname
  · rw [if_neg hone, if_neg hone]
    have hbase : ReadsAs .power name.toList (.ident name) := (readsAs_name hname).loosen (by decide)
    have htext : ("(" ++ name ++ " .^ " ++ toString e ++ ")").toList =
        '(' :: (name.toList ++ ' ' :: '.' :: '^' :: ' ' :: (toString e).toList) ++ [')'] := by
      simp [String.toList_append]
    rw [htext]
    exact ((hbase.pow (readsAs_exponent he)).loosen (by decide)).paren

/-- Every text is read as the factor at its place. -/
def ReadFactors (texts : List String) (factors : List Expr) : Prop :=
  List.Forall₂ (fun text e => ReadsAs .atom text.toList e) texts factors

/-- Factors behind a product, with signs between them. -/
theorem ReadsAs.mul_factors {texts : List String} {factors : List Expr}
    (hfactors : ReadFactors texts factors) (hne : texts ≠ []) {cs : List Char} {l : Expr}
    (h : ReadsAs .product cs l) :
    ReadsAs .product (cs ++ (" .* " ++ " .* ".intercalate texts).toList)
      (factors.foldl (.binary .mul) l) := by
  induction hfactors generalizing cs l with
  | nil => exact absurd rfl hne
  | @cons text e texts factors hfactor hrest ih =>
    have hnext := h.mul (hfactor.loosen (by decide))
    cases hrest with
    | nil => simpa using hnext
    | cons hfactor' hrest =>
      have hall := ih (List.cons_ne_nil _ _) hnext
      rw [String.intercalate_cons_cons]
      simpa [String.toList_append] using hall

/-- The text of a monomial puts signs between texts of its factors. -/
theorem exists_factor_texts (hnames : ∀ name ∈ names, IsName name.toList)
    (hexponents : ∀ e ∈ m.exponents, e < Decimal.mantissaBound) :
    ∃ texts, texts ≠ [] ∧ m.render .matlab names = " .* ".intercalate texts ∧
      ReadFactors texts (factorTrees names m) := by
  have htext : m.render .matlab names = if (variablesIn names m).isEmpty then "1" else
      " .* ".intercalate ((variablesIn names m).map fun (name, e) =>
        Monomial.renderPower .matlab name e) := rfl
  rw [htext, factorTrees]
  by_cases hempty : (variablesIn names m).isEmpty = true
  · rw [if_pos hempty, if_pos hempty]
    have htext : Decimal.one.magnitudeChars = "1".toList := by decide
    have hone : ReadsAs .atom "1".toList (.number .one) := htext ▸ readsAs_magnitude rfl
    exact ⟨["1"], List.cons_ne_nil _ _, rfl, .cons hone .nil⟩
  · rw [if_neg hempty, if_neg hempty]
    refine ⟨_, fun hnil => hempty ?_, rfl, ?_⟩
    · rw [List.map_eq_nil_iff.1 hnil]
      rfl
    · rw [ReadFactors, List.forall₂_map_left_iff, List.forall₂_map_right_iff, List.forall₂_same]
      rintro ⟨name, e⟩ hmem
      obtain ⟨hname, he⟩ := List.of_mem_zip (List.mem_of_mem_filter hmem)
      exact readsAs_power (hnames name hname) (hexponents e he)

theorem readsAs_term (hnames : ∀ name ∈ names, IsName name.toList)
    (hexponents : ∀ e ∈ m.exponents, e < Decimal.mantissaBound) (v : Decimal) :
    ReadsAs .product (v.abs.shortText ++ " .* " ++ m.render .matlab names).toList
      (termTree names v m) := by
  obtain ⟨texts, hne, htext, hfactors⟩ := exists_factor_texts hnames hexponents
  have hnumber : ReadsAs .product v.abs.shortText.toList (.number v.abs.normalize) := by
    rw [shortText_toList]
    exact (readsAs_magnitude (negative_normalize rfl)).loosen (by decide)
  have hterm := hnumber.mul_factors hfactors hne
  rw [htext, String.append_assoc, String.toList_append]
  exact hterm

theorem readsAs_constant (v : Decimal) : ReadsAs .sum v.shortText.toList (constantTree v) := by
  have hnumber : ReadsAs .unary v.abs.normalize.magnitudeChars (.number v.abs.normalize) :=
    (readsAs_magnitude (negative_normalize rfl)).loosen (by decide)
  rw [shortText_toList, constantTree]
  split
  · exact hnumber.neg.loosen (by decide)
  · exact hnumber.loosen (by decide)

theorem ReadsAs.signedTerm (hnames : ∀ name ∈ names, IsName name.toList)
    (hexponents : ∀ e ∈ m.exponents, e < Decimal.mantissaBound) {cs : List Char} {l : Expr}
    (h : ReadsAs .sum cs l) (value : Monomial → Decimal) :
    ReadsAs .sum (cs ++ (signedTerm .matlab (value m) (m.render .matlab names)).toList)
      (addTerm names value l m) := by
  have hterm := readsAs_term hnames hexponents (value m)
  have htext : MarkovFit.signedTerm .matlab (value m) (m.render .matlab names) =
      (if (value m).negative && !(value m).isZero then " - " else " + ") ++
        ((value m).abs.shortText ++ " .* " ++ m.render .matlab names) := by
    rw [MarkovFit.signedTerm, String.append_assoc, String.append_assoc, String.append_assoc]
    rfl
  rw [htext, String.toList_append, addTerm]
  split
  · exact h.sub hterm
  · exact h.add hterm

/-- Terms behind a sum, each with its sign. -/
theorem ReadsAs.signedTerms (hnames : ∀ name ∈ names, IsName name.toList) {ms : List Monomial}
    (hexponents : ∀ m ∈ ms, ∀ e ∈ m.exponents, e < Decimal.mantissaBound) {cs : List Char}
    {l : Expr} (h : ReadsAs .sum cs l) (value : Monomial → Decimal) :
    ReadsAs .sum (cs ++ (String.join (ms.map fun m =>
        MarkovFit.signedTerm .matlab (value m) (m.render .matlab names))).toList)
      (ms.foldl (addTerm names value) l) := by
  induction ms generalizing cs l with
  | nil => simpa using h
  | cons m ms ih =>
    have hnext := h.signedTerm hnames (hexponents m List.mem_cons_self) value
    have hall := ih (fun m hm => hexponents m (List.mem_cons_of_mem _ hm)) hnext
    simpa [String.toList_append, String.join_cons] using hall

end

/-! ### Values -/

/-- Powers to whole exponents are products. -/
def WholePowers (I : Interpretation ℚ) : Prop := ∀ a (e : ℕ), I.pow a e = some (a ^ e)

/-- The value of a monomial. -/
def monomialValue (x : String → ℚ) (names : List String) (m : Monomial) : ℚ :=
  ((names.zip m.exponents).map fun (name, e) => x name ^ e).prod

section

variable {I : Interpretation ℚ} {x : String → ℚ} {e : ℕ} {names : List String} {m : Monomial}

theorem fieldValue_magnitude (v : Decimal) :
    fieldValue I x (.number v.abs.normalize) = some v.abs.toRat := by
  rw [fieldValue, toRat_normalize]
  rfl

theorem fieldValue_powerTree (hI : WholePowers I) (h : e < Decimal.mantissaBound) (name : String) :
    fieldValue I x (powerTree name e) = some (x name ^ e) := by
  rw [powerTree]
  by_cases hone : e = 1
  · rw [if_pos hone, hone, pow_one, fieldValue]
  · rw [if_neg hone, fieldValue, fieldValue, fieldValue, (isNat_exponentNumber h).toRat]
    exact hI (x name) e

theorem fieldValue_mul_factors {factors : List Expr} {bs : List ℚ}
    (hfactors : List.Forall₂ (fun e b => fieldValue I x e = some b) factors bs) {l : Expr} {a : ℚ}
    (h : fieldValue I x l = some a) :
    fieldValue I x (factors.foldl (.binary .mul) l) = some (a * bs.prod) := by
  induction hfactors generalizing l a with
  | nil => rw [List.foldl_nil, h, List.prod_nil, mul_one]
  | @cons e b factors bs hfactor hrest ih =>
    have hnext : fieldValue I x (.binary .mul l e) = some (a * b) := by
      rw [fieldValue, h, hfactor]
      rfl
    rw [List.foldl_cons, ih hnext, List.prod_cons, mul_assoc]

/-- Variables of exponent zero do not matter. -/
theorem prod_variablesIn : ((variablesIn names m).map fun (name, e) => x name ^ e).prod =
    monomialValue x names m := by
  rw [variablesIn, monomialValue]
  induction names.zip m.exponents with
  | nil => rfl
  | cons pair pairs ih =>
    by_cases hzero : pair.2 = 0 <;> simp [hzero, ih]

theorem fieldValue_termTree (hI : WholePowers I)
    (hexponents : ∀ e ∈ m.exponents, e < Decimal.mantissaBound) (v : Decimal) :
    fieldValue I x (termTree names v m) = some (v.abs.toRat * monomialValue x names m) := by
  rw [termTree, factorTrees, ← prod_variablesIn]
  by_cases hempty : (variablesIn names m).isEmpty = true
  · have hone : fieldValue I x (.number .one) = some 1 := by
      rw [fieldValue, toRat_one]
      rfl
    rw [if_pos hempty, fieldValue_mul_factors (.cons hone .nil) (fieldValue_magnitude v),
      List.isEmpty_iff.1 hempty, List.prod_singleton, List.map_nil, List.prod_nil]
  · rw [if_neg hempty]
    refine fieldValue_mul_factors ?_ (fieldValue_magnitude v)
    rw [List.forall₂_map_left_iff, List.forall₂_map_right_iff, List.forall₂_same]
    rintro ⟨name, e⟩ hmem
    have he := (List.of_mem_zip (List.mem_of_mem_filter hmem)).2
    exact fieldValue_powerTree hI (hexponents e he) name

theorem fieldValue_constantTree (v : Decimal) :
    fieldValue I x (constantTree v) = some v.toRat := by
  rw [constantTree, toRat_eq_signed_abs]
  split
  · rw [fieldValue, fieldValue_magnitude]
    rfl
  · exact fieldValue_magnitude v

/-- The sign between the terms and the magnitude make up the coefficient. -/
theorem fieldValue_addTerm (hI : WholePowers I)
    (hexponents : ∀ e ∈ m.exponents, e < Decimal.mantissaBound) {l : Expr} {a : ℚ}
    (h : fieldValue I x l = some a) (value : Monomial → Decimal) :
    fieldValue I x (addTerm names value l m) =
      some (a + (value m).toRat * monomialValue x names m) := by
  rw [addTerm, fieldValue, h, fieldValue_termTree hI hexponents, toRat_eq_signed_abs (value m)]
  split
  · rw [neg_mul, ← sub_eq_add_neg]
    rfl
  · rfl

theorem fieldValue_add_terms (hI : WholePowers I) {ms : List Monomial}
    (hexponents : ∀ m ∈ ms, ∀ e ∈ m.exponents, e < Decimal.mantissaBound) {l : Expr} {a : ℚ}
    (h : fieldValue I x l = some a) (value : Monomial → Decimal) :
    fieldValue I x (ms.foldl (addTerm names value) l) =
      some (a + (ms.map fun m => (value m).toRat * monomialValue x names m).sum) := by
  induction ms generalizing l a with
  | nil => rw [List.foldl_nil, h, List.map_nil, List.sum_nil, add_zero]
  | cons m ms ih =>
    have hnext : fieldValue I x (addTerm names value l m) = _ :=
      fieldValue_addTerm hI (hexponents m List.mem_cons_self) h value
    have hall := ih (fun m hm => hexponents m (List.mem_cons_of_mem _ hm)) hnext
    rw [List.foldl_cons, hall, List.map_cons, List.sum_cons, add_assoc]

theorem monomialValue_one (n : ℕ) : monomialValue x names (Monomial.one n) = 1 := by
  have hone : ∀ pair ∈ names.zip (Monomial.one n).exponents, x pair.1 ^ pair.2 = 1 := by
    rintro ⟨name, e⟩ hmem
    rw [List.eq_of_mem_replicate (List.of_mem_zip hmem).2, pow_zero]
  exact List.prod_eq_one (List.forall_mem_map.2 hone)

end

section

variable {p : Polynomial} {I : Interpretation ℚ}

theorem exponents_lt (hdegree : p.maxDegree < Decimal.mantissaBound) {m : Monomial}
    (hm : m ∈ monomials p) : ∀ e ∈ m.exponents, e < Decimal.mantissaBound := by
  intro e he
  obtain ⟨d, hd, hmem⟩ := mem_monomials.1 hm
  have hsum := (of_mem_exponentLists hmem).2
  have hle := List.le_sum_of_mem he
  omega

theorem readsAs_sumTree (hnames : ∀ name ∈ p.registry.names, IsName name.toList)
    (hdegree : p.maxDegree < Decimal.mantissaBound) {rest : List Monomial}
    (hrest : monomials p = Monomial.one p.registry.size :: rest) (value : Monomial → Decimal) :
    ReadsAs .sum ((value (Monomial.one p.registry.size)).shortText ++ String.join (rest.map fun m =>
        signedTerm .matlab (value m) (m.render .matlab p.registry.names))).toList
      (sumTree p value) := by
  have hexponents : ∀ m ∈ rest, ∀ e ∈ m.exponents, e < Decimal.mantissaBound :=
    fun m hm => exponents_lt hdegree (hrest ▸ List.mem_cons_of_mem _ hm)
  rw [String.toList_append, sumTree, hrest, List.tail_cons]
  exact (readsAs_constant _).signedTerms hnames hexponents value

theorem fieldValue_sumTree (hI : WholePowers I) (hdegree : p.maxDegree < Decimal.mantissaBound)
    (x : String → ℚ) (value : Monomial → Decimal) : fieldValue I x (sumTree p value) =
      some ((monomials p).map fun m =>
        (value m).toRat * monomialValue x p.registry.names m).sum := by
  obtain ⟨rest, hrest⟩ := exists_monomials_eq_cons p
  have hexponents : ∀ m ∈ rest, ∀ e ∈ m.exponents, e < Decimal.mantissaBound :=
    fun m hm => exponents_lt hdegree (hrest ▸ List.mem_cons_of_mem _ hm)
  rw [sumTree, hrest, List.tail_cons,
    fieldValue_add_terms hI hexponents (fieldValue_constantTree _) value, List.map_cons,
    List.sum_cons, monomialValue_one, mul_one]

end

/-! ### Reading the coefficients off -/

section

variable {names : List String} {m : Monomial} {value value' : Monomial → Decimal} {l l' : Expr}

theorem foldl_mul_injective (factors : List Expr) :
    Function.Injective fun l : Expr => factors.foldl (.binary .mul) l := by
  induction factors with
  | nil => exact Function.injective_id
  | cons e factors ih => exact fun l l' h => (Expr.binary.inj (ih h)).2.1

theorem abs_toRat_eq_of_normalize_eq {v v' : Decimal}
    (h : Expr.number v.abs.normalize = .number v'.abs.normalize) : v.abs.toRat = v'.abs.toRat := by
  rw [← toRat_normalize v.abs, Expr.number.inj h, toRat_normalize]

/-- A term and its sign show the coefficient. -/
theorem addTerm_inj (h : addTerm names value l m = addTerm names value' l' m) :
    l = l' ∧ (value m).toRat = (value' m).toRat := by
  obtain ⟨hop, hsum, hterm⟩ := Expr.binary.inj h
  refine ⟨hsum, ?_⟩
  have habs := abs_toRat_eq_of_normalize_eq (foldl_mul_injective _ hterm)
  have hsign : ((value m).negative && !(value m).isZero) =
      ((value' m).negative && !(value' m).isZero) := by
    by_contra hne
    revert hop hne
    cases (value m).negative && !(value m).isZero <;>
      cases (value' m).negative && !(value' m).isZero <;> simp
  rw [toRat_eq_signed_abs, toRat_eq_signed_abs (value' m), hsign, habs]

theorem constantTree_inj {v v' : Decimal} (h : constantTree v = constantTree v') :
    v.toRat = v'.toRat := by
  have hvalue := congrArg (fieldValue (⟨fun _ _ => none, id⟩ : Interpretation ℚ) fun _ => 0) h
  rw [fieldValue_constantTree, fieldValue_constantTree] at hvalue
  exact Option.some_inj.1 hvalue

/-- The sum shows all coefficients. -/
theorem foldl_addTerm_inj {ms : List Monomial}
    (h : ms.foldl (addTerm names value) l = ms.foldl (addTerm names value') l') :
    l = l' ∧ ∀ m ∈ ms, (value m).toRat = (value' m).toRat := by
  -- The last term is on the outside of the tree.
  induction ms using List.reverseRecOn with
  | nil => exact ⟨h, nofun⟩
  | append_singleton ms m ih =>
    rw [List.foldl_concat, List.foldl_concat] at h
    obtain ⟨hsum, hlast⟩ := addTerm_inj h
    obtain ⟨hfirst, hall⟩ := ih hsum
    refine ⟨hfirst, fun m' hm' => ?_⟩
    obtain hm' | hm' := List.mem_append.1 hm'
    · exact hall m' hm'
    · rwa [List.mem_singleton.1 hm']

theorem sumTree_inj {p : Polynomial} (h : sumTree p value = sumTree p value') :
    ∀ m ∈ monomials p, (value m).toRat = (value' m).toRat := by
  obtain ⟨rest, hrest⟩ := exists_monomials_eq_cons p
  rw [sumTree, sumTree, hrest, List.tail_cons] at h
  obtain ⟨hconstant, hall⟩ := foldl_addTerm_inj h
  rw [hrest, List.forall_mem_cons]
  exact ⟨constantTree_inj hconstant, hall⟩

end

/-! ### The polynomial -/

section

variable {p : Polynomial} {values : Valuation} {text : String}

/-- What is written is the tree of the values under the names. -/
theorem matlabReads_of_render (hnames : ∀ name ∈ p.registry.names, isIdentifier name = true)
    (hdegree : p.maxDegree < Decimal.mantissaBound) (h : p.render .matlab values = .ok text) :
    MatlabReads text (polynomialTree p values) := by
  obtain ⟨rest, hrest⟩ := exists_monomials_eq_cons p
  obtain ⟨value, hvalue, htext⟩ := (render_polynomial hrest .matlab values text).1 h
  have hvalues : ∀ m ∈ monomials p, value m = coefficientOf p values m := by
    intro m hm
    rw [coefficientOf, Std.TreeMap.getD_eq_getD_getElem?, hvalue m hm, Option.getD_some]
  have htexts : text = (coefficientOf p values (Monomial.one p.registry.size)).shortText ++
      String.join (rest.map fun m =>
        signedTerm .matlab (coefficientOf p values m) (m.render .matlab p.registry.names)) := by
    rw [hrest, List.forall_mem_cons] at hvalues
    rw [htext, hvalues.1]
    congr 2
    exact List.map_congr_left fun m hm => by rw [hvalues.2 m hm]
  have hidents := fun name hname => isIdentifier_iff.1 (hnames name hname)
  rw [htexts]
  exact (readsAs_sumTree hidents hdegree hrest (coefficientOf p values)).matlabReads

/-- The monomials are the lists of exponents, one for each variable, up to the degree. -/
theorem mem_monomials_iff {m : Monomial} : m ∈ monomials p ↔
    m.exponents.length = p.registry.size ∧ m.degree ≤ p.maxDegree := by
  rw [mem_monomials]
  simp only [mem_exponentLists_iff]
  constructor
  · rintro ⟨d, hd, hlength, hsum⟩
    exact ⟨hlength, hsum.trans_le hd⟩
  · rintro ⟨hlength, hd⟩
    exact ⟨m.degree, hd, hlength, rfl⟩

/-- The Matlab text of a polynomial over names of variables has one tree, with one product for each
list of exponents up to the degree. Its value is the sum of the coefficients times the monomials,
and no other values of the coefficients are written like this. -/
theorem matlab_polynomial_denotes (hnames : ∀ name ∈ p.registry.names, isIdentifier name = true)
    (hdegree : p.maxDegree < Decimal.mantissaBound)
    (hvalues : ∀ name ∈ p.coefficients, name ∈ values) :
    (monomials p).Nodup ∧
      (∀ m, m ∈ monomials p ↔ m.exponents.length = p.registry.size ∧ m.degree ≤ p.maxDegree) ∧
      ∃ text, p.render .matlab values = .ok text ∧
        (∀ e, MatlabReads text e ↔ e = polynomialTree p values) ∧
        (∀ I, WholePowers I → ∀ x, fieldValue I x (polynomialTree p values) =
          some ((monomials p).map fun m =>
            valueOf values (nameOf p m) * monomialValue x p.registry.names m).sum) ∧
        ∀ values', p.render .matlab values' = .ok text →
          ∀ m ∈ monomials p, valueOf values' (nameOf p m) = valueOf values (nameOf p m) := by
  have hsome : ∀ name ∈ (Template.polynomial p).coefficients, ∃ v, values[name]? = some v :=
    fun name hname => mem_iff_exists_getElem?.1 (hvalues name hname)
  obtain ⟨text, htext⟩ := exists_render hsome .matlab
  have hreads := matlabReads_of_render hnames hdegree htext
  refine ⟨nodup_monomials p, fun m => mem_monomials_iff, text, htext, ?_, ?_, ?_⟩
  · exact fun e => ⟨fun h => matlabReads_unique h hreads, fun h => h ▸ hreads⟩
  · exact fun I hI x => fieldValue_sumTree hI hdegree x _
  · intro values' htext' m hm
    have hreads' := matlabReads_of_render hnames hdegree htext'
    exact sumTree_inj (matlabReads_unique hreads' hreads) m hm

end

/-- The quadratic polynomials in two variables. -/
def quadratics : Polynomial where
  registry := ⟨["p", "q_1"], by decide⟩
  maxDegree := 2

/-- A constant with a sign and a zero at its end, a zero, a zero with a sign, and coefficients with
either sign. -/
def quadraticValues : Valuation :=
  let parts := [(true, 150, 2), (false, 0, 2), (true, 0, 0), (false, 25, 1), (true, 3, 0),
    (false, 1, 0)]
  Std.TreeMap.ofList (quadratics.coefficients.zip (parts.filterMap
    fun (negative, mantissa, scale) => Decimal.ofParts? negative mantissa scale))

/-- Zeros are written too, without a sign. The text has one tree, and its value is the quadratic
polynomial with these coefficients. -/
theorem quadratic_is_read :
    let text := "-1.5 + 0 .* p + 0 .* q_1 + 2.5 .* (p .^ 2) - 3 .* p .* q_1 + 1 .* (q_1 .^ 2)"
    let tree := polynomialTree quadratics quadraticValues
    quadratics.render .matlab quadraticValues = .ok text ∧ (∀ e, MatlabReads text e ↔ e = tree) ∧
      ∀ x : String → ℚ, fieldValue ⟨fun a b => some (a ^ b.num.toNat), id⟩ x tree =
        some (-3 / 2 + 5 / 2 * x "p" ^ 2 - 3 * x "p" * x "q_1" + x "q_1" ^ 2) := by
  intro text tree
  have hI : WholePowers ⟨fun a b => some (a ^ b.num.toNat), id⟩ := fun a e => by simp
  let terms := [((-3 / 2 : ℚ), [0, 0]), (0, [1, 0]), (0, [0, 1]), (5 / 2, [2, 0]), (-3, [1, 1]),
    (1, [0, 2])]
  have hterms : (monomials quadratics).map (fun m =>
      (valueOf quadraticValues (nameOf quadratics m), m.exponents)) = terms := by
    decide +kernel
  have htext : quadratics.render .matlab quadraticValues = .ok text :=
    toOption_eq_some.1 (by decide +kernel)
  have hnames : ∀ name ∈ quadratics.registry.names, isIdentifier name = true := by decide
  have hvalues : ∀ name ∈ quadratics.coefficients, name ∈ quadraticValues := by decide +kernel
  obtain ⟨-, -, text', htext', hreads, hvalue, -⟩ :=
    matlab_polynomial_denotes hnames (by decide) hvalues
  rw [htext, Except.ok.injEq] at htext'
  subst htext'
  refine ⟨htext, hreads, fun x => ?_⟩
  have hsum : (monomials quadratics).map (fun m => valueOf quadraticValues (nameOf quadratics m) *
      monomialValue x quadratics.registry.names m) =
      terms.map fun (a, es) => a * monomialValue x quadratics.registry.names ⟨es⟩ := by
    rw [← hterms, List.map_map]
    rfl
  rw [hvalue _ hI, hsum, Option.some_inj]
  simp only [terms, monomialValue, quadratics, List.zip_cons_cons, List.zip_nil_right,
    List.map_cons, List.map_nil, List.prod_cons, List.prod_nil, List.sum_cons, List.sum_nil]
  ring

end MarkovFit.Proofs
