import MarkovFit.Proofs.DecimalText
import MarkovFit.Proofs.TemplateTerms
import MarkovFit.Template.Render
import Std.Data.String.ToNat

/-!
# Names of coefficients

The name of a coefficient spells the exponents of its monomial between the names of the variables.
Whatever these names are, digits and underscores included, the exponents can be read off again, since
an exponent ends where its digits do. So each name stands for one monomial, in the list of names, in
the values of the terms at a sample and in the text of a fitted function.
-/

namespace MarkovFit.Proofs

/-! ## Reading a name -/

/-- The exponents between the names of the variables. -/
def exponentChars (names : List String) (exponents : List Nat) : List Char :=
  (names.zip exponents).flatMap fun (name, e) => '_' :: name.toList ++ '_' :: (toString e).toList

lemma exponentChars_cons (name : String) (names : List String) (e : Nat) (es : List Nat) :
    exponentChars (name :: names) (e :: es) =
      '_' :: name.toList ++ '_' :: ((toString e).toList ++ exponentChars names es) := by
  simp [exponentChars]

lemma toList_coefficientName (names : List String) (m : Monomial) :
    (m.coefficientName names).toList = "coeff".toList ++ exponentChars names m.exponents := by
  unfold Monomial.coefficientName exponentChars
  rw [String.toList_append, String.toList_join, List.flatMap_map]
  congr 2
  funext ⟨name, e⟩
  simp only [String.toList_append]
  simp

/-- What comes after an exponent is no digit. -/
lemma takeWhile_isDigit_exponentChars (names : List String) (es : List Nat) :
    (exponentChars names es).takeWhile Text.isDigit = [] := by
  cases names with
  | nil => rfl
  | cons name names =>
    cases es with
    | nil => rfl
    | cons e es =>
      rw [exponentChars_cons]
      rfl

lemma takeWhile_isDigit_toString_append (e : Nat) (names : List String) (es : List Nat) :
    ((toString e).toList ++ exponentChars names es).takeWhile Text.isDigit = (toString e).toList := by
  rw [List.takeWhile_append_of_pos fun c hc => isDigit_of_mem_toString hc,
    takeWhile_isDigit_exponentChars, List.append_nil]

/-- The exponents can be read off, one for each variable. -/
theorem exponentChars_injective {names : List String} {es es' : List Nat}
    (hes : es.length = names.length) (hes' : es'.length = names.length)
    (h : exponentChars names es = exponentChars names es') : es = es' := by
  induction names generalizing es es' with
  | nil => rw [List.length_eq_zero_iff.1 hes, List.length_eq_zero_iff.1 hes']
  | cons name names ih =>
    obtain ⟨e, es, rfl⟩ := List.exists_cons_of_length_eq_add_one hes
    obtain ⟨e', es', rfl⟩ := List.exists_cons_of_length_eq_add_one hes'
    rw [exponentChars_cons, exponentChars_cons] at h
    have hrest := (List.cons.inj (List.append_cancel_left h)).2
    have hdigits := congrArg (List.takeWhile Text.isDigit) hrest
    rw [takeWhile_isDigit_toString_append, takeWhile_isDigit_toString_append] at hdigits
    rw [hdigits] at hrest
    rw [Nat.repr_inj.1 (String.toList_inj.1 hdigits),
      ih (Nat.succ.inj hes) (Nat.succ.inj hes') (List.append_cancel_left hrest)]

/-! ## The basis -/

lemma of_mem_exponentLists {n d : Nat} {es : List Nat} (h : es ∈ Monomial.exponentLists n d) :
    es.length = n ∧ es.sum = d := by
  induction n generalizing d es with
  | zero =>
    cases d with
    | zero =>
      obtain rfl := List.mem_singleton.1 h
      exact ⟨rfl, rfl⟩
    | succ d => exact absurd h List.not_mem_nil
  | succ n ih =>
    obtain ⟨e, he, hmem⟩ := List.mem_flatMap.1 h
    obtain ⟨rest, hrest, rfl⟩ := List.mem_map.1 hmem
    obtain ⟨hlength, hsum⟩ := ih hrest
    rw [List.mem_reverse, List.mem_range] at he
    exact ⟨congrArg (· + 1) hlength, by rw [List.sum_cons, hsum]; omega⟩

theorem nodup_exponentLists (n d : Nat) : (Monomial.exponentLists n d).Nodup := by
  induction n generalizing d with
  | zero => cases d <;> simp [Monomial.exponentLists]
  | succ n ih =>
    refine List.nodup_flatMap.2 ⟨fun e _ => (ih _).map fun _ _ h => (List.cons.inj h).2, ?_⟩
    refine (List.nodup_reverse.2 List.nodup_range).imp ?_
    -- Lists with different first exponents are different.
    intro e e' hne es hes hes'
    obtain ⟨rest, -, rfl⟩ := List.mem_map.1 hes
    obtain ⟨rest', -, heq⟩ := List.mem_map.1 hes'
    exact hne (List.cons.inj heq).1.symm

/-- The monomials of a polynomial, by degree. -/
def monomials (p : Polynomial) : List Monomial :=
  (Monomial.basis p.registry.size p.maxDegree).flatten

lemma mem_monomials {p : Polynomial} {m : Monomial} : m ∈ monomials p ↔
    ∃ d ≤ p.maxDegree, m.exponents ∈ Monomial.exponentLists p.registry.size d := by
  unfold monomials Monomial.basis
  rw [← List.flatMap_def, List.mem_flatMap]
  simp only [List.mem_range, Nat.lt_succ_iff, List.mem_map]
  constructor
  · rintro ⟨d, hd, es, hes, rfl⟩
    exact ⟨d, hd, hes⟩
  · rintro ⟨d, hd, hes⟩
    exact ⟨d, hd, m.exponents, hes, rfl⟩

theorem nodup_monomials (p : Polynomial) : (monomials p).Nodup := by
  unfold monomials Monomial.basis
  rw [← List.flatMap_def]
  refine List.nodup_flatMap.2 ⟨fun d _ => ?_, ?_⟩
  · exact (nodup_exponentLists _ d).map fun _ _ h => congrArg Monomial.exponents h
  · refine List.nodup_range.imp ?_
    -- Monomials of different degrees are different.
    intro d d' hne m hm hm'
    obtain ⟨es, hes, rfl⟩ := List.mem_map.1 hm
    obtain ⟨es', hes', heq⟩ := List.mem_map.1 hm'
    obtain rfl := congrArg Monomial.exponents heq
    exact hne ((of_mem_exponentLists hes).2.symm.trans (of_mem_exponentLists hes').2)

lemma exponentLists_zero (n : Nat) : Monomial.exponentLists n 0 = [List.replicate n 0] := by
  induction n with
  | zero => rfl
  | succ n ih => simp [Monomial.exponentLists, ih, List.replicate_succ]

/-- The first monomial is `1`. -/
theorem exists_monomials_eq_cons (p : Polynomial) :
    ∃ rest, monomials p = Monomial.one p.registry.size :: rest := by
  unfold monomials Monomial.basis
  rw [List.range_succ_eq_map, List.map_cons, exponentLists_zero]
  exact ⟨_, rfl⟩

/-- The name of the coefficient of a monomial. -/
def nameOf (p : Polynomial) (m : Monomial) : String := m.coefficientName p.registry.names

theorem nameOf_injOn (p : Polynomial) : Set.InjOn (nameOf p) {m | m ∈ monomials p} := by
  intro m hm m' hm' h
  obtain ⟨d, -, hes⟩ := mem_monomials.1 hm
  obtain ⟨d', -, hes'⟩ := mem_monomials.1 hm'
  have hchars := congrArg String.toList h
  unfold nameOf at hchars
  rw [toList_coefficientName, toList_coefficientName] at hchars
  have hexponents := exponentChars_injective (of_mem_exponentLists hes).1 (of_mem_exponentLists hes').1
    (List.append_cancel_left hchars)
  cases m
  cases m'
  exact congrArg Monomial.mk hexponents

lemma terms_eq_map (p : Polynomial) : p.terms = (monomials p).map fun m => (nameOf p m, m) :=
  p.terms_eq

lemma coefficients_eq_map (p : Polynomial) : p.coefficients = (monomials p).map (nameOf p) := by
  rw [Polynomial.coefficients, terms_eq_map, List.map_map]
  rfl

/-! ## Templates -/

/-- The coefficients of a template have different names. -/
theorem nodup_coefficients (t : Template) : t.coefficients.Nodup := by
  cases t with
  | polynomial p =>
    change p.coefficients.Nodup
    rw [coefficients_eq_map]
    exact (nodup_monomials p).map_on fun m hm m' hm' h => nameOf_injOn p hm hm' h
  | terms t =>
    refine List.nodup_range.map fun i j h => ?_
    have hchars := congrArg String.toList h
    unfold TermList.coefficientName at hchars
    rw [String.toList_append, String.toList_append] at hchars
    exact Nat.repr_inj.1 (String.toList_inj.1 (List.append_cancel_left hchars))

/-- The bound on deviations has a name of its own. -/
theorem lambdaName_notMem_coefficients (t : Template) : lambdaName ∉ t.coefficients := by
  intro hmem
  cases t with
  | polynomial p =>
    change lambdaName ∈ p.coefficients at hmem
    rw [coefficients_eq_map] at hmem
    obtain ⟨m, -, hname⟩ := List.mem_map.1 hmem
    have hchars := congrArg String.toList hname
    unfold nameOf at hchars
    rw [toList_coefficientName] at hchars
    exact absurd (List.cons.inj hchars).1 (by decide)
  | terms t =>
    obtain ⟨i, -, hname⟩ := List.mem_map.1 hmem
    have hchars := congrArg String.toList hname
    unfold TermList.coefficientName at hchars
    rw [String.toList_append] at hchars
    exact absurd (List.cons.inj hchars).1 (by decide)

lemma coefficient_eq_ok {values : Valuation} {name : String} {v : Decimal} :
    values.coefficient name = .ok v ↔ values[name]? = some v := by
  unfold Valuation.coefficient
  cases values[name]? <;> simp

/-- A computation on the value of a coefficient and its term succeeds for all terms of a polynomial
exactly if every name has a value. -/
theorem mapM_coefficients_eq_ok {p : Polynomial} {values : Valuation} {g : Monomial → String}
    {texts : List (Decimal × String)} :
    (p.terms.mapM fun (name, m) => do return (← values.coefficient name, g m)) = .ok texts ↔
      ∃ value : Monomial → Decimal, (∀ m ∈ monomials p, values[nameOf p m]? = some (value m)) ∧
        texts = (monomials p).map fun m => (value m, g m) := by
  have hterm : ∀ (m : Monomial) (text : Decimal × String),
      (do return (← values.coefficient (nameOf p m), g m) : Except Failure _) = .ok text ↔
        values[nameOf p m]? = some text.1 ∧ text.2 = g m := by
    intro m text
    rw [bind_eq_ok]
    constructor
    · rintro ⟨v, hv, htext⟩
      cases htext
      exact ⟨coefficient_eq_ok.1 hv, rfl⟩
    · rintro ⟨hv, hg⟩
      exact ⟨text.1, coefficient_eq_ok.2 hv, congrArg (fun s => Except.ok (text.1, s)) hg.symm⟩
  rw [mapM_eq_ok, terms_eq_map, List.forall₂_map_left_iff]
  simp only [hterm]
  constructor
  · intro h
    have hvalue : ∀ m ∈ monomials p,
        values[nameOf p m]? = some (values[nameOf p m]?.getD Decimal.zero) := by
      intro m hm
      obtain ⟨text, -, hv, -⟩ := exists_mem_of_forall₂ h hm
      rw [hv, Option.getD_some]
    refine ⟨_, hvalue, ?_⟩
    rw [← List.forall₂_eq_eq_eq, List.forall₂_map_right_iff]
    refine h.flip.imp fun text m htext => ?_
    rw [htext.1, Option.getD_some, ← htext.2]
  · rintro ⟨value, hvalue, rfl⟩
    rw [List.forall₂_map_right_iff, List.forall₂_same]
    exact fun m hm => ⟨hvalue m hm, rfl⟩

/-- The text of a polynomial has, for each monomial in order, the value under the name of its
coefficient next to the monomial; it fails only where a value is missing. -/
theorem render_polynomial {p : Polynomial} {rest : List Monomial}
    (hrest : monomials p = Monomial.one p.registry.size :: rest) (style : Style) (values : Valuation)
    (text : String) : p.render style values = .ok text ↔
      ∃ value : Monomial → Decimal, (∀ m ∈ monomials p, values[nameOf p m]? = some (value m)) ∧
        text = (value (Monomial.one p.registry.size)).shortText ++ String.join (rest.map fun m =>
          signedTerm style (value m) (m.render style p.registry.names)) := by
  unfold Polynomial.render
  rw [bind_eq_ok]
  simp only [mapM_coefficients_eq_ok]
  constructor
  · rintro ⟨texts, ⟨value, hvalue, rfl⟩, htext⟩
    rw [hrest, List.map_cons] at htext
    cases htext
    refine ⟨value, hvalue, ?_⟩
    rw [List.map_map]
    rfl
  · rintro ⟨value, hvalue, rfl⟩
    refine ⟨_, ⟨value, hvalue, rfl⟩, ?_⟩
    rw [hrest, List.map_cons]
    dsimp only
    rw [List.map_map]
    rfl

end MarkovFit.Proofs
