import MarkovFit.Oracle.Synthetic
import MarkovFit.Proofs.ExpressionGrammar
import MarkovFit.Proofs.FailureKinds
import MarkovFit.Proofs.Maps

/-!
# Names in templates and oracles

The terms of a template and the expression of a synthetic oracle are accepted only if every name in
them, at any depth, is a variable or a numeric constant. After that no sample that assigns the variables
meets a name without a value.
-/

namespace MarkovFit.Proofs

open Oracle (Synthetic Session)

variable {α : Type}

/-- No failure of the computation is a name without a value. -/
abbrev KnowsNames (x : Except Failure α) : Prop :=
  FailsOnly (fun f => ∀ name, f ≠ .undefinedIdentifier name) x

/-- An expression whose names all have values fails for other reasons only. -/
theorem knowsNames_evaluate {lookup : String → Option Decimal} {e : Expr}
    (h : ∀ name ∈ e.identifiers, ∃ v, lookup name = some v) : KnowsNames (e.evaluate lookup) := by
  intro f hf name
  obtain ⟨d, hd, hcause⟩ := exists_stopCause hf
  cases hcause with
  | @name n hnone =>
    obtain ⟨v, hv⟩ := h n (mem_identifiers_iff.2 hd.isPart)
    rw [hnone] at hv
    cases hv
  | negativeRoot | unsettledRoot => nofun
  | operation _ _ happly =>
    obtain ⟨cause, rfl⟩ := apply_eq_error happly
    nofun

/-! ### Constants -/

/-- The constant is a number of this name. -/
def IsNumber (name : String) (c : Constant) : Prop :=
  c.name = name ∧ ∃ v, Decimal.read c.value = .ok v

/-- The name is neither one of these nor a numeric constant. -/
def Unresolved (known : List String) (constants : List Constant) (name : String) : Prop :=
  name ∉ known ∧ ∀ c ∈ constants, ¬IsNumber name c

/-- A fold collects the names that its steps add. -/
theorem mem_foldl_iff {f : Valuation → α → Valuation} {P : α → Prop} {name : String}
    (hf : ∀ values x, name ∈ f values x ↔ name ∈ values ∨ P x) (xs : List α) (values : Valuation) :
    name ∈ xs.foldl f values ↔ name ∈ values ∨ ∃ x ∈ xs, P x := by
  induction xs generalizing values with
  | nil => simp
  | cons x xs ih => rw [List.foldl_cons, ih, hf, List.exists_mem_cons_iff, or_assoc]

theorem mem_numericConstants_iff {constants : List Constant} {name : String} :
    name ∈ TermList.numericConstants constants ↔ ∃ c ∈ constants, IsNumber name c := by
  rw [TermList.numericConstants, mem_foldl_iff (P := IsNumber name)]
  · simp
  · intro values c
    rw [IsNumber]
    cases Decimal.read c.value with
    | error text => simp
    | ok value => simp [or_comm]

theorem unresolved_iff {known : List String} {constants : List Constant} {name : String} :
    Unresolved known constants name ↔
      (!known.contains name && !(TermList.numericConstants constants).contains name) = true := by
  rw [Bool.and_eq_true, Bool.not_eq_true', Bool.not_eq_true', ← Bool.not_eq_true, ← Bool.not_eq_true,
    List.contains_iff_mem, ← Std.TreeMap.mem_iff_contains, mem_numericConstants_iff, Unresolved]
  simp

/-- The first name that is not resolved. -/
def firstUnresolved? (known : List String) (constants : List Constant) (names : List String) :
    Option String :=
  names.find? fun name =>
    !known.contains name && !(TermList.numericConstants constants).contains name

variable {source : String} {known : List String} {constants : List Constant}

theorem of_firstUnresolved? {names : List String} {name : String}
    (h : firstUnresolved? known constants names = some name) :
    name ∈ names ∧ Unresolved known constants name := by
  rw [firstUnresolved?] at h
  have hp := List.find?_some h
  exact ⟨List.mem_of_find?_eq_some h, unresolved_iff.2 hp⟩

theorem firstUnresolved?_eq_none_iff {names : List String} :
    firstUnresolved? known constants names = none ↔
      ∀ name ∈ names, ¬Unresolved known constants name := by
  rw [firstUnresolved?, List.find?_eq_none]
  exact forall₂_congr fun name _ => not_congr unresolved_iff.symm

theorem not_unresolved_iff {name : String} :
    ¬Unresolved known constants name ↔
      name ∈ known ∨ name ∈ TermList.numericConstants constants := by
  rw [Unresolved, mem_numericConstants_iff, not_and_or, not_not]
  push Not
  rfl

/-! ### Templates -/

section templates

variable {registry : Registry} {terms : List Expr}

theorem make_terms_eq (hterms : Expr.parseTerms source = .ok terms) :
    TermList.make source registry constants =
      match firstUnresolved? registry.names constants (terms.flatMap Expr.identifiers) with
      | some name => .error (.undefinedIdentifier name)
      | none => .ok ⟨registry, TermList.numericConstants constants, terms⟩ := by
  rw [TermList.make, hterms]
  rfl

theorem exists_mem_identifiers_iff {P : String → Prop} :
    (∃ name ∈ terms.flatMap Expr.identifiers, P name) ↔
      ∃ e ∈ terms, ∃ name, IsPart (.ident name) e ∧ P name := by
  simp only [List.mem_flatMap, mem_identifiers_iff]
  tauto

/-- The terms are refused exactly if a name in them is not resolved. -/
theorem make_terms_eq_error_iff (hterms : Expr.parseTerms source = .ok terms) :
    (∃ name, TermList.make source registry constants = .error (.undefinedIdentifier name)) ↔
      ∃ e ∈ terms, ∃ name, IsPart (.ident name) e ∧ Unresolved registry.names constants name := by
  rw [make_terms_eq hterms, ← exists_mem_identifiers_iff]
  cases hfind : firstUnresolved? registry.names constants (terms.flatMap Expr.identifiers) with
  | none =>
    refine iff_of_false nofun ?_
    rintro ⟨name, hmem, hname⟩
    exact firstUnresolved?_eq_none_iff.1 hfind name hmem hname
  | some name => exact iff_of_true ⟨name, rfl⟩ ⟨name, of_firstUnresolved? hfind⟩

/-- A template that was made knows each name in its terms. -/
theorem of_make_terms {t : TermList} (h : TermList.make source registry constants = .ok t) :
    t.registry = registry ∧ ∀ e ∈ t.terms, ∀ name ∈ e.identifiers,
      name ∈ registry.names ∨ name ∈ t.constants := by
  obtain ⟨terms, hterms, -⟩ := bind_eq_ok.1 h
  rw [make_terms_eq hterms] at h
  split at h
  · cases h
  · rename_i hfind
    cases h
    refine ⟨rfl, fun e he name hname => ?_⟩
    exact not_unresolved_iff.1
      (firstUnresolved?_eq_none_iff.1 hfind name (List.mem_flatMap.2 ⟨e, he, hname⟩))

theorem knowsNames_evaluate_terms {t : TermList} {x : Sample}
    (h : TermList.make source registry constants = .ok t)
    (hx : ∀ name ∈ registry.names, ∃ v, x.get? name = some v) : KnowsNames (t.evaluate x) := by
  obtain ⟨rfl, hresolved⟩ := of_make_terms h
  have hlookup : ∀ e ∈ t.terms, ∀ name ∈ e.identifiers, ∃ v, t.lookup x name = some v := by
    intro e he name hname
    rw [TermList.lookup, Registry.contains]
    split
    · rename_i hregistered
      exact hx name (List.contains_iff_mem.1 hregistered)
    · rename_i hregistered
      rw [List.contains_iff_mem] at hregistered
      exact mem_iff_exists_getElem?.1 ((hresolved e he name hname).resolve_left hregistered)
  refine (failsOnly_mapM ?_).bind fun pairs _ => failsOnly_ok _
  rintro ⟨name, e⟩ hmem
  exact (knowsNames_evaluate (hlookup e (List.of_mem_zip hmem).2)).bind fun v _ => failsOnly_ok _

end templates

/-! ### Synthetic oracles -/

section oracles

variable {parameters : List String} {o : Synthetic} {sample : List Constant}

theorem make_oracle_eq {e : Expr} (he : Expr.parse source = .ok e) :
    Synthetic.make source parameters constants =
      match firstUnresolved? parameters constants e.identifiers with
      | some name => .error (.undefinedIdentifier name)
      | none => .ok ⟨e, TermList.numericConstants constants⟩ := by
  rw [Synthetic.make, he]
  rfl

/-- The expression is refused exactly if a name in it is not resolved. -/
theorem make_oracle_eq_error_iff {e : Expr} (he : Expr.parse source = .ok e) :
    (∃ name, Synthetic.make source parameters constants = .error (.undefinedIdentifier name)) ↔
      ∃ name, IsPart (.ident name) e ∧ Unresolved parameters constants name := by
  simp only [make_oracle_eq he, ← mem_identifiers_iff]
  cases hfind : firstUnresolved? parameters constants e.identifiers with
  | none =>
    refine iff_of_false nofun ?_
    rintro ⟨name, hmem, hname⟩
    exact firstUnresolved?_eq_none_iff.1 hfind name hmem hname
  | some name => exact iff_of_true ⟨name, rfl⟩ ⟨name, of_firstUnresolved? hfind⟩

/-- An oracle that was made knows each name in its expression. -/
theorem of_make_oracle (h : Synthetic.make source parameters constants = .ok o) :
    ∀ name ∈ o.expression.identifiers, name ∈ parameters ∨ name ∈ o.constants := by
  obtain ⟨e, he, -⟩ := bind_eq_ok.1 h
  rw [make_oracle_eq he] at h
  split at h
  · cases h
  · rename_i hfind
    cases h
    intro name hname
    exact not_unresolved_iff.1 (firstUnresolved?_eq_none_iff.1 hfind name hname)

theorem knowsNames_assign (values : Valuation) (sample : List Constant) :
    KnowsNames (Synthetic.assign values sample) := by
  induction sample generalizing values with
  | nil => exact failsOnly_ok values
  | cons c sample ih =>
    have hread : KnowsNames (readDecimal c.value) := by
      rw [readDecimal]
      cases Decimal.read c.value with
      | error text => exact failsOnly_error nofun
      | ok value => exact failsOnly_ok value
    exact hread.bind fun value _ => ih _

theorem mem_of_assign {values assigned : Valuation} (h : Synthetic.assign values sample = .ok assigned)
    {name : String} (hname : name ∈ values ∨ ∃ c ∈ sample, c.name = name) : name ∈ assigned := by
  induction sample generalizing values with
  | nil =>
    cases h
    simpa using hname
  | cons c sample ih =>
    obtain ⟨value, -, h⟩ := bind_eq_ok.1 h
    refine ih h ?_
    rw [Std.TreeMap.mem_insert, Std.LawfulEqCmp.compare_eq_iff_eq]
    rw [List.exists_mem_cons_iff] at hname
    tauto

/-- The sample has a value for each parameter. -/
def Assigns (sample : List Constant) (parameters : List String) : Prop :=
  ∀ name ∈ parameters, ∃ c ∈ sample, c.name = name

theorem knowsNames_evaluate_oracle (h : Synthetic.make source parameters constants = .ok o)
    (hsample : Assigns sample parameters) : KnowsNames (o.evaluate sample) := by
  refine (knowsNames_assign _ _).bind fun assigned hassigned => ?_
  refine FailsOnly.bind (knowsNames_evaluate fun name hname => ?_) fun v _ => failsOnly_ok _
  have hknown := (of_make_oracle h name hname).symm.imp_right (hsample name)
  exact mem_iff_exists_getElem?.1 (mem_of_assign hassigned hknown)

end oracles

/-- Names are resolved when a template or a synthetic oracle is made. After that no sample that has a
value for each variable meets a name without one; terms that can be read are refused for a name
exactly if one in them, at any depth, is neither a variable nor a numeric constant; and an expression
depends on nothing but what its names stand for. -/
theorem names_resolved_at_construction (source : String) (constants : List Constant) :
    (∀ registry : Registry,
      (∀ t, TermList.make source registry constants = .ok t → ∀ x : Sample,
        (∀ name ∈ registry.names, ∃ v, x.get? name = some v) →
          ∀ name, t.evaluate x ≠ .error (.undefinedIdentifier name)) ∧
      ∀ terms, Expr.parseTerms source = .ok terms →
        ((∃ name, TermList.make source registry constants = .error (.undefinedIdentifier name)) ↔
          ∃ e ∈ terms, ∃ name, IsPart (.ident name) e ∧
            Unresolved registry.names constants name)) ∧
    (∀ parameters : List String,
      (∀ o, Synthetic.make source parameters constants = .ok o →
        (∀ requests : Requests, (∀ x ∈ requests.toList, Assigns x.2 parameters) →
          ∀ name, o.answers requests ≠ .error (.undefinedIdentifier name)) ∧
        ∀ sample session, Assigns sample parameters →
          ∀ name, (o.check sample session).1 ≠ .error (.undefinedIdentifier name)) ∧
      ∀ e, Expr.parse source = .ok e →
        ((∃ name, Synthetic.make source parameters constants = .error (.undefinedIdentifier name)) ↔
          ∃ name, IsPart (.ident name) e ∧ Unresolved parameters constants name)) ∧
    ∀ (e : Expr) (lookup lookup' : String → Option Decimal),
      (∀ name ∈ e.identifiers, lookup name = lookup' name) → e.evaluate lookup = e.evaluate lookup' := by
  refine ⟨fun registry => ⟨?_, fun terms => make_terms_eq_error_iff⟩,
    fun parameters => ⟨fun o h => ⟨?_, ?_⟩, fun e => make_oracle_eq_error_iff⟩, ?_⟩
  · intro t h x hx name hname
    exact knowsNames_evaluate_terms h hx _ hname name rfl
  · intro requests hrequests name hname
    have hanswers : KnowsNames (o.answers requests) := by
      refine (failsOnly_mapM ?_).bind fun pairs _ => failsOnly_ok _
      rintro ⟨id, sample⟩ hmem
      exact (knowsNames_evaluate_oracle h (hrequests _ hmem)).bind fun v _ => failsOnly_ok _
    exact hanswers _ hname name rfl
  · intro sample session hsample name hname
    have hcheck : KnowsNames (o.check sample session).1 := by
      rw [Synthetic.check]
      split
      · exact failsOnly_error nofun
      · exact knowsNames_evaluate_oracle h hsample
    exact hcheck _ hname name rfl
  · intro e lookup lookup' h
    exact evaluate_eq_of_lookup_eq fun name hname => h name (mem_identifiers_iff.2 hname)

def oneParameter : Registry := ⟨["p"], List.nodup_singleton "p"⟩

def rateOf (text : String) : List Constant := [⟨"rate", text⟩, ⟨"p", "unused"⟩]

/-- A constant under a sign in an exponent, once a number and once not. -/
theorem nestedRate_resolved :
    (∃ t, TermList.make "p ^ -rate" oneParameter (rateOf "0.5") = .ok t ∧
      ∀ name, t.evaluate ⟨[("p", Decimal.two)]⟩ ≠ .error (.undefinedIdentifier name)) ∧
    (∃ o, Synthetic.make "p ^ -rate" ["p"] (rateOf "0.5") = .ok o ∧
      ∀ name, (o.check [⟨"p", "2"⟩] { stage := .started }).1 ≠
        .error (.undefinedIdentifier name)) ∧
    (∃ name, TermList.make "p ^ -rate" oneParameter (rateOf "high") =
      .error (.undefinedIdentifier name)) ∧
    ∃ name, Synthetic.make "p ^ -rate" ["p"] (rateOf "high") =
      .error (.undefinedIdentifier name) := by
  have hscan : Expr.scan "p ^ -rate" = .ok [.ident "p", .caret, .minus, .ident "rate"] :=
    toOption_eq_some.1 (by decide +kernel)
  let e : Expr := .binary .pow (.ident "p") (.neg (.ident "rate"))
  have hparse : Expr.parse "p ^ -rate" = .ok e :=
    parse_eq_ok_iff.2 ⟨_, hscan, ofTokens_eq_ok_iff.1 (by cbv)⟩
  have hterms : Expr.parseTerms "p ^ -rate" = .ok [e] := by
    rw [Expr.parseTerms, hscan]
    cbv
  have hrate : IsPart (.ident "rate") e := .operand (.tail _ (.head _)) (.operand (.head _) .whole)
  have hunresolved : Unresolved ["p"] (rateOf "high") "rate" := unresolved_iff.2 (by decide +kernel)
  have hmake : firstUnresolved? ["p"] (rateOf "0.5") e.identifiers = none := by decide +kernel
  have htemplate : TermList.make "p ^ -rate" oneParameter (rateOf "0.5") =
      .ok ⟨oneParameter, TermList.numericConstants (rateOf "0.5"), [e]⟩ := by
    rw [make_terms_eq hterms, List.flatMap_singleton, show oneParameter.names = ["p"] from rfl, hmake]
  have horacle : Synthetic.make "p ^ -rate" ["p"] (rateOf "0.5") =
      .ok ⟨e, TermList.numericConstants (rateOf "0.5")⟩ := by
    rw [make_oracle_eq hparse, hmake]
  have hassigned : ∀ name ∈ oneParameter.names,
      ∃ v, (Sample.mk [("p", Decimal.two)]).get? name = some v := by
    intro name hname
    obtain rfl : name = "p" := List.mem_singleton.1 hname
    exact ⟨_, rfl⟩
  obtain ⟨hmade, hmade', -⟩ := names_resolved_at_construction "p ^ -rate" (rateOf "0.5")
  obtain ⟨hrefused, hrefused', -⟩ := names_resolved_at_construction "p ^ -rate" (rateOf "high")
  exact ⟨⟨_, htemplate, (hmade oneParameter).1 _ htemplate _ hassigned⟩,
    ⟨_, horacle, ((hmade' ["p"]).1 _ horacle).2 _ _ (by unfold Assigns; decide)⟩,
    ((hrefused oneParameter).2 _ hterms).2 ⟨e, .head _, _, hrate, hunresolved⟩,
    ((hrefused' ["p"]).2 _ hparse).2 ⟨_, hrate, hunresolved⟩⟩

end MarkovFit.Proofs
