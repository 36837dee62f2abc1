import MarkovFit.Template.Render
import MarkovFit.Proofs.PrintedExpression

/-!
# The printed fit

What is written for a function of a term list means the combination of its terms.
-/

namespace MarkovFit.Proofs

open MarkovFit.Expr

/-- The sum of terms, each times its coefficient. -/
def weightedSum : List (Decimal × Expr) → Meaning
  | [] => .constant 0
  | (v, e) :: rest =>
    ((Meaning.constant v.toRat).combine .mul (meaning e)).combine .add (weightedSum rest)

/-! ### Phrases that mean something -/

/-- The characters are read as a phrase of this meaning. -/
def Means (phrase : Phrase) (cs : List Char) (m : Meaning) : Prop :=
  ∃ ts e, Spells cs ts ∧ Derives phrase ts e ∧ meaning e = m

theorem means_iff {phrase : Phrase} {cs : List Char} {m : Meaning} :
    Means phrase cs m ↔ ∃ e, Reads phrase cs e ∧ meaning e = m := by
  constructor
  · rintro ⟨ts, e, hspells, hderives, hmeaning⟩
    exact ⟨e, ⟨ts, e, hspells, hderives, .refl e⟩, hmeaning⟩
  · rintro ⟨e, ⟨ts, e', hspells, hderives, hregroups⟩, hmeaning⟩
    exact ⟨ts, e', hspells, hderives, hregroups.meaning_eq.trans hmeaning⟩

theorem Reads.means {phrase : Phrase} {cs : List Char} {e : Expr} (h : Reads phrase cs e) :
    Means phrase cs (meaning e) :=
  means_iff.2 ⟨e, h, rfl⟩

section

variable {cs ds : List Char} {m m' : Meaning}

theorem Means.loosen {phrase phrase' : Phrase} (h : Means phrase cs m)
    (hlevel : phrase'.level ≤ phrase.level) : Means phrase' cs m := by
  obtain ⟨e, he, rfl⟩ := means_iff.1 h
  exact (he.loosen hlevel).means

theorem means_number {v : Decimal} (h : v.negative = false) :
    Means .atom v.shortText.toList (.constant v.toRat) :=
  (reads_number h).means

theorem Means.neg (h : Means .unary cs m) : Means .unary ('-' :: cs) m.neg := by
  obtain ⟨e, he, rfl⟩ := means_iff.1 h
  exact he.neg.means

theorem Means.mul (h : Means .product cs m) (h' : Means .product ds m') :
    Means .product (cs ++ ' ' :: '*' :: ' ' :: ds) (m.combine .mul m') := by
  obtain ⟨e, he, rfl⟩ := means_iff.1 h
  obtain ⟨e', he', rfl⟩ := means_iff.1 h'
  exact (he.mul he').means

theorem Means.add (h : Means .sum cs m) (h' : Means .sum ds m') :
    Means .sum (cs ++ ' ' :: '+' :: ' ' :: ds) (m.combine .add m') := by
  obtain ⟨e, he, rfl⟩ := means_iff.1 h
  obtain ⟨e', he', rfl⟩ := means_iff.1 h'
  exact (he.add he').means

theorem Means.sub (h : Means .sum cs m) (h' : Means .product ds m') :
    Means .sum (cs ++ ' ' :: '-' :: ' ' :: ds) (m.combine .sub m') := by
  obtain ⟨e, he, rfl⟩ := means_iff.1 h
  obtain ⟨e', he', rfl⟩ := means_iff.1 h'
  exact (he.sub he').means

theorem Means.exists_parse {text : String} (h : Means .sum text.toList m) :
    ∃ e, Expr.parse text = .ok e ∧ meaning e = m := by
  obtain ⟨e, he, rfl⟩ := means_iff.1 h
  obtain ⟨e', hparse, hregroups⟩ := he.exists_parse
  exact ⟨e', hparse, hregroups.meaning_eq⟩

end

/-- The text is read as what the expression means, as any phrase that binds no tighter. -/
def Prints (e : Expr) (text : String) : Prop :=
  ∀ phrase : Phrase, phrase.level ≤ e.precedence → Means phrase text.toList (meaning e)

/-- The text of an expression means what the expression means. -/
theorem prints_render {e : Expr} (h : Printable e) : Prints e (e.render .math) :=
  fun phrase hlevel => (readsBack_render h phrase hlevel).means

/-! ### Coefficients and terms -/

theorem printable_of_make {source : String} {registry : Registry} {constants : List Constant}
    {t : TermList} (h : TermList.make source registry constants = .ok t) :
    t.terms ≠ [] ∧ ∀ e ∈ t.terms, CeilFree e → Printable e := by
  obtain ⟨terms, hterms, h⟩ := bind_eq_ok.1 h
  have ht : t.terms = terms := by
    dsimp only at h
    split at h
    · cases h
    · cases h
      rfl
  obtain ⟨ts, -, hlist⟩ := bind_eq_ok.1 hterms
  rw [mapError_eq_ok] at hlist
  rw [ht]
  exact ⟨(derives_of_listOfTokens hlist).1, fun e he => printable_of_parsed (.term hterms he)⟩

/-- A decimal is its magnitude with its sign, which a zero does not have. -/
theorem toRat_eq_signed_abs (v : Decimal) :
    v.toRat = if v.negative && !v.isZero then -v.abs.toRat else v.abs.toRat := by
  have habs : v.abs.toRat = v.mantissa / 10 ^ v.scale := toRat_eq_div v.abs
  rw [habs, toRat_eq_div, Decimal.signedMantissa]
  by_cases hzero : v.mantissa = 0
  · simp [Decimal.isZero, hzero]
  · cases v.negative with
    | true => simp [Decimal.isZero, hzero, neg_div]
    | false => simp

theorem means_coefficient (v : Decimal) :
    Means .unary v.shortText.toList (.constant v.toRat) := by
  have habs : Means .unary v.abs.shortText.toList (.constant v.abs.toRat) :=
    (means_number rfl).loosen (by decide)
  have hchars : v.shortText.toList =
      (if v.negative && !v.isZero then ['-'] else []) ++ v.abs.shortText.toList := by
    rw [shortText_toList v, shortText_toList v.abs]
    rfl
  rw [hchars, toRat_eq_signed_abs]
  split
  · exact habs.neg
  · exact habs

theorem means_renderTerm {e : Expr} (h : Printable e) :
    Means .product (TermList.renderTerm .math e).toList (meaning e) := by
  rw [TermList.renderTerm]
  split
  · exact (readsBack_render h).parenthesize.means.loosen (by decide)
  · rename_i hadditive
    have htight : 1 < e.precedence := by simpa [isAdditive, Operator.precedence] using hadditive
    exact prints_render h .product htight

theorem means_times_term {s : String} {a : ℚ} (hs : Means .unary s.toList (.constant a)) {e : Expr}
    (h : Printable e) :
    Means .product (s ++ Style.math.timesSign ++ TermList.renderTerm .math e).toList
      ((Meaning.constant a).combine .mul (meaning e)) := by
  rw [toList_append_append]
  exact Means.mul (hs.loosen (by decide)) (means_renderTerm h)

theorem combine_add_constant_zero (m : Meaning) : m.combine .add (.constant 0) = m := by
  funext F names
  simp only [Meaning.combine, Meaning.constant]
  cases m F names <;> simp [Functions.apply]

theorem combine_sub_times (m m' : Meaning) (a : ℚ) :
    m.combine .sub ((Meaning.constant a).combine .mul m') =
      m.combine .add ((Meaning.constant (-a)).combine .mul m') := by
  funext F names
  simp only [Meaning.combine, Meaning.constant]
  cases m F names <;> cases m' F names <;> simp [Functions.apply, sub_eq_add_neg]

/-- A sum goes on with the next term; the sign of its coefficient becomes the operation. -/
theorem means_signedTerm {cs : List Char} {m : Meaning} (hcs : Means .sum cs m) (v : Decimal)
    {e : Expr} (h : Printable e) :
    Means .sum (cs ++ (signedTerm .math v (TermList.renderTerm .math e)).toList)
      (m.combine .add ((Meaning.constant v.toRat).combine .mul (meaning e))) := by
  have hmagnitude : Means .unary v.abs.shortText.toList (.constant v.abs.toRat) :=
    (means_number rfl).loosen (by decide)
  have hproduct := means_times_term hmagnitude h
  have hchars : (signedTerm .math v (TermList.renderTerm .math e)).toList =
      (if v.negative && !v.isZero then " - " else " + ").toList ++
        (v.abs.shortText ++ Style.math.timesSign ++ TermList.renderTerm .math e).toList := by
    rw [signedTerm, ← String.toList_append, String.append_assoc, String.append_assoc,
      String.append_assoc]
  rw [hchars, toRat_eq_signed_abs]
  split
  · rw [← combine_sub_times]
    exact hcs.sub hproduct
  · exact hcs.add (hproduct.loosen (by decide))

theorem means_signedTerms {rest : List (Decimal × Expr)} (h : ∀ p ∈ rest, Printable p.2)
    {cs : List Char} {m : Meaning} (hcs : Means .sum cs m) :
    Means .sum (cs ++ (String.join (rest.map fun p =>
        signedTerm .math p.1 (TermList.renderTerm .math p.2))).toList)
      (m.combine .add (weightedSum rest)) := by
  induction rest generalizing cs m with
  | nil =>
    rw [weightedSum, combine_add_constant_zero]
    simpa using hcs
  | cons p rest ih =>
    have hnext := means_signedTerm hcs p.1 (h p List.mem_cons_self)
    have hrest := ih (fun q hq => h q (List.mem_cons_of_mem _ hq)) hnext
    rw [List.map_cons, String.join_cons, String.toList_append, ← List.append_assoc, weightedSum,
      combine_add_assoc (t := .plus) rfl]
    exact hrest

/-- The text of some coefficients with their terms means the sum of their products. -/
theorem exists_parse_weightedSum {p : Decimal × Expr} {rest : List (Decimal × Expr)}
    (h : ∀ q ∈ p :: rest, Printable q.2) :
    ∃ e, Expr.parse (p.1.shortText ++ Style.math.timesSign ++ TermList.renderTerm .math p.2 ++
        String.join (rest.map fun q =>
          signedTerm .math q.1 (TermList.renderTerm .math q.2))) = .ok e ∧
      meaning e = weightedSum (p :: rest) := by
  have hfirst := means_times_term (means_coefficient p.1) (h p List.mem_cons_self)
  have hsum := means_signedTerms (fun q hq => h q (List.mem_cons_of_mem _ hq))
    (hfirst.loosen (by decide : Phrase.sum.level ≤ _))
  rw [← String.toList_append] at hsum
  exact hsum.exists_parse

theorem texts_eq_ok {values : Valuation} {names : List String} {vs : List Decimal}
    (h : List.Forall₂ (fun name v => values[name]? = some v) names vs) (terms : List Expr) :
    (names.zip terms).mapM (fun (name, term) => do
        return (← values.coefficient name, TermList.renderTerm .math term)) =
      Except.ok ((vs.zip terms).map fun p => (p.1, TermList.renderTerm .math p.2)) := by
  rw [mapM_eq_ok]
  induction h generalizing terms with
  | nil => exact .nil
  | @cons name v names vs hv _ ih =>
    cases terms with
    | nil => exact .nil
    | cons e terms =>
      refine .cons ?_ (ih terms)
      have hcoefficient : values.coefficient name = .ok v := by rw [Valuation.coefficient, hv]
      exact bind_eq_ok.2 ⟨v, hcoefficient, rfl⟩

/-- The text of a function of a term list is read as an expression of the same meaning as the sum of
the terms, each times its coefficient. -/
theorem printed_fit_means_fit {source : String} {registry : Registry} {constants : List Constant}
    {t : TermList} (ht : TermList.make source registry constants = .ok t)
    (hceil : ∀ e ∈ t.terms, CeilFree e) {values : Valuation} {vs : List Decimal}
    (hvs : List.Forall₂ (fun name v => values[name]? = some v) t.coefficients vs) :
    ∃ text e, t.render .math values = .ok text ∧ Expr.parse text = .ok e ∧
      ∀ F names, meaning e F names = weightedSum (vs.zip t.terms) F names := by
  obtain ⟨hne, hprintable⟩ := printable_of_make ht
  have hlength : vs.length = t.terms.length := by
    rw [← hvs.length_eq, TermList.coefficients, List.length_map, List.length_range]
  have hzip : vs.zip t.terms ≠ [] := by
    intro hnil
    rcases List.zip_eq_nil_iff.1 hnil with h | h
    · rw [h] at hlength
      exact hne (List.length_eq_zero_iff.1 hlength.symm)
    · exact hne h
  obtain ⟨p, rest, hpairs⟩ := List.exists_cons_of_ne_nil hzip
  have hall : ∀ q ∈ p :: rest, Printable q.2 := by
    intro q hq
    have hterm : q.2 ∈ t.terms := (List.of_mem_zip (hpairs ▸ hq)).2
    exact hprintable _ hterm (hceil _ hterm)
  obtain ⟨e, hparse, hmeaning⟩ := exists_parse_weightedSum hall
  refine ⟨_, e, ?_, hparse, ?_⟩
  · refine bind_eq_ok.2 ⟨_, texts_eq_ok hvs t.terms, ?_⟩
    rw [hpairs, List.map_cons]
    dsimp only
    rw [List.map_map]
    rfl
  · intro F names
    rw [hmeaning, hpairs]


/-- A term with a minus sign in front, a sum and a quotient. -/
def signedTerms : TermList where
  registry := ⟨["x", "y"], by decide⟩
  constants := ∅
  terms := [.neg (.ident "x"), .binary .add (.ident "x") (.ident "y"),
    .binary .div (.binary .pow (.sqrt (.ident "x")) (.neg (.ident "y"))) (.ident "x")]

theorem make_signedTerms : TermList.make "-x, x + y, sqrt(x) ^ -y / x" signedTerms.registry [] =
    .ok signedTerms := by
  cbv

/-- A negative number, a negative zero and a negative number with a zero at its end. -/
def signedCoefficients : List Decimal :=
  [(1, 0), (0, 1), (250, 2)].filterMap fun (mantissa, scale) =>
    Decimal.ofParts? true mantissa scale

/-- Negative coefficients, a zero with a sign, a term that is a sum and one that begins with a minus
sign: what is printed for them is read as what they mean. -/
theorem signedTerms_print_their_sum :
    let values : Valuation := Std.TreeMap.ofList (signedTerms.coefficients.zip signedCoefficients)
    let text := "-1 * -x + 0 * (x + y) - 2.5 * sqrt(x)^(-y) / x"
    TermList.make "-x, x + y, sqrt(x) ^ -y / x" signedTerms.registry [] = .ok signedTerms ∧
      signedTerms.render .math values = .ok text ∧ ∃ e, Expr.parse text = .ok e ∧
        ∀ F names, meaning e F names =
          weightedSum (signedCoefficients.zip signedTerms.terms) F names := by
  intro values text
  have hceil : ∀ e ∈ signedTerms.terms, CeilFree e := by simp [signedTerms, CeilFree]
  have hvs : List.Forall₂ (fun name v => values[name]? = some v) signedTerms.coefficients
      signedCoefficients := by
    decide +kernel
  have htext : signedTerms.render .math values = .ok text :=
    toOption_eq_some.1 (by decide +kernel)
  obtain ⟨text', e, hrender, hparse, hmeaning⟩ :=
    printed_fit_means_fit make_signedTerms hceil hvs
  rw [htext] at hrender
  cases hrender
  exact ⟨make_signedTerms, htext, e, hparse, hmeaning⟩

end MarkovFit.Proofs
