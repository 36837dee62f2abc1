import MarkovFit.Proofs.CoefficientNames
import MarkovFit.Proofs.ResolvedNames
import MarkovFit.Proofs.TextPieces
import MarkovFit.Proofs.TokenBoundaries
import MarkovFit.Template.Basic

/-!
# Terms and their pieces

A comma is a token of its own wherever it stands, and no phrase has one inside. A list of terms is
therefore read exactly as its pieces between the commas are read one by one, and the coefficients of
a template are numbered as these pieces are.
-/

namespace MarkovFit.Proofs

open MarkovFit.Expr Text

/-! ### Commas -/

/-- No phrase has a comma, not even inside parentheses. -/
theorem comma_not_mem_of_derives {phrase : Phrase} {ts : List Token} {e : Expr}
    (h : Derives phrase ts e) : .comma ∉ ts := by
  induction h with
  | number | ident => simp
  | ceil _ ih | sqrt _ ih | paren _ ih => simp [ih]
  | base _ ih | power _ ih | factor _ ih | summand _ ih => exact ih
  | minus _ ih | plus _ ih => simp [ih]
  | pow _ _ ihbase ihexponent => simp [ihbase, ihexponent]
  | @product _ _ t _ _ _ _ hop _ ihleft ihright =>
    have hcomma : .comma ≠ t := by
      rintro rfl
      cases hop
    simp [ihleft, ihright, hcomma]
  | @sum _ _ t _ _ _ _ hop _ ihleft ihright =>
    have hcomma : .comma ≠ t := by
      rintro rfl
      cases hop
    simp [ihleft, ihright, hcomma]

theorem eq_comma_of_firstToken {c : Char} {cs : List Char} {n : ℕ}
    (h : firstToken c cs = .ok (.comma, n)) : c = ',' := by
  unfold firstToken at h
  split at h
  · rename_i hsymbol
    cases h
    unfold symbol? at hsymbol
    split at hsymbol <;> cases hsymbol
    rfl
  · split at h
    · cases h
    · split at h
      · cases h
      · split at h <;> cases h

theorem comma_not_mem_of_scans {cs : List Char} {ts : List Token} (hcs : ',' ∉ cs)
    (h : Scans cs ts) : .comma ∉ ts := by
  intro hmem
  obtain ⟨c, rest, n, hsuffix, hfirst⟩ := exists_firstToken_of_mem (h 0) hmem
  obtain rfl := eq_comma_of_firstToken hfirst
  exact hcs (hsuffix.subset List.mem_cons_self)

/-! ### Pieces -/

/-- The tokens of a text are those of its pieces, with commas between them. -/
theorem scan_eq_ok_iff_pieces {source : String} {ts : List Token} : scan source = .ok ts ↔
    ∃ groups, List.Forall₂ (fun piece group => scan piece = .ok group) (pieces ',' source) groups ∧
      ts = [.comma].intercalate groups := by
  have hsplit : Scans ([','].intercalate (source.toList.splitOn ',')) ts ↔ _ :=
    scans_intercalate_iff (t := .comma) (by decide) rfl (List.splitOn_ne_nil ',' source.toList)
  rw [List.intercalate_splitOn] at hsplit
  rw [scan_eq_ok_iff, hsplit, pieces_eq]
  simp only [List.forall₂_map_left_iff, scan_eq_ok_iff, String.toList_ofList]

/-- The groups of tokens between commas are the same for the pieces and for the terms. -/
theorem groups_unique {source : String} {groups groups' : List (List Token)} {terms : List Expr}
    (hscan : List.Forall₂ (fun piece group => scan piece = .ok group) (pieces ',' source) groups)
    (hterms : List.Forall₂ (Derives .sum) groups' terms) (hne : groups' ≠ [])
    (h : [.comma].intercalate groups = [.comma].intercalate groups') : groups = groups' := by
  have hpieces : ∀ group ∈ groups, Token.comma ∉ group := by
    intro group hgroup
    obtain ⟨piece, hpiece, hscan⟩ := exists_mem_of_forall₂ hscan.flip hgroup
    rw [pieces_eq, List.mem_map] at hpiece
    obtain ⟨chars, hchars, rfl⟩ := hpiece
    refine comma_not_mem_of_scans (not_mem_of_mem_splitOn hchars) ?_
    simpa only [String.toList_ofList] using scan_eq_ok_iff.1 hscan
  have hphrases : ∀ group ∈ groups', Token.comma ∉ group := by
    intro group hgroup
    obtain ⟨e, -, hderives⟩ := exists_mem_of_forall₂ hterms hgroup
    exact comma_not_mem_of_derives hderives
  have hnonempty : groups ≠ [] := by
    rintro rfl
    have hpieces := List.forall₂_nil_right_iff.1 hscan
    rw [pieces_eq, List.map_eq_nil_iff] at hpieces
    exact List.splitOn_ne_nil _ _ hpieces
  rw [← List.splitOn_intercalate Token.comma hpieces hnonempty, h,
    List.splitOn_intercalate Token.comma hphrases hne]

/-- A list of terms is read as its pieces are. -/
theorem parseTerms_eq_ok_iff {source : String} {terms : List Expr} : parseTerms source = .ok terms ↔
    List.Forall₂ (fun piece e => parse piece = .ok e) (pieces ',' source) terms := by
  rw [parseTerms, bind_eq_ok]
  simp only [mapError_eq_ok, parse_eq_ok_iff, forall₂_comp_iff]
  constructor
  · rintro ⟨ts, hscan, hterms⟩
    obtain ⟨groups, hgroups, rfl⟩ := scan_eq_ok_iff_pieces.1 hscan
    obtain ⟨groups', hne, hterms, heq⟩ := listOfTokens_eq_ok_iff.1 hterms
    obtain rfl := groups_unique hgroups hterms hne heq
    exact ⟨groups, hgroups, hterms⟩
  · rintro ⟨groups, hgroups, hterms⟩
    refine ⟨_, scan_eq_ok_iff_pieces.2 ⟨groups, hgroups, rfl⟩,
      listOfTokens_eq_ok_iff.2 ⟨groups, ?_, hterms, rfl⟩⟩
    rintro rfl
    have hpieces := List.forall₂_nil_right_iff.1 hgroups
    rw [pieces_eq, List.map_eq_nil_iff] at hpieces
    exact List.splitOn_ne_nil _ _ hpieces

/-! ### Coefficients -/

/-- The value of each term stands under the name with its index. -/
theorem evaluate_terms {family : TermList} {x : Sample} {values : Valuation}
    (h : family.evaluate x = .ok values) {i : ℕ} {e : Expr} (he : family.terms[i]? = some e) :
    ∃ v, e.evaluate (family.lookup x) = .ok v ∧
      values[TermList.coefficientName i]? = some v := by
  obtain ⟨pairs, hpairs, h⟩ := bind_eq_ok.1 h
  cases h
  have hlength : family.coefficients.length = family.terms.length := by
    simp [TermList.coefficients]
  have hnames : (pairs.map Prod.fst).Nodup := by
    rw [names_of_mapM ?_ hpairs, List.map_fst_zip hlength.le]
    · exact nodup_coefficients (.terms family)
    · rintro ⟨name, e⟩ pair hpair
      obtain ⟨v, -, hpair⟩ := bind_eq_ok.1 hpair
      cases hpair
      rfl
  have hterm : (TermList.coefficientName i, e) ∈ family.coefficients.zip family.terms := by
    have hi := (List.getElem?_eq_some_iff.1 he).1
    refine List.mem_of_getElem? (i := i) (List.getElem?_zip_eq_some.2 ⟨?_, he⟩)
    simp [TermList.coefficients, List.getElem?_range hi]
  obtain ⟨pair, hmem, hpair⟩ := exists_mem_of_forall₂ (mapM_eq_ok.1 hpairs) hterm
  obtain ⟨v, hv, hpair⟩ := bind_eq_ok.1 hpair
  cases hpair
  exact ⟨v, hv, (getElem?_ofList_iff hnames).2 hmem⟩

/-- A list of terms is the list of its pieces, and the coefficient with a number is that of the
piece with this number. -/
theorem terms_are_pieces (source : String) :
    (∀ terms, parseTerms source = .ok terms ↔
      List.Forall₂ (fun piece e => parse piece = .ok e) (pieces ',' source) terms) ∧
    ((∃ terms, parseTerms source = .ok terms) ↔
      ∀ piece ∈ pieces ',' source, ∃ e, parse piece = .ok e) ∧
    ∀ degree registry constants t, Template.make (some source) degree registry constants = .ok t →
      t.coefficients = (List.range (pieces ',' source).length).map TermList.coefficientName ∧
      ∃ family, t = .terms family ∧
        List.Forall₂ (fun piece e => parse piece = .ok e) (pieces ',' source) family.terms ∧
        ∀ x values, t.evaluate x = .ok values → ∀ i piece, (pieces ',' source)[i]? = some piece →
          ∃ e v, parse piece = .ok e ∧ e.evaluate (family.lookup x) = .ok v ∧
            values[TermList.coefficientName i]? = some v := by
  refine ⟨fun terms => parseTerms_eq_ok_iff, ?_, ?_⟩
  · simp only [parseTerms_eq_ok_iff, ← mapM_eq_ok]
    constructor
    · rintro ⟨terms, hterms⟩ piece hpiece
      obtain ⟨e, -, he⟩ := exists_mem_of_forall₂ (mapM_eq_ok.1 hterms) hpiece
      exact ⟨e, he⟩
    · exact exists_mapM_ok
  · intro degree registry constants t ht
    obtain ⟨family, hmake, rfl⟩ := map_eq_ok.1 ht
    obtain ⟨terms, hterms, hmake⟩ := bind_eq_ok.1 hmake
    dsimp only at hmake
    split at hmake
    · cases hmake
    cases hmake
    have hpieces := parseTerms_eq_ok_iff.1 hterms
    refine ⟨?_, _, rfl, hpieces, ?_⟩
    · rw [hpieces.length_eq]
      rfl
    · intro x values hvalues i piece hpiece
      obtain ⟨hi, rfl⟩ := List.getElem?_eq_some_iff.1 hpiece
      have hi' : i < terms.length := hpieces.length_eq ▸ hi
      obtain ⟨v, hv, hvalue⟩ := evaluate_terms hvalues (List.getElem?_eq_getElem hi')
      exact ⟨_, v, hpieces.get hi hi', hv, hvalue⟩

def threeTerms : TermList where
  registry := oneParameter
  constants := TermList.numericConstants []
  terms :=
    [.number Decimal.one, .binary .pow (.ident "p") (.number Decimal.two), .sqrt (.ident "p")]

/-- The second of three coefficients is that of the square, which is read alone as well. -/
theorem squaredPiece_second :
    (∃ values, (Template.terms threeTerms).evaluate ⟨[("p", Decimal.two)]⟩ = .ok values ∧
      ∃ e v, parse " p ^ 2" = .ok e ∧ values["term_1"]? = some v) ∧
    ¬∃ terms, parseTerms "1, p ^ 2," = .ok terms := by
  have hscan : scan "1, p ^ 2, sqrt(p)" = .ok [.number Decimal.one, .comma, .ident "p", .caret,
      .number Decimal.two, .comma, .ident "sqrt", .leftParen, .ident "p", .rightParen] :=
    toOption_eq_some.1 (by decide +kernel)
  have hterms : parseTerms "1, p ^ 2, sqrt(p)" = .ok threeTerms.terms := by
    rw [parseTerms, hscan]
    cbv
  have hresolved : firstUnresolved? oneParameter.names [] (threeTerms.terms.flatMap identifiers) =
      none := by decide +kernel
  have hmake : Template.make (some "1, p ^ 2, sqrt(p)") 0 oneParameter [] =
      .ok (.terms threeTerms) := by
    rw [Template.make, make_terms_eq hterms, hresolved]
    rfl
  obtain ⟨values, hvalues⟩ := exists_eq_ok
    (x := (Template.terms threeTerms).evaluate ⟨[("p", Decimal.two)]⟩) (by decide +kernel)
  obtain ⟨-, -, hcoefficients⟩ := terms_are_pieces "1, p ^ 2, sqrt(p)"
  obtain ⟨-, _, -, -, hpieces⟩ := hcoefficients _ _ _ _ hmake
  obtain ⟨e, v, hparse, -, hvalue⟩ := hpieces _ values hvalues 1 " p ^ 2" (by decide +kernel)
  refine ⟨⟨values, hvalues, e, v, hparse, hvalue⟩, ?_⟩
  obtain ⟨-, hreads, -⟩ := terms_are_pieces "1, p ^ 2,"
  intro hread
  obtain ⟨e, hparse⟩ := hreads.1 hread "" (by decide +kernel)
  have hempty : (parse "").toOption = none := by
    rw [parse, show scan "" = .ok [] from toOption_eq_some.1 (by decide +kernel)]
    cbv
  rw [hparse] at hempty
  cases hempty

end MarkovFit.Proofs
