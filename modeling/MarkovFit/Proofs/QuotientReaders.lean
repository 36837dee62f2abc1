import MarkovFit.Proofs.EqualValues
import MarkovFit.Proofs.NumberTokens
import MarkovFit.Proofs.ResultLines
import MarkovFit.Parameter

/-!
# Two readers of quotients

The reader of numbers cuts a fraction at its first slash and divides by all the rest, which groups a
chain of slashes to the right; an expression groups it to the left. On texts that both accept they
agree on the pieces between the slashes, and therefore on every number and on every fraction with
one slash. With more slashes each has the value of its own grouping.
-/

namespace MarkovFit.Proofs

open MarkovFit.Expr Decimal Text

variable {cs above below : List Char} {c : Char} {a b v w : Decimal} {ts us : List Token}
  {e l : Expr}

/-! ### Groupings -/

/-- The quotient of a chain in which each divisor is the quotient of all the rest. -/
def quotientFromRight : Decimal → List Decimal → Option Decimal
  | v, [] => some v
  | v, w :: ws => (quotientFromRight w ws).bind v.div?

/-- The quotient of a chain that is divided by one number after the other. -/
def quotientFromLeft : Decimal → List Decimal → Option Decimal
  | v, [] => some v
  | v, w :: ws => (v.div? w).bind fun q => quotientFromLeft q ws

/-- With one slash at most there is only one grouping. -/
theorem quotientFromRight_eq_left {vs : List Decimal} (h : vs.length ≤ 1) :
    quotientFromRight v vs = quotientFromLeft v vs := by
  match vs with
  | [] => rfl
  | [w] => simp [quotientFromRight, quotientFromLeft]
  | _ :: _ :: _ => simp at h

/-! ### The reader of numbers -/

theorem trimChars_trimLeft (cs : List Char) : trimChars (trimLeft cs) = trimChars cs :=
  congrArg trimRight (List.dropWhile_idempotent _ _)

theorem trimChars_trimRight (cs : List Char) : trimChars (trimRight cs) = trimChars cs := by
  obtain ⟨blanks, hblanks, hcs⟩ := exists_eq_trimRight_append cs
  conv_rhs => rw [hcs, trimChars_append_blanks hblanks]

theorem trimChars_slash (above below : List Char) :
    trimChars (above ++ '/' :: below) = trimLeft above ++ '/' :: trimRight below := by
  rw [trimChars, trimLeft, dropWhile_append_of_stop (by decide), trimRight_append (by decide)]
  rfl

theorem mem_of_mem_trimChars (h : c ∈ trimChars cs) : c ∈ cs := by
  rw [trimChars, trimRight, List.mem_reverse] at h
  exact List.dropWhile_subset _ (List.mem_reverse.1 (List.dropWhile_subset _ h))

/-- A fraction is cut at its first slash. -/
theorem readTrimmed_slash (habove : '/' ∉ above)
    (h : readTrimmed (trimChars (above ++ '/' :: below)) = .ok a) :
    ∃ v w, readTrimmed (trimChars above) = .ok v ∧ readTrimmed (trimChars below) = .ok w ∧
      v.div? w = some a := by
  have hleft : '/' ∉ trimLeft above := fun hmem => habove (List.dropWhile_subset _ hmem)
  have hcut := cutAt?_eq_some_iff.2 ⟨hleft, trimChars_slash above below⟩
  rw [readTrimmed] at h
  split at h
  · rename_i front rest hsome
    rw [hcut] at hsome
    cases hsome
    rw [trimChars_trimLeft, trimChars_trimRight] at h
    obtain ⟨v, hv, h⟩ := bind_eq_ok.1 h
    obtain ⟨w, hw, h⟩ := bind_eq_ok.1 h
    refine ⟨v, w, hv, hw, ?_⟩
    cases hdiv : v.div? w with
    | none =>
      rw [hdiv] at h
      cases h
    | some q =>
      rw [hdiv] at h
      cases h
      rfl
  · rename_i hnone
    rw [hcut] at hnone
    cases hnone

/-- A text with slashes is read as the numbers between them, with the quotient grouped to the
right. -/
theorem readTrimmed_intercalate {piece : List Char} {rest : List (List Char)}
    (hslash : ∀ p ∈ piece :: rest, '/' ∉ p)
    (h : readTrimmed (trimChars (['/'].intercalate (piece :: rest))) = .ok a) :
    ∃ v vs, List.Forall₂ (fun p v => readNumber? (trimChars p) = some v) (piece :: rest) (v :: vs) ∧
      quotientFromRight v vs = some a := by
  have hnumber : ∀ {p v}, '/' ∉ p → readTrimmed (trimChars p) = .ok v →
      readNumber? (trimChars p) = some v := fun hp hv =>
    (readTrimmed_eq_ok_iff fun hmem => hp (mem_of_mem_trimChars hmem)).1 hv
  -- What follows the first slash is read by the same reader, so that the divisor is a whole chain.
  induction rest generalizing piece a with
  | nil =>
    rw [List.intercalate_singleton] at h
    exact ⟨a, [], .cons (hnumber (hslash piece List.mem_cons_self) h) .nil, rfl⟩
  | cons next rest ih =>
    rw [List.forall_mem_cons] at hslash
    rw [List.intercalate_cons_cons, List.append_assoc, List.singleton_append] at h
    obtain ⟨v, w, hv, hw, hdiv⟩ := readTrimmed_slash hslash.1 h
    obtain ⟨v', vs, hvs, hquotient⟩ := ih hslash.2 hw
    refine ⟨v, v' :: vs, .cons (hnumber hslash.1 hv) hvs, ?_⟩
    rw [quotientFromRight, hquotient, Option.bind_some, hdiv]

/-! ### The reader of expressions -/

theorem isBoundary_of_isBlank (h : isBlank c = true) : isBoundary c = true := by
  refine isBoundary_iff.2 ⟨?_, ?_, ?_, ?_⟩
  · by_contra hrest
    rw [isBlank_of_isIdentRest (Bool.eq_true_of_not_eq_false hrest)] at h
    cases h
  all_goals
    rintro rfl
    cases h

theorem symbol?_of_isBlank (h : isBlank c = true) : symbol? c = none := by
  unfold symbol?
  split
  case h_9 => rfl
  all_goals cases h

/-- A blank in front of tokens is a gap. -/
theorem scans_of_blank_cons (hc : isBlank c = true) (h : Scans (c :: cs) ts) : Scans cs ts := by
  by_cases hgap : isGap c = true
  · exact (scans_gap_iff hgap).1 h
  -- Other blanks begin no token, so that nothing is scanned.
  · obtain ⟨t, n, us, hfirst, -⟩ := (scans_token_iff (Bool.eq_false_of_not_eq_true hgap)).1 h
    have hstart : ¬isIdentStart c = true := by
      intro hstart
      have hrest := (isBoundary_iff.1 (isBoundary_of_isBlank hc)).1
      rw [isIdentRest, hstart, Bool.true_or] at hrest
      cases hrest
    rw [firstToken, symbol?_of_isBlank hc] at hfirst
    dsimp only at hfirst
    rw [if_neg hstart] at hfirst
    split at hfirst
    · cases hfirst
    · rename_i lexeme more hcut
      obtain ⟨last, hlast, -⟩ := getLast?_of_cutNumber? hcut
      obtain ⟨d, lexeme, rfl⟩ := List.exists_cons_of_ne_nil
        (List.ne_nil_of_mem (List.mem_of_mem_getLast? hlast))
      obtain rfl := (List.cons.inj (eq_of_cutNumber? hcut)).1
      rw [isBlank_of_isNumberChar ((isLexeme_of_cutNumber? hcut).1 c List.mem_cons_self)] at hc
      cases hc

theorem scans_trimLeft (h : Scans cs ts) : Scans (trimLeft cs) ts := by
  induction cs with
  | nil => exact h
  | cons c cs ih =>
    by_cases hc : isBlank c = true
    · rw [trimLeft, List.dropWhile_cons_of_pos hc]
      exact ih (scans_of_blank_cons hc h)
    · rwa [trimLeft, List.dropWhile_cons_of_neg hc]

theorem eq_nil_of_scans_blanks {blanks : List Char} (hblanks : ∀ c ∈ blanks, isBlank c = true)
    (h : Scans blanks ts) : ts = [] := by
  have htrim := scans_trimLeft h
  rw [trimLeft, List.dropWhile_eq_nil_iff.2 hblanks] at htrim
  exact scans_nil.1 htrim

theorem scans_trimChars (h : Scans cs ts) : Scans (trimChars cs) ts := by
  have hleft := scans_trimLeft h
  obtain ⟨blanks, hblanks, hcs⟩ := exists_eq_trimRight_append (trimLeft cs)
  cases blanks with
  | nil => rwa [hcs, List.append_nil] at hleft
  | cons c blanks =>
    rw [hcs, scans_append_iff (isBoundary_of_isBlank (hblanks c List.mem_cons_self))] at hleft
    obtain ⟨us, vs, rfl, hus, hvs⟩ := hleft
    obtain rfl := eq_nil_of_scans_blanks hblanks hvs
    rwa [List.append_nil]

/-- The tree has this value wherever it has one. -/
def Computes (e : Expr) (q : Option Decimal) : Prop :=
  ∀ lookup b, e.evaluate lookup = .ok b → ∃ v, q = some v ∧ b.SameValue v

theorem computes_of_evaluatesTo (h : EvaluatesTo e v) : Computes e (some v) := by
  intro lookup b hb
  obtain ⟨b', hb', hvalue⟩ := h lookup
  rw [hb] at hb'
  cases hb'
  exact ⟨v, rfl, hvalue⟩

theorem Computes.div {q : Option Decimal} (hl : Computes l q) (he : EvaluatesTo e v) :
    Computes (.binary .div l e) (q.bind (·.div? v)) := by
  intro lookup b hb
  obtain ⟨x, hx, hb⟩ := bind_eq_ok.1 hb
  obtain ⟨y, hy, hb⟩ := bind_eq_ok.1 hb
  obtain ⟨x', rfl, hxx'⟩ := hl lookup x hx
  obtain ⟨v', hv', hyv⟩ := computes_of_evaluatesTo he lookup y hy
  cases hv'
  rw [Operator.apply] at hb
  split at hb
  · cases hb
  · have hsame := sameResult_div hxx' hyv
    rw [orArithmetic_eq_ok.1 hb] at hsame
    change ∃ q, x'.div? v = some q ∧ b.SameValue q
    generalize x'.div? v = r at hsame
    cases hsame with
    | some hvalue => exact ⟨_, rfl, hvalue⟩

/-- Numbers with slashes between them are read as a quotient that is grouped to the left. -/
theorem exists_product_of_chain {groups : List (List Token)} {vs : List Decimal}
    {q : Option Decimal}
    (h : List.Forall₂ (fun group v => ∃ e, Derives .unary group e ∧ EvaluatesTo e v) groups vs)
    (hts : Derives .product ts l) (hl : Computes l q) :
    ∃ e, Derives .product (ts ++ groups.flatMap (.slash :: ·)) e ∧
      Computes e (q.bind fun v => quotientFromLeft v vs) := by
  -- The product in front is the left side of the next division, so it is general.
  induction h generalizing ts l q with
  | nil => exact ⟨l, by simpa using hts, by simpa [quotientFromLeft] using hl⟩
  | cons hgroup _ ih =>
    obtain ⟨e, he, hvalue⟩ := hgroup
    have hproduct := Derives.product hts (rfl : productOperator? .slash = _) he
    obtain ⟨e', he', hcomputes⟩ := ih hproduct (hl.div hvalue)
    refine ⟨e', by simpa using he', ?_⟩
    simpa only [quotientFromLeft, Option.bind_assoc] using hcomputes

/-! ### Texts that both accept -/

/-- An expression that is also read as a number is a quotient of the same numbers, grouped to the
left. -/
theorem computes_of_parse {pieces : List (List Char)} (hpieces : pieces ≠ [])
    {vs : List Decimal} (hvs : List.Forall₂ (fun p v => readNumber? (trimChars p) = some v) pieces
      (v :: vs)) (hscan : Scans (['/'].intercalate pieces) ts) (hderives : Derives .sum ts e) :
    Computes e (quotientFromLeft v vs) := by
  obtain ⟨groups, hgroups, rfl⟩ :=
    (scans_intercalate_iff (c := '/') (t := .slash) (by decide) rfl hpieces).1 hscan
  have hapart : ∀ group ∈ groups, group.IsChain Apart := fun group hgroup =>
    List.IsChain.infix (isChain_apart_of_derives hderives) (infix_intercalate hgroup)
  have hnumbers : List.Forall₂ (fun group v => ∃ e, Derives .unary group e ∧ EvaluatesTo e v) groups
      (v :: vs) := by
    have hboth := (List.forall₂_and_left _ _).2
      ⟨hapart, forall₂_comp_iff.2 ⟨pieces, hgroups.flip, hvs⟩⟩
    refine hboth.imp ?_
    rintro group v ⟨hapart, p, hscan, hv⟩
    exact exists_unary_of_scans hv (scans_trimChars hscan) hapart
  obtain ⟨group, groups, ⟨first, hfirst, hvalue⟩, hrest, rfl⟩ :=
    List.forall₂_cons_right_iff.1 hnumbers
  obtain ⟨e', he', hcomputes⟩ :=
    exists_product_of_chain hrest (.factor hfirst) (computes_of_evaluatesTo hvalue)
  rw [intercalate_cons_eq] at hderives
  rwa [derives_unique hderives (.summand he')]

/-- A text that is read as a number and as an expression is a chain of numbers with slashes between
them. The number is the quotient that is grouped to the right and the value of the expression, if it
has one, is the quotient that is grouped to the left. They agree if there is one slash at most. -/
theorem readers_group_quotients {s : String} {lookup : String → Option Decimal}
    (hread : readDecimal s = .ok a) (hparse : parse s = .ok e)
    (hvalue : e.evaluate lookup = .ok b) :
    ∃ v vs, List.Forall₂ (fun piece v => readDecimal piece = .ok v) (pieces '/' s) (v :: vs) ∧
      quotientFromRight v vs = some a ∧
      (∃ q, quotientFromLeft v vs = some q ∧ b.SameValue q) ∧
      (vs.length ≤ 1 → a.SameValue b) := by
  obtain ⟨piece, rest, hsplit⟩ := List.exists_cons_of_ne_nil (List.splitOn_ne_nil '/' s.toList)
  have hslash : ∀ p ∈ piece :: rest, '/' ∉ p := fun p hp => not_mem_of_mem_splitOn (hsplit ▸ hp)
  have hjoin : ['/'].intercalate (piece :: rest) = s.toList := by
    rw [← hsplit, List.intercalate_splitOn]
  have htrimmed : readTrimmed (trimChars s.toList) = .ok a :=
    mapError_eq_ok.1 (mapError_eq_ok.1 hread)
  rw [← hjoin] at htrimmed
  obtain ⟨v, vs, hvs, hright⟩ := readTrimmed_intercalate hslash htrimmed
  obtain ⟨ts, hscan, hderives⟩ := parse_eq_ok_iff.1 hparse
  rw [scan_eq_ok_iff, ← hjoin] at hscan
  obtain ⟨q, hleft, hsame⟩ :=
    computes_of_parse (List.cons_ne_nil _ _) hvs hscan hderives lookup b hvalue
  refine ⟨v, vs, ?_, hright, ⟨q, hleft, hsame⟩, ?_⟩
  · rw [pieces_eq, hsplit, List.forall₂_map_left_iff]
    refine ((List.forall₂_and_left _ _).2 ⟨hslash, hvs⟩).imp ?_
    rintro p v ⟨hp, hv⟩
    refine mapError_eq_ok.2 (mapError_eq_ok.2 ?_)
    rw [String.toList_ofList]
    exact (readTrimmed_eq_ok_iff fun hmem => hp (mem_of_mem_trimChars hmem)).2 hv
  · intro hlength
    rw [quotientFromRight_eq_left hlength, hleft] at hright
    cases hright
    exact sameValue_symm hsame

/-- Signs and blanks make no difference. -/
theorem negativeThird_agrees :
    ∃ a e b, readDecimal " -1 / 3" = .ok a ∧ parse " -1 / 3" = .ok e ∧
      e.evaluate (fun _ => none) = .ok b ∧ a.SameValue b := by
  have hscan : scan " -1 / 3" =
      .ok [.minus, .number Decimal.one, .slash, .number ⟨false, 3, 0, by decide, by decide⟩] :=
    toOption_eq_some.1 (by decide +kernel)
  let e : Expr :=
    .binary .div (.neg (.number Decimal.one)) (.number ⟨false, 3, 0, by decide, by decide⟩)
  have hparse : parse " -1 / 3" = .ok e :=
    parse_eq_ok_iff.2 ⟨_, hscan, ofTokens_eq_ok_iff.1 (by cbv)⟩
  obtain ⟨a, hread⟩ := exists_eq_ok (x := readDecimal " -1 / 3") (by decide +kernel)
  obtain ⟨b, hvalue⟩ := exists_eq_ok (x := e.evaluate fun _ => none) (by decide +kernel)
  obtain ⟨v, vs, hpieces, -, -, hagree⟩ := readers_group_quotients hread hparse hvalue
  have hlength : vs.length = 1 := by
    have htwo : (pieces '/' " -1 / 3").length = 2 := by decide +kernel
    rw [hpieces.length_eq, List.length_cons] at htwo
    exact Nat.succ.inj htwo
  exact ⟨a, e, b, hread, hparse, hvalue, hagree hlength.le⟩

/-- A chain of two slashes is `8 / (4 / 2)` for one reader and `(8 / 4) / 2` for the other. -/
theorem twoSlashes_disagree :
    ∃ a e b, readDecimal "8/4/2" = .ok a ∧ parse "8/4/2" = .ok e ∧
      e.evaluate (fun _ => none) = .ok b ∧ a.text = "4" ∧ b.text = "1" ∧ ¬a.SameValue b := by
  let eight : Decimal := ⟨false, 8, 0, by decide, by decide⟩
  let four : Decimal := ⟨false, 4, 0, by decide, by decide⟩
  have hscan : scan "8/4/2" =
      .ok [.number eight, .slash, .number four, .slash, .number Decimal.two] :=
    toOption_eq_some.1 (by decide +kernel)
  let e : Expr :=
    .binary .div (.binary .div (.number eight) (.number four)) (.number Decimal.two)
  have hparse : parse "8/4/2" = .ok e := parse_eq_ok_iff.2 ⟨_, hscan, ofTokens_eq_ok_iff.1 (by cbv)⟩
  have hread : readDecimal "8/4/2" = .ok four := toOption_eq_some.1 (by decide +kernel)
  have hvalue : e.evaluate (fun _ => none) = .ok Decimal.one :=
    toOption_eq_some.1 (by decide +kernel)
  exact ⟨four, e, Decimal.one, hread, hparse, hvalue, by decide +kernel, by decide +kernel, by decide⟩

end MarkovFit.Proofs
