import MarkovFit.Proofs.ExpressionText

/-!
# Boundaries of tokens

A character that no number and no name goes on with ends the token in front of it, whatever follows.
A text is therefore cut at such a character into what its two sides are cut into. Commas, slashes
and blanks are boundaries; signs are none, as they may stand in an exponent.
-/

namespace MarkovFit.Proofs

open MarkovFit.Expr Text

/-- No number and no name goes on with this character. -/
def isBoundary (c : Char) : Bool := !(isIdentRest c || ['.', '+', '-'].contains c)

section

variable {c d : Char} {cs ds rest : List Char} {t : Token} {ts : List Token} {n : ℕ}

theorem isBoundary_iff : isBoundary c = true ↔
    isIdentRest c = false ∧ c ≠ '.' ∧ c ≠ '+' ∧ c ≠ '-' := by
  simp [isBoundary]

theorem not_isDigit_of_isBoundary (h : isBoundary c = true) : isDigit c = false := by
  by_contra hdigit
  have hrest := isIdentRest_of_isDigit (Bool.eq_true_of_not_eq_false hdigit)
  rw [(isBoundary_iff.1 h).1] at hrest
  cases hrest

/-! ### The token in front of a boundary -/

theorem takeWhile_append_of_stop {p : Char → Bool} (hc : p c = false) :
    (cs ++ c :: ds).takeWhile p = cs.takeWhile p := by
  rw [List.takeWhile_append]
  split
  · rename_i hall
    rw [List.takeWhile_cons_of_neg (by simp [hc]), List.append_nil]
    exact ((List.takeWhile_prefix p).eq_of_length hall).symm
  · rfl

theorem dropWhile_append_of_stop {p : Char → Bool} (hc : p c = false) :
    (cs ++ c :: ds).dropWhile p = cs.dropWhile p ++ c :: ds := by
  rw [List.dropWhile_append]
  split
  · rename_i hempty
    rw [List.isEmpty_iff.1 hempty, List.dropWhile_cons_of_neg (by simp [hc]), List.nil_append]
  · rfl

theorem cutExponent_append (hc : isBoundary c = true) :
    cutExponent (cs ++ c :: ds) = ((cutExponent cs).1, (cutExponent cs).2 ++ c :: ds) := by
  obtain ⟨hrest, -, hplus, hminus⟩ := isBoundary_iff.1 hc
  cases cs with
  | nil => exact cutExponent_of_clear (clear_cons.2 (by simp_all [isBoundary_iff]))
  | cons e cs =>
    have hsign : (c == '+' || c == '-') = false := by simp [hplus, hminus]
    have hdigit := not_isDigit_of_isBoundary hc
    have hle : ((cs.takeWhile fun c => c == '+' || c == '-').take 1).length ≤ cs.length :=
      (List.length_take_le' _ _).trans (List.takeWhile_prefix _).length_le
    rw [List.cons_append, cutExponent, cutExponent, takeWhile_append_of_stop hsign]
    split
    · dsimp only
      rw [List.drop_append_of_le_length hle, takeWhile_append_of_stop hdigit,
        dropWhile_append_of_stop hdigit]
      split <;> rfl
    · rfl

/-- Cuts off the digits and the point of a number. -/
def cutMantissa (cs : List Char) : List Char × List Char :=
  match cs.dropWhile isDigit with
  | '.' :: more =>
    if (cs.takeWhile isDigit).isEmpty && (more.takeWhile isDigit).isEmpty then ([], cs)
    else (cs.takeWhile isDigit ++ '.' :: more.takeWhile isDigit, more.dropWhile isDigit)
  | rest => (cs.takeWhile isDigit, rest)

theorem cutMantissa_of_point {more : List Char} (h : cs.dropWhile isDigit = '.' :: more) :
    cutMantissa cs =
      if (cs.takeWhile isDigit).isEmpty && (more.takeWhile isDigit).isEmpty then ([], cs)
      else (cs.takeWhile isDigit ++ '.' :: more.takeWhile isDigit, more.dropWhile isDigit) := by
  unfold cutMantissa
  split
  · rename_i hmore
    rw [h] at hmore
    obtain rfl := (List.cons.inj hmore).2
    rfl
  · rename_i hne
    exact absurd h (hne _)

theorem cutMantissa_of_whole (h : ∀ more, cs.dropWhile isDigit ≠ '.' :: more) :
    cutMantissa cs = (cs.takeWhile isDigit, cs.dropWhile isDigit) := by
  unfold cutMantissa
  split
  · rename_i hmore
    exact absurd hmore (h _)
  · rfl

/-- A number is a mantissa and an exponent behind it, if there is one. -/
theorem cutNumber?_eq (cs : List Char) : cutNumber? cs =
    if (cutMantissa cs).1.isEmpty then none
    else some ((cutMantissa cs).1 ++ (cutExponent (cutMantissa cs).2).1,
      (cutExponent (cutMantissa cs).2).2) := by
  unfold cutNumber?
  dsimp only
  split
  · rename_i hmore
    rw [cutMantissa_of_point hmore]
  · rename_i hne
    rw [cutMantissa_of_whole hne]

theorem cutMantissa_append (hc : isBoundary c = true) :
    cutMantissa (cs ++ c :: ds) = ((cutMantissa cs).1, (cutMantissa cs).2 ++ c :: ds) := by
  have hdigit := not_isDigit_of_isBoundary hc
  have hdrop : (cs ++ c :: ds).dropWhile isDigit = cs.dropWhile isDigit ++ c :: ds :=
    dropWhile_append_of_stop hdigit
  by_cases hpoint : ∃ more, cs.dropWhile isDigit = '.' :: more
  · obtain ⟨more, hmore⟩ := hpoint
    rw [cutMantissa_of_point hmore, cutMantissa_of_point (by rw [hdrop, hmore, List.cons_append]),
      takeWhile_append_of_stop hdigit, takeWhile_append_of_stop hdigit,
      dropWhile_append_of_stop hdigit]
    split <;> rfl
  · push Not at hpoint
    rw [cutMantissa_of_whole hpoint, cutMantissa_of_whole, takeWhile_append_of_stop hdigit, hdrop]
    intro more hmore
    rw [hdrop] at hmore
    cases hrest : cs.dropWhile isDigit with
    | nil =>
      rw [hrest] at hmore
      exact (isBoundary_iff.1 hc).2.1 (List.cons.inj hmore).1
    | cons d rest =>
      rw [hrest] at hmore
      obtain rfl := (List.cons.inj hmore).1
      exact hpoint rest hrest

/-- The number in front of a boundary does not depend on what follows. -/
theorem cutNumber?_append (hc : isBoundary c = true) : cutNumber? (cs ++ c :: ds) =
    (cutNumber? cs).map fun (lexeme, more) => (lexeme, more ++ c :: ds) := by
  rw [cutNumber?_eq, cutNumber?_eq, cutMantissa_append hc, cutExponent_append hc]
  split <;> rfl

theorem firstToken_append (hc : isBoundary c = true) :
    firstToken d (rest ++ c :: ds) = firstToken d rest := by
  rw [firstToken, firstToken, ← List.cons_append, cutNumber?_append hc,
    takeWhile_append_of_stop (isBoundary_iff.1 hc).1]
  cases cutNumber? (d :: rest) <;> rfl

/-! ### Lengths of tokens -/

theorem cutExponent_eq (cs : List Char) : (cutExponent cs).1 ++ (cutExponent cs).2 = cs := by
  cases cs with
  | nil => rfl
  | cons e rest =>
    rw [cutExponent]
    split
    · have hsign : ∃ more, rest = (rest.takeWhile fun c => c == '+' || c == '-').take 1 ++ more :=
        ((List.take_prefix _ _).trans (List.takeWhile_prefix _)).imp fun _ => Eq.symm
      obtain ⟨more, hmore⟩ := hsign
      generalize (rest.takeWhile fun c => c == '+' || c == '-').take 1 = sign at hmore ⊢
      dsimp only
      split
      · rfl
      · rw [hmore, List.drop_left, List.append_assoc, List.takeWhile_append_dropWhile,
          List.cons_append]
    · rfl

theorem cutMantissa_eq (cs : List Char) : (cutMantissa cs).1 ++ (cutMantissa cs).2 = cs := by
  rw [cutMantissa]
  split
  · rename_i more hmore
    split
    · rfl
    · rw [List.append_assoc, List.cons_append, List.takeWhile_append_dropWhile, ← hmore,
        List.takeWhile_append_dropWhile]
  · exact List.takeWhile_append_dropWhile

theorem eq_of_cutNumber? {lexeme more : List Char} (h : cutNumber? cs = some (lexeme, more)) :
    cs = lexeme ++ more := by
  rw [cutNumber?_eq] at h
  split at h
  · cases h
  · cases h
    rw [List.append_assoc, cutExponent_eq, cutMantissa_eq]

theorem firstToken_le (h : firstToken d rest = .ok (t, n)) : n ≤ (d :: rest).length := by
  unfold firstToken at h
  split at h
  · cases h
    simp
  · split at h
    · cases h
      exact Nat.max_le.2 ⟨by simp, (List.takeWhile_prefix _).length_le⟩
    · split at h
      · cases h
      · rename_i lexeme more hcut
        split at h
        · cases h
          have hlength := congrArg List.length (eq_of_cutNumber? hcut)
          rw [List.length_append] at hlength
          exact Nat.max_le.2 ⟨by simp, by omega⟩
        · cases h

/-! ### Texts cut at boundaries -/

theorem scans_nil : Scans [] ts ↔ ts = [] := by
  constructor
  · intro h
    have hscan := h 0
    rw [scanFrom] at hscan
    cases hscan
    rfl
  · rintro rfl offset
    rw [scanFrom]

/-- The tokens do not depend on where the text stands. -/
theorem scans_of_scanFrom {offset : ℕ} (h : scanFrom offset cs = .ok ts) : Scans cs ts := by
  fun_induction scanFrom offset cs generalizing ts with
  | case1 =>
    cases h
    exact scans_nil.2 rfl
  | case2 offset c rest hgap ih => exact scans_gap hgap (ih h)
  | case3 => cases h
  | case4 offset c rest hgap token n hfirst ih =>
    obtain ⟨us, hus, h⟩ := bind_eq_ok.1 h
    cases h
    exact scans_token (Bool.eq_false_of_not_eq_true hgap) hfirst (ih hus)

theorem scan_eq_ok_iff {source : String} : scan source = .ok ts ↔ Scans source.toList ts :=
  ⟨scans_of_scanFrom, fun h => h 0⟩

theorem scans_gap_iff (hc : isGap c = true) : Scans (c :: cs) ts ↔ Scans cs ts := by
  refine ⟨fun h => ?_, scans_gap hc⟩
  have hscan := h 0
  rw [scanFrom, if_pos hc] at hscan
  exact scans_of_scanFrom hscan

/-- A text that does not begin with a gap begins with its first token. -/
theorem scans_token_iff (hc : isGap c = false) : Scans (c :: cs) ts ↔
    ∃ t n us, firstToken c cs = .ok (t, n) ∧ ts = t :: us ∧ Scans ((c :: cs).drop n) us := by
  constructor
  · intro h
    have hscan := h 0
    rw [scanFrom, if_neg (by simp [hc])] at hscan
    split at hscan
    · cases hscan
    · rename_i t n hfirst
      obtain ⟨us, hus, h⟩ := bind_eq_ok.1 hscan
      cases h
      exact ⟨t, n, us, hfirst, rfl, scans_of_scanFrom hus⟩
  · rintro ⟨t, n, us, hfirst, rfl, h⟩
    exact scans_token hc hfirst h

theorem scans_symbol_iff (hc : symbol? c = some t) :
    Scans (c :: cs) ts ↔ ∃ us, ts = t :: us ∧ Scans cs us := by
  have hfirst : firstToken c cs = .ok (t, 1) := by rw [firstToken, hc]
  rw [scans_token_iff (isGap_of_symbol? hc), hfirst]
  constructor
  · rintro ⟨_, _, us, ⟨⟩, rfl, h⟩
    exact ⟨us, rfl, h⟩
  · rintro ⟨us, rfl, h⟩
    exact ⟨t, 1, us, rfl, rfl, h⟩

/-- A text is cut at a boundary into what its two sides are cut into. -/
theorem scans_append_iff (hc : isBoundary c = true) : Scans (cs ++ c :: ds) ts ↔
    ∃ us vs, ts = us ++ vs ∧ Scans cs us ∧ Scans (c :: ds) vs := by
  -- On the length: a token takes as many characters as it has.
  induction hn : cs.length using Nat.strong_induction_on generalizing cs ts with
  | _ n ih =>
    subst hn
    cases cs with
    | nil => simp [scans_nil]
    | cons d rest =>
      rw [List.cons_append]
      by_cases hgap : isGap d = true
      · simp only [scans_gap_iff hgap]
        exact ih rest.length (by simp) rfl
      · rw [Bool.not_eq_true] at hgap
        simp only [scans_token_iff hgap, firstToken_append hc]
        constructor
        · rintro ⟨t, n, us, hfirst, rfl, h⟩
          have hpos := firstToken_pos hfirst
          rw [← List.cons_append, List.drop_append_of_le_length (firstToken_le hfirst),
            ih _ (by rw [List.length_drop, List.length_cons]; omega) rfl] at h
          obtain ⟨vs, ws, rfl, hvs, hws⟩ := h
          exact ⟨t :: vs, ws, rfl, ⟨t, n, vs, hfirst, rfl, hvs⟩, hws⟩
        · rintro ⟨_, ws, rfl, ⟨t, n, vs, hfirst, rfl, hvs⟩, hws⟩
          have hpos := firstToken_pos hfirst
          refine ⟨t, n, vs ++ ws, hfirst, rfl, ?_⟩
          rw [← List.cons_append, List.drop_append_of_le_length (firstToken_le hfirst),
            ih _ (by rw [List.length_drop, List.length_cons]; omega) rfl]
          exact ⟨vs, ws, rfl, hvs, hws⟩

/-- Texts with a separator between them are cut into their tokens with its token between them. -/
theorem scans_intercalate_iff (hc : isBoundary c = true) (ht : symbol? c = some t)
    {texts : List (List Char)} (hne : texts ≠ []) : Scans ([c].intercalate texts) ts ↔
      ∃ groups, List.Forall₂ Scans texts groups ∧ ts = [t].intercalate groups := by
  induction texts generalizing ts with
  | nil => exact absurd rfl hne
  | cons text texts ih =>
    cases texts with
    | nil => simp [List.forall₂_cons_left_iff]
    | cons next texts =>
      rw [List.intercalate_cons_cons, List.append_assoc, List.singleton_append,
        scans_append_iff hc]
      simp only [scans_symbol_iff ht, ih (List.cons_ne_nil _ _)]
      constructor
      · rintro ⟨us, _, rfl, hus, _, rfl, groups, hgroups, rfl⟩
        refine ⟨us :: groups, .cons hus hgroups, ?_⟩
        obtain ⟨group, groups, -, -, rfl⟩ := List.forall₂_cons_left_iff.1 hgroups
        simp
      · rintro ⟨_, hgroups, rfl⟩
        obtain ⟨us, groups, hus, hgroups', rfl⟩ := List.forall₂_cons_left_iff.1 hgroups
        refine ⟨us, _, ?_, hus, _, rfl, groups, hgroups', rfl⟩
        obtain ⟨group, groups', -, -, rfl⟩ := List.forall₂_cons_left_iff.1 hgroups'
        simp

end
end MarkovFit.Proofs
