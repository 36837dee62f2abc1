import MarkovFit.Expr.Token
import MarkovFit.Proofs.DecimalText
import MarkovFit.Proofs.Outcomes
import Mathlib.Data.List.TakeWhile

/-!
# The text of tokens

Characters spell tokens if they are cut into these tokens in front of anything that cannot go on
with the last word. Names and decimals without a minus sign spell themselves, and no other ones come
out of a text.
-/

namespace MarkovFit.Proofs

open MarkovFit.Expr Decimal Text

/-! ### Spelling -/

/-- No word goes on with these characters. -/
def Clear (cs : List Char) : Prop := ∀ c ∈ cs.head?, isIdentRest c = false ∧ c ≠ '.'

/-- Wherever they stand in a text, the characters are cut into these tokens. -/
def Scans (cs : List Char) (ts : List Token) : Prop := ∀ offset, scanFrom offset cs = .ok ts

/-- The characters are cut into the tokens, whatever stands after them. -/
def Spells (cs : List Char) (ts : List Token) : Prop :=
  ∀ rest us, Clear rest → Scans rest us → Scans (cs ++ rest) (ts ++ us)

section

variable {c : Char} {cs ds : List Char} {t : Token} {ts us : List Token}

theorem clear_nil : Clear [] := by
  intro c hc
  cases hc

theorem clear_cons : Clear (c :: cs) ↔ isIdentRest c = false ∧ c ≠ '.' := by
  simp [Clear]

theorem scan_eq_ok_of_spells {s : String} (h : Spells s.toList ts) : scan s = .ok ts := by
  have hnil : Scans [] [] := by
    intro offset
    rw [scanFrom]
  have hscans := h [] [] clear_nil hnil
  rw [List.append_nil, List.append_nil] at hscans
  exact hscans 0

theorem scans_gap (hc : isGap c = true) (h : Scans cs ts) : Scans (c :: cs) ts := by
  intro offset
  rw [scanFrom, if_pos hc]
  exact h _

theorem scans_token {n : Nat} (hc : isGap c = false) (ht : firstToken c cs = .ok (t, n))
    (h : Scans ((c :: cs).drop n) ts) : Scans (c :: cs) (t :: ts) := by
  intro offset
  rw [scanFrom, if_neg (by simp [hc])]
  split
  · rename_i herror
    rw [ht] at herror
    cases herror
  · rename_i token k hok
    rw [ht] at hok
    cases hok
    rw [h]
    rfl

theorem spells_nil : Spells [] [] := fun _ _ _ h => h

theorem Spells.append (h : Spells cs ts) (h' : Spells ds us)
    (hclear : ∀ rest, Clear rest → Clear (ds ++ rest)) : Spells (cs ++ ds) (ts ++ us) := by
  intro rest vs hrest hscans
  rw [List.append_assoc, List.append_assoc]
  exact h _ _ (hclear rest hrest) (h' rest vs hrest hscans)

theorem spells_gap_cons (hc : isGap c = true) (h : Spells cs ts) : Spells (c :: cs) ts :=
  fun rest us hrest hscans => scans_gap hc (h rest us hrest hscans)

theorem isGap_of_symbol? (h : symbol? c = some t) : isGap c = false := by
  unfold symbol? at h
  split at h
  case h_9 => cases h
  all_goals rfl

theorem clear_of_symbol? (h : symbol? c = some t) : Clear (c :: cs) := by
  rw [clear_cons]
  unfold symbol? at h
  split at h
  case h_9 => cases h
  all_goals decide

theorem spells_symbol_cons (hc : symbol? c = some t) (h : Spells cs ts) :
    Spells (c :: cs) (t :: ts) := by
  intro rest us hrest hscans
  have htoken : firstToken c (cs ++ rest) = .ok (t, 1) := by rw [firstToken, hc]
  exact scans_token (isGap_of_symbol? hc) htoken (h rest us hrest hscans)

theorem Spells.symbol (h : Spells cs ts) (hc : symbol? c = some t) (h' : Spells ds us) :
    Spells (cs ++ c :: ds) (ts ++ t :: us) :=
  h.append (spells_symbol_cons hc h') fun _ _ => clear_of_symbol? hc

theorem Spells.spaced_symbol (h : Spells cs ts) (hc : symbol? c = some t) (h' : Spells ds us) :
    Spells (cs ++ ' ' :: c :: ' ' :: ds) (ts ++ t :: us) := by
  refine h.append (spells_gap_cons rfl (spells_symbol_cons hc (spells_gap_cons rfl h'))) ?_
  intro rest _
  exact clear_cons.2 (by decide)

theorem Spells.parenthesize (h : Spells cs ts) :
    Spells ('(' :: cs ++ [')']) (.leftParen :: ts ++ [.rightParen]) :=
  spells_symbol_cons rfl (h.symbol rfl spells_nil)

/-! ### Names -/

theorem isGap_of_isIdentRest (h : isIdentRest c = true) : isGap c = false := by
  by_contra hgap
  obtain (((rfl | rfl) | rfl) | rfl) | rfl : (((c = ' ' ∨ c = '\t') ∨ c = '\r') ∨ c = '\n') ∨
      c = '\x0c' := by
    simpa only [isGap, Bool.not_eq_false, Bool.or_eq_true, beq_iff_eq] using hgap
  all_goals exact absurd h (by decide)

theorem symbol?_of_isIdentRest (h : isIdentRest c = true) : symbol? c = none := by
  unfold symbol?
  split
  case h_9 => rfl
  all_goals exact absurd h (by decide)

/-- Characters that are the first token of any text they stand in front of. -/
theorem spells_word (hc : isIdentRest c = true)
    (hfirst : ∀ rest, Clear rest → firstToken c (cs ++ rest) = .ok (t, (c :: cs).length)) :
    Spells (c :: cs) [t] := by
  intro rest us hrest hscans
  refine scans_token (isGap_of_isIdentRest hc) (hfirst rest hrest) ?_
  change Scans ((c :: cs ++ rest).drop (c :: cs).length) us
  rw [List.drop_left]
  exact hscans


/-- A letter or an underscore, then letters, underscores and digits. -/
def IsName (cs : List Char) : Prop :=
  ∃ c rest, cs = c :: rest ∧ isIdentStart c = true ∧ ∀ d ∈ rest, isIdentRest d = true

theorem IsName.isIdentRest (h : IsName cs) : ∀ c ∈ cs, Expr.isIdentRest c = true := by
  obtain ⟨c, rest, rfl, hc, hrest⟩ := h
  refine List.forall_mem_cons.2 ⟨?_, hrest⟩
  rw [Expr.isIdentRest, hc, Bool.true_or]

theorem not_of_clear {p : Char → Bool} (hp : ∀ c, p c = true → isIdentRest c = true)
    (h : Clear (c :: cs)) : ¬p c = true := by
  intro hc
  have hclear := (clear_cons.1 h).1
  rw [hp c hc] at hclear
  cases hclear

theorem takeWhile_of_clear {p : Char → Bool} (hp : ∀ c, p c = true → isIdentRest c = true)
    (hcs : ∀ c ∈ cs, p c = true) (hds : Clear ds) : (cs ++ ds).takeWhile p = cs := by
  rw [List.takeWhile_append_of_pos hcs]
  cases ds with
  | nil => simp
  | cons d ds =>
    rw [List.takeWhile_cons_of_neg (not_of_clear hp hds), List.append_nil]

theorem dropWhile_of_clear {p : Char → Bool} (hp : ∀ c, p c = true → isIdentRest c = true)
    (hcs : ∀ c ∈ cs, p c = true) (hds : Clear ds) : (cs ++ ds).dropWhile p = ds := by
  rw [List.dropWhile_append_of_pos hcs]
  cases ds with
  | nil => rfl
  | cons d ds =>
    rw [List.dropWhile_cons_of_neg (not_of_clear hp hds)]

theorem spells_name {name : String} (h : IsName name.toList) :
    Spells name.toList [.ident name] := by
  have hall := h.isIdentRest
  obtain ⟨c, cs, hname, hc, -⟩ := h
  rw [hname] at hall
  have hfirst := hall c List.mem_cons_self
  rw [hname]
  refine spells_word hfirst ?_
  intro rest hrest
  have hlength : Nat.max 1 (c :: cs).length = (c :: cs).length := Nat.max_eq_right (by simp)
  have htake := takeWhile_of_clear (fun _ h => h) hall hrest
  rw [List.cons_append] at htake
  rw [firstToken, symbol?_of_isIdentRest hfirst]
  dsimp only
  rw [if_pos hc, htake, ← hname, String.ofList_toList, hname, hlength]

/-! ### Numbers -/

theorem isIdentRest_of_isDigit (h : isDigit c = true) : isIdentRest c = true := by
  rw [isIdentRest, h, Bool.or_true]

theorem not_isIdentStart_of_isDigit (h : isDigit c = true) : ¬isIdentStart c = true := by
  have hdigit := isDigit_iff.1 h
  simp [isIdentStart, UInt32.le_iff_toNat_le]
  refine ⟨⟨by omega, by omega⟩, ?_⟩
  rintro rfl
  exact absurd h (by decide)

theorem cutExponent_of_clear (h : Clear cs) : cutExponent cs = ([], cs) := by
  cases cs with
  | nil => rfl
  | cons c cs =>
    rw [cutExponent, if_neg]
    rintro (rfl | rfl)
    · exact absurd (clear_cons.1 h).1 (by decide)
    · exact absurd (clear_cons.1 h).1 (by decide)

/-- The text of a decimal is cut off as a whole. -/
theorem cutNumber?_magnitudeChars (a : Decimal) (h : Clear cs) :
    cutNumber? (a.magnitudeChars ++ cs) = some (a.magnitudeChars, cs) := by
  have hdigit : ∀ d, isDigit d = true → isIdentRest d = true := fun d => isIdentRest_of_isDigit
  obtain ⟨whole, fraction, hne, hwhole, hfraction, heq | heq⟩ := magnitudeChars_shape a
  · rw [heq, cutNumber?, takeWhile_of_clear hdigit hwhole h, dropWhile_of_clear hdigit hwhole h]
    have hpoint : ∀ more, cs ≠ '.' :: more := by
      rintro more rfl
      exact (clear_cons.1 h).2 rfl
    simp [hne, cutExponent_of_clear h]
  · have htake : (whole ++ '.' :: (fraction ++ cs)).takeWhile isDigit = whole := by
      rw [List.takeWhile_append_of_pos hwhole, List.takeWhile_cons_of_neg (by decide),
        List.append_nil]
    have hdrop : (whole ++ '.' :: (fraction ++ cs)).dropWhile isDigit =
        '.' :: (fraction ++ cs) := by
      rw [List.dropWhile_append_of_pos hwhole, List.dropWhile_cons_of_neg (by decide)]
    have htake' := takeWhile_of_clear hdigit hfraction h
    have hdrop' := dropWhile_of_clear hdigit hfraction h
    rw [heq, List.append_assoc, List.cons_append, cutNumber?]
    simp [htake, hdrop, htake', hdrop', hne, cutExponent_of_clear h]

theorem spells_number {a : Decimal} (h : a.negative = false) :
    Spells a.magnitudeChars [.number a] := by
  obtain ⟨c, cs, hcs, hc⟩ := exists_magnitudeChars_eq_cons a
  rw [hcs]
  refine spells_word (isIdentRest_of_isDigit hc) ?_
  intro rest hrest
  have hlength : Nat.max 1 (c :: cs).length = (c :: cs).length := Nat.max_eq_right (by simp)
  have hcut := cutNumber?_magnitudeChars a hrest
  rw [hcs, List.cons_append] at hcut
  rw [firstToken, symbol?_of_isIdentRest (isIdentRest_of_isDigit hc)]
  dsimp only
  rw [if_neg (not_isIdentStart_of_isDigit hc), hcut]
  dsimp only
  rw [← hcs, read_magnitudeChars h, hcs]
  dsimp only
  rw [hlength]

/-! ### Tokens of a text -/

/-- A token that a text can have: a number has no minus sign, a name is one. -/
def Writable : Token → Prop
  | .number v => v.negative = false
  | .ident name => IsName name.toList
  | _ => True

/-- The characters of numbers. -/
def isNumberChar (c : Char) : Bool := isDigit c || ['.', 'e', 'E', '+', '-'].contains c

theorem isNumberChar_of_isDigit (h : isDigit c = true) : isNumberChar c = true := by
  rw [isNumberChar, h, Bool.true_or]

theorem isBlank_of_isNumberChar (h : isNumberChar c = true) : isBlank c = false := by
  simp only [isNumberChar, Bool.or_eq_true] at h
  rcases h with hdigit | hother
  · obtain ⟨hle, hge⟩ := isDigit_iff.1 hdigit
    exact isBlank_eq_false (by omega) (by omega)
  · simp at hother
    rcases hother with rfl | rfl | rfl | rfl | rfl <;> rfl

theorem isBlank_of_isIdentRest (h : isIdentRest c = true) : isBlank c = false := by
  have hvisible : 0x21 ≤ c.toNat ∧ c.toNat ≤ 0x7E := by
    simp only [isIdentRest, isIdentStart, Bool.or_eq_true, Bool.and_eq_true, decide_eq_true_eq,
      beq_iff_eq, isDigit_iff, UInt32.le_iff_toNat_le] at h
    rcases h with ((⟨hlower, hupper⟩ | ⟨hlower, hupper⟩) | rfl) | ⟨hlower, hupper⟩
    · exact ⟨le_trans (by decide) hlower, le_trans hupper (by decide)⟩
    · exact ⟨le_trans (by decide) hlower, le_trans hupper (by decide)⟩
    · decide
    · omega
  exact isBlank_eq_false hvisible.1 hvisible.2

theorem isNumberChar_of_mem_cutExponent (h : c ∈ (cutExponent cs).1) : isNumberChar c = true := by
  cases cs with
  | nil => cases h
  | cons e rest =>
    rw [cutExponent] at h
    split at h
    · rename_i he
      dsimp only at h
      split at h
      · cases h
      · rw [List.cons_append, List.mem_cons, List.mem_append] at h
        rcases h with rfl | hsign | hdigit
        · rcases he with rfl | rfl <;> rfl
        · have hsign := List.mem_takeWhile_imp (List.mem_of_mem_take hsign)
          simp only [Bool.or_eq_true, beq_iff_eq] at hsign
          rcases hsign with rfl | rfl <;> rfl
        · exact isNumberChar_of_isDigit (List.mem_takeWhile_imp hdigit)
    · cases h

/-- The characters of a number without a minus sign in front. -/
def IsLexeme (cs : List Char) : Prop :=
  (∀ c ∈ cs, isNumberChar c = true) ∧ cs.head? ≠ some '-'

theorem isLexeme_of_digits (h : ∀ c ∈ cs, isDigit c = true) : IsLexeme cs := by
  refine ⟨fun c hc => isNumberChar_of_isDigit (h c hc), ?_⟩
  intro hhead
  exact absurd (h _ (List.mem_of_mem_head? hhead)) (by decide)

theorem IsLexeme.append (h : IsLexeme cs) (hne : cs ≠ [])
    (hds : ∀ c ∈ ds, isNumberChar c = true) : IsLexeme (cs ++ ds) := by
  constructor
  · intro c hc
    rcases List.mem_append.1 hc with hc | hc
    · exact h.1 c hc
    · exact hds c hc
  · rw [List.head?_append_of_ne_nil _ hne]
    exact h.2

theorem isLexeme_point (hcs : ∀ c ∈ cs, isDigit c = true) (hds : ∀ c ∈ ds, isDigit c = true) :
    IsLexeme (cs ++ '.' :: ds) := by
  have htail : ∀ c ∈ '.' :: ds, isNumberChar c = true := by
    intro c hc
    rcases List.mem_cons.1 hc with rfl | hc
    · rfl
    · exact isNumberChar_of_isDigit (hds c hc)
  by_cases hne : cs = []
  · subst hne
    exact ⟨htail, by simp⟩
  · exact (isLexeme_of_digits hcs).append hne htail

theorem negative_of_read_lexeme {v : Decimal} (h : IsLexeme cs)
    (hread : Decimal.read (String.ofList cs) = .ok v) : v.negative = false := by
  rw [Decimal.read, mapError_eq_ok, String.toList_ofList,
    trimChars_eq_self fun c hc => isBlank_of_isNumberChar (h.1 c hc)] at hread
  refine negative_of_readTrimmed ?_ h.2 hread
  rintro c hc rfl
  exact absurd (h.1 _ hc) (by decide)

theorem isLexeme_exponent {lexeme rest : List Char} (h : IsLexeme cs)
    (hcut : (if cs.isEmpty then none else some (cs ++ (cutExponent ds).1, (cutExponent ds).2)) =
      some (lexeme, rest)) : IsLexeme lexeme := by
  split at hcut
  · cases hcut
  · rename_i hne
    cases hcut
    exact h.append (by simpa using hne) fun c => isNumberChar_of_mem_cutExponent

theorem isLexeme_of_cutNumber? {lexeme rest : List Char}
    (h : cutNumber? cs = some (lexeme, rest)) : IsLexeme lexeme := by
  have hwhole : ∀ c ∈ cs.takeWhile isDigit, isDigit c = true := fun c => List.mem_takeWhile_imp
  unfold cutNumber? at h
  dsimp only at h
  split at h
  · rename_i more _
    split at h
    · cases h
    · exact isLexeme_exponent (isLexeme_point hwhole fun c => List.mem_takeWhile_imp) h
  · exact isLexeme_exponent (isLexeme_of_digits hwhole) h

theorem writable_of_firstToken {n : Nat} (h : firstToken c cs = .ok (t, n)) : Writable t := by
  unfold firstToken at h
  split at h
  · rename_i token hsymbol
    cases h
    unfold symbol? at hsymbol
    split at hsymbol <;> cases hsymbol <;> trivial
  · split at h
    · rename_i hc
      cases h
      have htake : (c :: cs).takeWhile isIdentRest = c :: cs.takeWhile isIdentRest :=
        List.takeWhile_cons_of_pos (by rw [isIdentRest, hc, Bool.true_or])
      rw [htake]
      exact ⟨c, _, String.toList_ofList, hc, fun d => List.mem_takeWhile_imp⟩
    · split at h
      · cases h
      · rename_i lexeme more hcut
        split at h
        · rename_i value hread
          cases h
          exact negative_of_read_lexeme (isLexeme_of_cutNumber? hcut) hread
        · cases h

/-- Every token of a text is the first one of what is left at some place. -/
theorem exists_firstToken_of_mem {offset : Nat} (h : scanFrom offset cs = .ok ts) (ht : t ∈ ts) :
    ∃ c rest n, c :: rest <:+ cs ∧ firstToken c rest = .ok (t, n) := by
  fun_induction scanFrom offset cs generalizing ts with
  | case1 =>
    cases h
    cases ht
  | case2 offset c rest hgap ih =>
    obtain ⟨d, ds, n, hsuffix, hfirst⟩ := ih h ht
    exact ⟨d, ds, n, hsuffix.trans (List.suffix_cons c rest), hfirst⟩
  | case3 => cases h
  | case4 offset c rest hgap token n hfirst ih =>
    obtain ⟨us, hus, h⟩ := bind_eq_ok.1 h
    cases h
    rcases List.mem_cons.1 ht with rfl | ht
    · exact ⟨c, rest, n, List.suffix_rfl, hfirst⟩
    · obtain ⟨d, ds, k, hsuffix, hfirst⟩ := ih hus ht
      exact ⟨d, ds, k, hsuffix.trans (List.drop_suffix n _), hfirst⟩

theorem writable_of_scan {source : String} (h : scan source = .ok ts) : ∀ t ∈ ts, Writable t := by
  intro t ht
  obtain ⟨c, rest, n, -, hfirst⟩ := exists_firstToken_of_mem h ht
  exact writable_of_firstToken hfirst

end
end MarkovFit.Proofs
