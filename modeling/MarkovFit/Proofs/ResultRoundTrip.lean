import MarkovFit.Proofs.DecimalForms
import MarkovFit.Proofs.ResultLines
import MarkovFit.Sample

/-!
# Values that survive a line

The short text of a decimal has no character that could make it a spelling of infinity, a fraction or
a number with an exponent. It is read as the decimal without trailing zeros, which has the same value.
Therefore an answer that is printed in a result line is read back with its value, and the constants of
a sample are the coordinates of its point.
-/

namespace MarkovFit.Proofs

open Oracle Text

/-! ### Numbers of requests -/

/-- The number of a request is read back. -/
theorem readId?_toString {id : ℕ} (h : id < 2 ^ 64) : readId? (toString id) = some id := by
  have hdigits : ∀ c ∈ (toString id).toList, isDigit c = true := fun c => isDigit_of_mem_toString
  have htrim : trim (toString id) = toString id := by
    have hplain : ∀ c ∈ (toString id).toList, isBlank c = false := fun c hc =>
      isBlank_of_isPlain (by simp [isPlain, hdigits c hc])
    rw [trim, trimChars_eq_self hplain, String.ofList_toList]
  have hsign : ∀ rest, (toString id).toList ≠ '+' :: rest := by
    intro rest hrest
    exact absurd (hdigits '+' (by rw [hrest]; exact List.mem_cons_self)) (by decide)
  rw [readId?, htrim, readNat64?, readNat?]
  · rw [List.isEmpty_eq_false_iff.2 (toList_toString_ne_nil id), List.all_eq_true.2 hdigits,
      if_neg (by decide), digitsValue_toString]
    exact if_pos h
  · exact hsign

/-! ### Answers -/

theorem lowerChars_eq_self {cs : List Char} (h : ∀ c ∈ cs, isPlain c = true) :
    Double.lowerChars cs = cs := by
  have hkeep : ∀ c ∈ cs, ¬(65 ≤ c.val ∧ c.val ≤ 90) := by
    intro c hc
    rcases isPlain_cases (h c hc) with hdigit | rfl | rfl
    · rintro ⟨hupper, -⟩
      have hle : c.toNat ≤ 57 := (isDigit_iff.1 hdigit).2
      have hge : 65 ≤ c.toNat := UInt32.le_iff_toNat_le.1 hupper
      omega
    · decide
    · decide
  rw [Double.lowerChars, List.map_congr_left fun c hc => if_neg (hkeep c hc), List.map_id']

/-- Every spelling of infinity has a letter. -/
theorem not_infinityWord {s : String} (h : ∀ c ∈ s.toList, isPlain c = true) :
    s ∉ Answer.infinityWords := by
  intro hword
  have hletter : ∀ word ∈ Answer.infinityWords, 'n' ∈ word.toList := by decide
  exact absurd (h 'n' (hletter s hword)) (by decide)

theorem readDecimal_shortText (a : Decimal) : readDecimal a.shortText = .ok a.normalize := by
  rw [readDecimal, read_shortText]
  rfl

/-- The text of an answer is read as an answer of the same value. -/
theorem exists_read_text (answer : Answer) :
    ∃ answer', Answer.read answer.text = .ok answer' ∧ answer'.compare answer = .eq := by
  cases answer with
  | infinite => exact ⟨.infinite, by decide +kernel, rfl⟩
  | finite a =>
    have hplain : ∀ c ∈ a.shortText.toList, isPlain c = true := fun c => isPlain_of_mem_text
    have htrim : trim a.shortText = a.shortText := by
      rw [trim, trimChars_eq_self fun c hc => isBlank_of_isPlain (hplain c hc),
        String.ofList_toList]
    refine ⟨.finite a.normalize, ?_, ?_⟩
    · rw [Answer.text, Answer.read, htrim]
      rw [lowerChars_eq_self hplain, String.ofList_toList, if_neg, readDecimal_shortText]
      · rfl
      · simpa using not_infinityWord hplain
    · exact (sameValue_iff_toRat_eq _ _).2 (toRat_normalize a)

/-! ### Lines and constants -/

theorem exists_isResult {tag blanks : String} {id : ℕ} (answer : Answer) (hid : id < 2 ^ 64)
    (hblanks : ∀ c ∈ blanks.toList, isBlank c = true) : ∃ answer',
      IsResult tag (tag ++ ":" ++ toString id ++ ":" ++ answer.text ++ blanks) id answer' ∧
        answer'.compare answer = .eq := by
  obtain ⟨answer', hread, hvalue⟩ := exists_read_text answer
  have hcolon : ':' ∉ (toString id).toList := fun hmem =>
    absurd (isDigit_of_mem_toString hmem) (by decide)
  refine ⟨answer', ⟨toString id, answer.text ++ blanks, ?_, hcolon, readId?_toString hid, ?_⟩, hvalue⟩
  · rw [String.append_assoc]
  · rw [read_append_blanks hblanks, hread]

/-- The constants of a sample have the names of its parameters, and they are read as its point without
trailing zeros. -/
theorem mapM_readDecimal_toConstants (sample : Sample) :
    sample.toConstants.mapM (fun c => readDecimal c.value) =
      .ok (sample.point.map Decimal.normalize) := by
  rw [Sample.toConstants, Sample.point, mapM_eq_ok, List.forall₂_map_left_iff, List.map_map,
    List.forall₂_map_right_iff, List.forall₂_same]
  exact fun x _ => readDecimal_shortText x.2

/-- Values are read back from result lines, and points from the constants of samples. -/
theorem values_survive_lines :
    (∀ (tag : String) (id : ℕ) (answer : Answer) (blanks : String), id < 2 ^ 64 →
        (∀ c ∈ blanks.toList, isBlank c = true) → ∃ answer',
          readResult? tag (tag ++ ":" ++ toString id ++ ":" ++ answer.text ++ blanks) =
              some (.ok (id, answer')) ∧
            answer'.compare answer = .eq) ∧
      ∀ sample : Sample, ∃ point : List Decimal,
        sample.toConstants.mapM (fun c => readDecimal c.value) = .ok point ∧
          List.Forall₂ Decimal.SameValue point sample.point ∧
          sample.toConstants.map Constant.name = sample.values.map Prod.fst := by
  constructor
  · intro tag id answer blanks hid hblanks
    obtain ⟨answer', hresult, hvalue⟩ := exists_isResult answer hid hblanks
    exact ⟨answer', readResult?_eq_ok_iff.2 hresult, hvalue⟩
  · intro sample
    refine ⟨_, mapM_readDecimal_toConstants sample, ?_, ?_⟩
    · rw [List.forall₂_map_left_iff, List.forall₂_same]
      exact fun a _ => (sameValue_iff_toRat_eq _ _).2 (toRat_normalize a)
    · rw [Sample.toConstants, List.map_map]
      rfl

/-- A decimal of 29 digits, all but one of them behind the point. -/
def longDecimal : Decimal := (unsigned 79228162514264337593543950335 28).neg

theorem longDecimal_survives_line : 2 ^ 64 - 1 < 2 ^ 64 ∧ ∃ answer',
    readResult? exactTag
        (exactTag ++ ":" ++ toString (2 ^ 64 - 1) ++ ":" ++ (Answer.finite longDecimal).text ++ "\r") =
      some (.ok (2 ^ 64 - 1, answer')) ∧
    answer'.compare (.finite longDecimal) = .eq :=
  ⟨by decide, values_survive_lines.1 exactTag (2 ^ 64 - 1) (.finite longDecimal) "\r" (by decide)
    (by simp [isBlank])⟩

end MarkovFit.Proofs
