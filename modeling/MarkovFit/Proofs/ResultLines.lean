import MarkovFit.Oracle.Line
import MarkovFit.Proofs.Outcomes
import Mathlib.Data.List.DropRight

/-!
# Result lines

A line carries a tag if it begins with the tag and a colon. It is a result if a number, a colon and a
value follow. Blanks at the end of a line, such as the carriage return of a foreign line end, make no
difference to either.
-/

namespace MarkovFit.Proofs

open Oracle Text

/-! ### Cutting text -/

theorem after?_eq_some_iff {front cs rest : List Char} :
    after? front cs = some rest ↔ cs = front ++ rest := by
  fun_induction after? front cs with
  | case1 cs => rw [Option.some_inj, List.nil_append]
  | case2 f front => exact iff_of_false nofun nofun
  | case3 front c cs ih => rw [ih, List.cons_append, List.cons_inj_right]
  | case4 f front c cs hne =>
    refine iff_of_false nofun fun h => hne ?_
    exact (List.cons.inj h).1.symm

theorem stripFront?_eq_some_iff {front s rest : String} :
    stripFront? front s = some rest ↔ s = front ++ rest := by
  rw [stripFront?, Option.map_eq_some_iff, ← String.toList_inj, String.toList_append]
  constructor
  · rintro ⟨cs, hcs, rfl⟩
    rw [String.toList_ofList]
    exact after?_eq_some_iff.1 hcs
  · intro h
    exact ⟨rest.toList, after?_eq_some_iff.2 h, String.ofList_toList⟩

theorem cutAt?_eq_some_iff {separator : Char} {cs before after : List Char} :
    cutAt? (· == separator) cs = some (before, after) ↔
      separator ∉ before ∧ cs = before ++ separator :: after := by
  induction cs generalizing before with
  | nil =>
    refine iff_of_false nofun fun h => ?_
    exact List.append_ne_nil_of_right_ne_nil _ (List.cons_ne_nil _ _) h.2.symm
  | cons c cs ih =>
    rw [cutAt?]
    by_cases hc : c = separator
    · rw [if_pos (by simpa using hc), Option.some_inj, Prod.mk.injEq, hc]
      constructor
      · rintro ⟨rfl, rfl⟩
        exact ⟨List.not_mem_nil, rfl⟩
      · rintro ⟨hbefore, h⟩
        cases before with
        | nil => exact ⟨rfl, (List.cons.inj h).2⟩
        | cons d before =>
          obtain rfl := (List.cons.inj h).1
          exact absurd List.mem_cons_self hbefore
    · rw [if_neg (by simpa using hc), Option.map_eq_some_iff]
      constructor
      · rintro ⟨⟨front, rest⟩, hfront, heq⟩
        obtain ⟨rfl, rfl⟩ := Prod.mk.inj heq
        obtain ⟨hnotMem, rfl⟩ := ih.1 hfront
        refine ⟨fun hmem => ?_, rfl⟩
        rcases List.mem_cons.1 hmem with rfl | hmem
        · exact hc rfl
        · exact hnotMem hmem
      · rintro ⟨hbefore, h⟩
        cases before with
        | nil => exact absurd (List.cons.inj h).1 hc
        | cons d before =>
          obtain ⟨rfl, hcs⟩ := List.cons.inj h
          have hbefore : separator ∉ before := fun hmem => hbefore (List.mem_cons_of_mem _ hmem)
          exact ⟨(before, after), ih.2 ⟨hbefore, hcs⟩, rfl⟩

/-- What stands before the first colon and after it. -/
theorem splitOnce?_colon_eq_some_iff {s before after : String} :
    splitOnce? ':' s = some (before, after) ↔ ':' ∉ before.toList ∧ s = before ++ ":" ++ after := by
  have hs : s = before ++ ":" ++ after ↔ s.toList = before.toList ++ ':' :: after.toList := by
    rw [← String.toList_inj, String.toList_append, String.toList_append, List.append_assoc]
    rfl
  rw [splitOnce?, Option.map_eq_some_iff, hs]
  constructor
  · rintro ⟨⟨front, rest⟩, hcut, heq⟩
    obtain ⟨rfl, rfl⟩ := Prod.mk.inj heq
    simpa using cutAt?_eq_some_iff.1 hcut
  · intro h
    exact ⟨(before.toList, after.toList), cutAt?_eq_some_iff.2 h, by simp⟩

/-! ### Blanks at the end -/

theorem trimRight_append {c : Char} (hc : isBlank c = false) (cs ds : List Char) :
    trimRight (cs ++ c :: ds) = cs ++ c :: trimRight ds := by
  have hreverse : (cs ++ c :: ds).reverse = ds.reverse ++ c :: cs.reverse := by simp
  rw [trimRight, trimRight, hreverse, List.dropWhile_append,
    List.dropWhile_cons_of_neg (by simp [hc])]
  split
  · rename_i h
    rw [List.isEmpty_iff.1 h]
    simp
  · simp

theorem exists_eq_trimRight_append (cs : List Char) :
    ∃ blanks, (∀ c ∈ blanks, isBlank c = true) ∧ cs = trimRight cs ++ blanks := by
  refine ⟨(cs.reverse.takeWhile isBlank).reverse, ?_, ?_⟩
  · intro c hc
    exact List.mem_takeWhile_imp (List.mem_reverse.1 hc)
  · rw [trimRight, ← List.reverse_append, List.takeWhile_append_dropWhile, List.reverse_reverse]

theorem trimRight_append_blanks {blanks : List Char} (hblanks : ∀ c ∈ blanks, isBlank c = true)
    (cs : List Char) : trimRight (cs ++ blanks) = trimRight cs := by
  rw [trimRight, List.reverse_append, List.dropWhile_append_of_pos (by simpa using hblanks)]
  rfl

theorem trimChars_append_blanks {blanks : List Char} (hblanks : ∀ c ∈ blanks, isBlank c = true)
    (cs : List Char) : trimChars (cs ++ blanks) = trimChars cs := by
  rw [trimChars, trimLeft, List.dropWhile_append]
  split
  · rename_i hempty
    have hnil : trimLeft cs = [] := List.isEmpty_iff.1 hempty
    rw [trimChars, hnil, List.dropWhile_eq_nil_iff.2 hblanks]
  · exact trimRight_append_blanks hblanks _

/-- Blanks at the end make no difference to an answer. -/
theorem read_append_blanks {blanks : String} (hblanks : ∀ c ∈ blanks.toList, isBlank c = true)
    (s : String) : Answer.read (s ++ blanks) = Answer.read s := by
  have htrim : trim (s ++ blanks) = trim s := by
    rw [trim, trim, String.toList_append, trimChars_append_blanks hblanks]
  rw [Answer.read, htrim]
  rfl

/-- A text is its trimmed form and blanks after it, which no answer sees. -/
theorem exists_eq_trimEnd_append (s : String) : ∃ blanks : String, s = trimEnd s ++ blanks ∧
    ∀ t, Answer.read (t ++ blanks) = Answer.read t := by
  obtain ⟨blanks, hblanks, hs⟩ := exists_eq_trimRight_append s.toList
  refine ⟨String.ofList blanks, ?_, ?_⟩
  · rw [← String.toList_inj, String.toList_append, trimEnd, String.toList_ofList,
      String.toList_ofList]
    exact hs
  · apply read_append_blanks
    rwa [String.toList_ofList]

/-! ### Lines with a tag -/

variable {tag line : String}

/-- The line begins with the tag and a colon. -/
def IsTagged (tag line : String) : Prop := (tag ++ ":").toList <+: line.toList

instance : DecidablePred (IsTagged tag) :=
  fun line => inferInstanceAs (Decidable ((tag ++ ":").toList <+: line.toList))

/-- The line is a result: the tag, a number and a value, with colons between them. -/
def IsResult (tag line : String) (id : Nat) (value : Answer) : Prop :=
  ∃ idText valueText : String, line = tag ++ ":" ++ idText ++ ":" ++ valueText ∧
    ':' ∉ idText.toList ∧ readId? idText = some id ∧ Answer.read valueText = .ok value

theorem isTagged_iff : IsTagged tag line ↔ ∃ rest, line = tag ++ ":" ++ rest := by
  constructor
  · rintro ⟨rest, hrest⟩
    refine ⟨String.ofList rest, String.toList_inj.1 ?_⟩
    rw [String.toList_append, String.toList_ofList, hrest]
  · rintro ⟨rest, rfl⟩
    exact ⟨rest.toList, (String.toList_append).symm⟩

theorem IsResult.isTagged {id : Nat} {value : Answer} (h : IsResult tag line id value) :
    IsTagged tag line := by
  obtain ⟨idText, valueText, rfl, -⟩ := h
  exact isTagged_iff.2 ⟨idText ++ ":" ++ valueText, by simp only [String.append_assoc]⟩

/-- The end of a line is trimmed behind its last character that is no blank, as a colon is none. -/
theorem trimEnd_colon_append (before after : String) :
    trimEnd (before ++ ":" ++ after) = before ++ ":" ++ trimEnd after := by
  have hsplit : ∀ rest : String,
      (before ++ ":" ++ rest).toList = before.toList ++ ':' :: rest.toList := by
    intro rest
    rw [String.toList_append, String.toList_append, List.append_assoc]
    rfl
  rw [← String.toList_inj, hsplit, trimEnd, trimEnd, String.toList_ofList, String.toList_ofList,
    hsplit, trimRight_append rfl]

theorem isTagged_trimEnd : IsTagged tag (trimEnd line) ↔ IsTagged tag line := by
  constructor
  · rintro ⟨rest, hrest⟩
    obtain ⟨blanks, hline, -⟩ := exists_eq_trimEnd_append line
    have hchars : line.toList = (trimEnd line).toList ++ blanks.toList := by
      rw [← String.toList_append, ← hline]
    rw [IsTagged, hchars, ← hrest, List.append_assoc]
    exact List.prefix_append _ _
  · intro h
    obtain ⟨rest, rfl⟩ := isTagged_iff.1 h
    exact isTagged_iff.2 ⟨trimEnd rest, trimEnd_colon_append tag rest⟩

theorem isResult_trimEnd {id : Nat} {value : Answer} :
    IsResult tag (trimEnd line) id value ↔ IsResult tag line id value := by
  obtain ⟨blanks, hline, hread⟩ := exists_eq_trimEnd_append line
  constructor
  · rintro ⟨idText, valueText, htrim, hcolon, hid, hvalue⟩
    refine ⟨idText, valueText ++ blanks, ?_, hcolon, hid, by rw [hread, hvalue]⟩
    rw [hline, htrim]
    simp only [String.append_assoc]
  · rintro ⟨idText, valueText, rfl, hcolon, hid, hvalue⟩
    refine ⟨idText, trimEnd valueText, trimEnd_colon_append _ _, hcolon, hid, ?_⟩
    obtain ⟨blanks, hvalueText, hread⟩ := exists_eq_trimEnd_append valueText
    rw [← hread, ← hvalueText, hvalue]

/-! ### Reading lines -/

theorem readFields?_eq_some_iff {rest : String} {id : Nat} {value : Answer} :
    readFields? rest = some (id, value) ↔ ∃ idText valueText : String,
      rest = idText ++ ":" ++ valueText ∧ ':' ∉ idText.toList ∧ readId? idText = some id ∧
        Answer.read valueText = .ok value := by
  constructor
  · intro h
    obtain ⟨⟨idText, valueText⟩, hsplit, h⟩ := Option.bind_eq_some_iff.1 h
    obtain ⟨id, hid, h⟩ := Option.bind_eq_some_iff.1 h
    obtain ⟨value, hvalue, h⟩ := Option.bind_eq_some_iff.1 h
    cases h
    obtain ⟨hcolon, hrest⟩ := splitOnce?_colon_eq_some_iff.1 hsplit
    exact ⟨idText, valueText, hrest, hcolon, hid, toOption_eq_some.1 hvalue⟩
  · rintro ⟨idText, valueText, hrest, hcolon, hid, hvalue⟩
    have hsplit := splitOnce?_colon_eq_some_iff.2 ⟨hcolon, hrest⟩
    refine Option.bind_eq_some_iff.2 ⟨_, hsplit, Option.bind_eq_some_iff.2 ⟨id, hid, ?_⟩⟩
    exact Option.bind_eq_some_iff.2 ⟨value, toOption_eq_some.2 hvalue, rfl⟩

/-- A line is passed over exactly if it does not carry the tag. -/
theorem readResult?_eq_none_iff : readResult? tag line = none ↔ ¬IsTagged tag line := by
  rw [readResult?, Option.map_eq_none_iff, ← isTagged_trimEnd, isTagged_iff,
    Option.eq_none_iff_forall_ne_some]
  simp only [ne_eq, stripFront?_eq_some_iff, not_exists]

/-- A line is read as a number and a value exactly if it is that result. -/
theorem readResult?_eq_ok_iff {id : Nat} {value : Answer} :
    readResult? tag line = some (.ok (id, value)) ↔ IsResult tag line id value := by
  rw [readResult?, Option.map_eq_some_iff, ← isResult_trimEnd]
  constructor
  · rintro ⟨rest, hrest, hok⟩
    have hline := stripFront?_eq_some_iff.1 hrest
    have hfields : readFields? rest = some (id, value) := by
      split at hok
      · rename_i result hresult
        cases hok
        exact hresult
      · cases hok
    obtain ⟨idText, valueText, rfl, h⟩ := readFields?_eq_some_iff.1 hfields
    exact ⟨idText, valueText, by rw [hline]; simp only [String.append_assoc], h⟩
  · rintro ⟨idText, valueText, hline, h⟩
    refine ⟨idText ++ ":" ++ valueText, stripFront?_eq_some_iff.2 ?_, ?_⟩
    · rw [hline]
      simp only [String.append_assoc]
    · rw [readFields?_eq_some_iff.2 ⟨idText, valueText, rfl, h⟩]

theorem IsResult.unique {id id' : Nat} {value value' : Answer} (h : IsResult tag line id value)
    (h' : IsResult tag line id' value') : id = id' ∧ value = value' := by
  have hread := readResult?_eq_ok_iff.2 h
  rw [readResult?_eq_ok_iff.2 h'] at hread
  cases hread
  exact ⟨rfl, rfl⟩

end MarkovFit.Proofs
