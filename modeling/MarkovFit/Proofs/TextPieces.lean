import MarkovFit.Text.Pieces

/-!
# Pieces and lines

The pieces of a text are its list of characters split at the separator. Texts that are put together
with separators between them, or with a line feed after each, are found again if none of them has a
separator of its own.
-/

namespace MarkovFit.Proofs

open Text

theorem splitAll_eq_splitOn (separator : Char) (cs : List Char) :
    splitAll separator cs = cs.splitOn separator := by
  induction cs with
  | nil => rfl
  | cons c cs ih =>
    rw [splitAll, List.splitOn_cons_eq_if_modifyHead, ih]
    by_cases hc : c = separator
    · rw [if_pos hc, if_pos (by simpa using hc)]
    · rw [if_neg hc, if_neg (by simpa using hc)]
      split
      · rename_i piece pieces hsplit
        rw [hsplit, List.modifyHead_cons]
      · rename_i hsplit
        exact absurd hsplit (List.splitOn_ne_nil _ _)

theorem pieces_eq (separator : Char) (s : String) :
    pieces separator s = (s.toList.splitOn separator).map String.ofList := by
  rw [pieces, splitAll_eq_splitOn]

theorem pieces_of_not_mem {separator : Char} {s : String} (h : separator ∉ s.toList) :
    pieces separator s = [s] := by
  have hsplit : s.toList.splitOn separator = [s.toList] := by
    have hall : ∀ cs ∈ [s.toList], separator ∉ cs := by simpa using h
    simpa using List.splitOn_intercalate separator hall (List.cons_ne_nil _ _)
  rw [pieces_eq, hsplit, List.map_singleton, String.ofList_toList]

theorem not_mem_of_mem_splitOn {separator : Char} {cs piece : List Char}
    (h : piece ∈ cs.splitOn separator) : separator ∉ piece := by
  induction cs generalizing piece with
  | nil =>
    obtain rfl : piece = [] := by simpa using h
    exact List.not_mem_nil
  | cons c cs ih =>
    rw [List.splitOn_cons_eq_if_modifyHead] at h
    split at h
    · rcases List.mem_cons.1 h with rfl | h
      · exact List.not_mem_nil
      · exact ih h
    · rename_i hc
      cases hsplit : cs.splitOn separator with
      | nil => exact absurd hsplit (List.splitOn_ne_nil _ _)
      | cons first pieces =>
        rw [hsplit, List.modifyHead_cons] at h
        rw [hsplit] at ih
        rcases List.mem_cons.1 h with rfl | h
        · have hne : separator ≠ c := fun heq => hc (by simp [heq])
          rw [List.mem_cons, not_or]
          exact ⟨hne, ih List.mem_cons_self⟩
        · exact ih (List.mem_cons_of_mem _ h)

/-! ### Parts with separators between them -/

theorem intercalate_cons_eq {α : Type} (separator : α) (group : List α) (groups : List (List α)) :
    [separator].intercalate (group :: groups) = group ++ groups.flatMap (separator :: ·) := by
  induction groups generalizing group with
  | nil => simp
  | cons next groups ih => simp [ih]

theorem infix_intercalate {α : Type} {separator : α} {group : List α} {groups : List (List α)}
    (h : group ∈ groups) : group <:+: [separator].intercalate groups := by
  cases groups with
  | nil => cases h
  | cons first groups =>
    rw [intercalate_cons_eq]
    rcases List.mem_cons.1 h with rfl | h
    · exact (List.prefix_append _ _).isInfix
    · obtain ⟨before, after, rfl⟩ := List.append_of_mem h
      refine ⟨first ++ before.flatMap (separator :: ·) ++ [separator],
        after.flatMap (separator :: ·), ?_⟩
      simp

theorem mem_intercalate_cases {α : Type} {separator x : α} {groups : List (List α)}
    (h : x ∈ [separator].intercalate groups) : x = separator ∨ ∃ group ∈ groups, x ∈ group := by
  cases groups with
  | nil => simp at h
  | cons first groups =>
    rw [intercalate_cons_eq, List.mem_append, List.mem_flatMap] at h
    rcases h with h | ⟨group, hgroup, h⟩
    · exact .inr ⟨first, List.mem_cons_self, h⟩
    · rcases List.mem_cons.1 h with rfl | h
      · exact .inl rfl
      · exact .inr ⟨group, List.mem_cons_of_mem _ hgroup, h⟩

/-- Parts that are not empty and have no separator can be read off the text in which they are joined;
no parts at all are joined to the empty text. -/
theorem intercalate_inj {separator : Char} {parts parts' : List (List Char)}
    (h : ∀ part ∈ parts, part ≠ [] ∧ separator ∉ part)
    (h' : ∀ part ∈ parts', part ≠ [] ∧ separator ∉ part) :
    [separator].intercalate parts = [separator].intercalate parts' ↔ parts = parts' := by
  refine ⟨fun heq => ?_, fun heq => heq ▸ rfl⟩
  have hnil : ∀ {parts : List (List Char)}, (∀ part ∈ parts, part ≠ [] ∧ separator ∉ part) →
      [separator].intercalate parts = [] → parts = [] := by
    intro parts h hempty
    cases parts with
    | nil => rfl
    | cons part parts =>
      rw [intercalate_cons_eq, List.append_eq_nil_iff] at hempty
      exact absurd hempty.1 (h part List.mem_cons_self).1
  by_cases hparts : parts = []
  · subst hparts
    exact (hnil h' heq.symm).symm
  by_cases hparts' : parts' = []
  · subst hparts'
    exact hnil h heq
  have hsplit := List.splitOn_intercalate separator (fun part hpart => (h part hpart).2) hparts
  rw [heq, List.splitOn_intercalate separator (fun part hpart => (h' part hpart).2) hparts'] at hsplit
  exact hsplit.symm

/-! ### Lines -/

/-- A text without a line end, also of a foreign kind. -/
def Unbroken (text : String) : Prop := ∀ c ∈ text.toList, c ≠ '\n' ∧ c ≠ '\r'

/-- Texts with a separator after each of them are split into these texts and nothing after the last
separator. -/
theorem splitOn_flatMap {separator : Char} {texts : List (List Char)}
    (h : ∀ text ∈ texts, separator ∉ text) :
    (texts.flatMap (· ++ [separator])).splitOn separator = texts ++ [[]] := by
  induction texts with
  | nil => rfl
  | cons text texts ih =>
    rw [List.flatMap_cons, List.append_assoc, List.singleton_append,
      List.splitOn_append_cons_self_of_not_mem (h text List.mem_cons_self),
      ih fun other hother => h other (List.mem_cons_of_mem _ hother), List.cons_append]

theorem dropReturn_of_unbroken {text : String} (h : Unbroken text) :
    dropReturn text.toList = text.toList := by
  rw [dropReturn, if_neg]
  intro hlast
  exact (h '\r' (List.mem_of_mem_getLast? hlast)).2 rfl

/-- The lines of a text that is put together from lines. -/
theorem lines_join {texts : List String} (h : ∀ text ∈ texts, Unbroken text) :
    lines (String.join (texts.map (· ++ "\n"))) = texts := by
  have hchars : (String.join (texts.map (· ++ "\n"))).toList =
      (texts.map String.toList).flatMap (· ++ ['\n']) := by
    rw [String.toList_join, List.flatMap_map, List.flatMap_map]
    simp
  have hsplit : splitAll '\n' (String.join (texts.map (· ++ "\n"))).toList =
      texts.map String.toList ++ [[]] := by
    rw [splitAll_eq_splitOn, hchars, splitOn_flatMap]
    rw [List.forall_mem_map]
    exact fun text htext hmem => (h text htext '\n' hmem).1 rfl
  have hkept : (texts.map String.toList).map dropReturn = texts.map String.toList := by
    rw [List.map_map]
    exact List.map_congr_left fun text htext => dropReturn_of_unbroken (h text htext)
  rw [lines, hsplit]
  simp [hkept]

end MarkovFit.Proofs
