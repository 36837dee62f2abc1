/-!
# Pieces of text

Cutting text at a character, at a marker and into lines.
-/

namespace MarkovFit.Text

/-- What stands before and after the first occurrence of a character that satisfies `p`. -/
def cutAt? (p : Char → Bool) : List Char → Option (List Char × List Char)
  | [] => none
  | c :: rest =>
    if p c then some ([], rest) else (cutAt? p rest).map fun (before, after) => (c :: before, after)

/-- The parts after the cut are no longer than what is left beside the separator. -/
theorem length_of_cutAt? {p : Char → Bool} {cs before after : List Char}
    (h : cutAt? p cs = some (before, after)) : before.length + after.length + 1 = cs.length := by
  induction cs generalizing before with
  | nil => simp [cutAt?] at h
  | cons c rest ih =>
    simp only [cutAt?] at h
    split at h
    · obtain ⟨rfl, rfl⟩ := Prod.mk.inj (Option.some.inj h)
      simp
    · obtain ⟨⟨b, a⟩, hba, heq⟩ := Option.map_eq_some_iff.1 h
      obtain ⟨rfl, rfl⟩ := Prod.mk.inj heq
      have := ih hba
      simp only [List.length_cons] at *
      omega

/-- What stands before and after the first occurrence of a character. -/
def splitOnce? (separator : Char) (s : String) : Option (String × String) :=
  (cutAt? (· == separator) s.toList).map fun (before, after) =>
    (String.ofList before, String.ofList after)

/-- All pieces between the occurrences of a character; one more than there are occurrences. -/
def splitAll (separator : Char) : List Char → List (List Char)
  | [] => [[]]
  | c :: rest =>
    if c = separator then [] :: splitAll separator rest
    else
      match splitAll separator rest with
      | piece :: pieces => (c :: piece) :: pieces
      | [] => [[c]]

/-- The pieces of a text between the occurrences of a character. -/
def pieces (separator : Char) (s : String) : List String :=
  (splitAll separator s.toList).map String.ofList

/-- A line without the carriage return at its end. -/
def dropReturn (cs : List Char) : List Char :=
  if cs.getLast? = some '\r' then cs.dropLast else cs

/-- The lines of a text. A line ends with a line feed, which may follow a carriage return; the last
line may lack its end and then keeps a carriage return. -/
def lines (s : String) : List String :=
  let parts := splitAll '\n' s.toList
  let ended := parts.dropLast.map dropReturn
  match parts.getLast? with
  | none | some [] => ended.map String.ofList
  | some last => (ended ++ [last]).map String.ofList

/-- What follows the front `front` of `cs`, if `cs` begins with it. -/
def after? : List Char → List Char → Option (List Char)
  | [], cs => some cs
  | _ :: _, [] => none
  | f :: front, c :: cs => if f = c then after? front cs else none

/-- What follows `front`, if the text begins with it. -/
def stripFront? (front s : String) : Option String :=
  (after? front.toList s.toList).map String.ofList

/-- What follows the first occurrence of `marker`. -/
def afterFirst? (marker : List Char) : List Char → Option (List Char)
  | [] => after? marker []
  | c :: cs =>
    match after? marker (c :: cs) with
    | some rest => some rest
    | none => afterFirst? marker cs

end MarkovFit.Text
