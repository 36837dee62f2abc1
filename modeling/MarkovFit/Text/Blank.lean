/-!
# Blanks

The characters of the Unicode property White_Space, and the functions that cut text at them.
-/

namespace MarkovFit.Text

/-- Whether a character has the property White_Space. -/
def isBlank (c : Char) : Bool :=
  (0x09 ≤ c.val && c.val ≤ 0x0D) || c.val == 0x20 || c.val == 0x85 || c.val == 0xA0 ||
    c.val == 0x1680 || (0x2000 ≤ c.val && c.val ≤ 0x200A) || c.val == 0x2028 ||
    c.val == 0x2029 || c.val == 0x202F || c.val == 0x205F || c.val == 0x3000

/-- Without the blanks at the front. -/
def trimLeft (cs : List Char) : List Char := cs.dropWhile isBlank

/-- Without the blanks at the end. -/
def trimRight (cs : List Char) : List Char := (cs.reverse.dropWhile isBlank).reverse

/-- Without the blanks at both ends. -/
def trimChars (cs : List Char) : List Char := trimRight (trimLeft cs)

theorem length_trimChars_le (cs : List Char) : (trimChars cs).length ≤ cs.length := by
  simp only [trimChars, trimRight, trimLeft, List.length_reverse]
  refine Nat.le_trans (List.dropWhile_sublist _).length_le ?_
  simpa using (List.dropWhile_sublist _).length_le

/-- Without the blanks at both ends. -/
def trim (s : String) : String := String.ofList (trimChars s.toList)

/-- Without the blanks at the end. -/
def trimEnd (s : String) : String := String.ofList (trimRight s.toList)

/-- The first maximal run of characters that are no blanks, if there is one. -/
def firstWord? (s : String) : Option String :=
  match (trimLeft s.toList).takeWhile (fun c => !isBlank c) with
  | [] => none
  | word => some (String.ofList word)

end MarkovFit.Text
