/-!
# UTF-8

Bytes of other programs are read as text. `decode` gives a character for each well-formed sequence
and nothing for each longest piece that begins a sequence and does not finish it.
-/

namespace MarkovFit.Text

/-- What the first byte of a longer sequence says: its bits, the number of bytes that follow, and
the range of the first of them. -/
def leadByte? (b : UInt8) : Option (Nat × Nat × UInt8 × UInt8) :=
  if 0xC2 ≤ b ∧ b ≤ 0xDF then some (b.toNat % 32, 1, 0x80, 0xBF)
  else if b = 0xE0 then some (0, 2, 0xA0, 0xBF)
  else if b = 0xED then some (13, 2, 0x80, 0x9F)
  else if 0xE1 ≤ b ∧ b ≤ 0xEF then some (b.toNat % 16, 2, 0x80, 0xBF)
  else if b = 0xF0 then some (0, 3, 0x90, 0xBF)
  else if 0xF1 ≤ b ∧ b ≤ 0xF3 then some (b.toNat % 8, 3, 0x80, 0xBF)
  else if b = 0xF4 then some (4, 3, 0x80, 0x8F)
  else none

/-- Reads `count` more bytes of a sequence, the first one between `lo` and `hi`: the character
number, unless the sequence breaks off, and the bytes that are left. -/
def continuation : Nat → UInt8 → UInt8 → Nat → List UInt8 → Option Nat × List UInt8
  | 0, _, _, value, bytes => (some value, bytes)
  | _ + 1, _, _, _, [] => (none, [])
  | count + 1, lo, hi, value, b :: bytes =>
    if lo ≤ b ∧ b ≤ hi then continuation count 0x80 0xBF (value * 64 + b.toNat % 64) bytes
    else (none, b :: bytes)

theorem continuation_length_le (count : Nat) (lo hi : UInt8) (value : Nat) (bytes : List UInt8) :
    (continuation count lo hi value bytes).2.length ≤ bytes.length := by
  induction count generalizing lo hi value bytes with
  | zero => simp [continuation]
  | succ count ih =>
    cases bytes with
    | nil => simp [continuation]
    | cons b bytes =>
      simp only [continuation]
      split
      · exact Nat.le_succ_of_le (ih ..)
      · exact Nat.le_refl _

/-- The characters of a text in UTF-8; nothing stands for each piece that is ill-formed. -/
def decode : List UInt8 → List (Option Char)
  | [] => []
  | b :: bytes =>
    if b < 0x80 then some (Char.ofNat b.toNat) :: decode bytes
    else
      match leadByte? b with
      | none => none :: decode bytes
      | some (value, count, lo, hi) =>
        have := continuation_length_le count lo hi value bytes
        (continuation count lo hi value bytes).1.map Char.ofNat ::
          decode (continuation count lo hi value bytes).2
termination_by bytes => bytes.length

/-- The text of some bytes, with a replacement character for each ill-formed piece. -/
def decodeLossy (bytes : List UInt8) : String :=
  String.ofList ((decode bytes).map fun c => c.getD '\uFFFD')

/-- The text of some bytes, if all of it is well-formed. -/
def decode? (bytes : List UInt8) : Option String :=
  ((decode bytes).mapM id).map String.ofList

end MarkovFit.Text
