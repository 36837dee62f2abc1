import MarkovFit.Double.Parts

/-!
# Sources of random words

A source hands out words of 64 bits one after another. A tape is the source with prescribed words;
it stands for an arbitrary stream of draws.
-/

namespace MarkovFit

/-- A source of words of 64 bits: the next word and the source after it. -/
class RandomSource (γ : Type) where
  next : γ → UInt64 × γ

/-- A prescribed stream of words and the place that is read next. -/
structure Tape where
  word : Nat → UInt64
  position : Nat := 0

instance : RandomSource Tape :=
  ⟨fun t => (t.word t.position, { t with position := t.position + 1 })⟩

namespace RandomSource

variable {γ : Type} [RandomSource γ]

/-- A multiple of `2 ^ -52` below one, from the upper 52 bits of a word. -/
def unit52 (source : γ) : Float × γ :=
  let (w, source) := next source
  (Double.nearest false (w >>> 12).toNat (Nat.pow 2 52), source)

/-- A multiple of `2 ^ -53` below one, from the upper 53 bits of a word. -/
def unit53 (source : γ) : Float × γ :=
  let (w, source) := next source
  (Double.nearest false (w >>> 11).toNat (Nat.pow 2 53), source)

end RandomSource
end MarkovFit
