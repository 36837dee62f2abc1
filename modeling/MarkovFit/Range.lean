import MarkovFit.Answer

/-!
# Ranges of answers

The least and the greatest answer met so far, each with the constants of a sample that gave it.
Ranges of several workers are merged; on a tie the witness that sorts first stays, so the order of
merging does not show.
-/

namespace MarkovFit

/-- One end of a range with the constants that produced it. -/
structure Bound where
  value : Answer
  witness : List Constant
deriving DecidableEq, Repr

/-- The least and the greatest answer. -/
structure Range where
  lower : Bound
  upper : Bound
deriving DecidableEq, Repr

namespace Bound

/-- Of two bounds the one whose value compares as `prefer` with the other's; of equal ones the one
whose witness sorts first. -/
def pick (a b : Bound) (prefer : Ordering) : Bound :=
  let order := a.value.compare b.value
  if order = .eq then if Constant.listLt b.witness a.witness then b else a
  else if order = prefer then a
  else b

def document (b : Bound) : Document :=
  .record [("value", b.value.document), ("witness", .list (b.witness.map Constant.document))]

end Bound

namespace Range

/-- The range of a single answer. -/
def single (value : Answer) (witness : List Constant) : Range :=
  ⟨⟨value, witness⟩, ⟨value, witness⟩⟩

/-- The range widened to an answer. An equal answer changes nothing. -/
def observe (r : Range) (value : Answer) (witness : List Constant) : Range :=
  { lower := if value < r.lower.value then ⟨value, witness⟩ else r.lower
    upper := if r.upper.value < value then ⟨value, witness⟩ else r.upper }

/-- The least range around two ranges. -/
def merge (a b : Range) : Range :=
  { lower := a.lower.pick b.lower .lt
    upper := a.upper.pick b.upper .gt }

/-- The least range around some ranges, if there is one at least. -/
def mergeAll : List Range → Option Range
  | [] => none
  | r :: rs => some (rs.foldl merge r)

/-- The text of a range with its witnesses. -/
def text (r : Range) : String :=
  s!"[{r.lower.value}, {r.upper.value}] (lower at {Constant.listText r.lower.witness}; " ++
    s!"upper at {Constant.listText r.upper.witness})"

def document (r : Range) : Document :=
  .record [("lower", r.lower.document), ("upper", r.upper.document)]

end Range
end MarkovFit
