import MarkovFit.LinearProgram.System

/-!
# Tableaus

A tableau holds the equations of a dual program in the form that belongs to a basis: one line for
each unknown of the primal program, and the line of reduced costs. Its columns are the inequalities
of the primal program, then one artificial column for each unknown, then the right-hand side. Phase
one makes the sum of the artificial columns zero, phase two moves along the edges of what remains.
-/

namespace MarkovFit

open Scalar

/-- The entries of a line; the last one is the right-hand side. -/
abbrev TableauLine (α : Type) (width : Nat) := Vector α (width + 1)

namespace TableauLine

variable {α : Type} [Scalar α] {width : Nat}

/-- The right-hand side. -/
def rhs (l : TableauLine α width) : α := l.get (Fin.last width)

/-- The entry of a column. -/
def entry (l : TableauLine α width) (c : Fin width) : α := l.get c.castSucc

/-- The line less a multiple of another one. -/
def reduce (line : TableauLine α width) (f : α) (other : TableauLine α width) :
    TableauLine α width :=
  if isZero f then line else line.zipWith (fun v pv => v - f * pv) other

/-- A right-hand side below zero is made zero. -/
def clamp (line : TableauLine α width) : TableauLine α width :=
  if lt line.rhs 0 then line.set width 0 (Nat.lt_succ_self width) else line

end TableauLine

/-- Lines, the basic column of each, and the reduced costs. -/
structure Tableau (α : Type) (n width : Nat) where
  lines : Vector (TableauLine α width) n
  basis : Vector (Fin width) n
  cost : TableauLine α width

/-- What a tableau does next. -/
inductive Move (n width : Nat) where
  | optimal
  | unbounded
  | pivot (line : Fin n) (column : Fin width)

namespace Tableau

variable {α : Type} [Scalar α] {n width : Nat}

/-- Reduced costs above its negative count as optimal. -/
def optimalityTolerance : α := ofDecimal (Decimal.unit 9)

/-- The part of the largest entry of a column that a pivot has to exceed. -/
def pivotTolerance : α := ofDecimal (Decimal.unit 9)

/-- What the ratio test grants in favour of larger pivots. -/
def ratioTolerance : α := ofDecimal (Decimal.unit 11)

/-- The number of degenerate moves in a row after which the lowest indices are taken. -/
def degenerateStreak : Nat := 50

/-- Divides a line by its entry in a column, which becomes basic, and clears the other entries. -/
def pivot (t : Tableau α n width) (r : Fin n) (c : Fin width) : Tableau α n width :=
  let p := (t.lines.get r).entry c
  let pivotLine := (t.lines.get r).map (· / p)
  { lines := Vector.ofFn fun i =>
      if i = r then pivotLine
      else (t.lines.get i).reduce ((t.lines.get i).entry c) pivotLine
    basis := t.basis.set r.val c r.isLt
    cost := t.cost.reduce (t.cost.entry c) pivotLine }

/-- Makes right-hand sides below zero zero. -/
def clamp (t : Tableau α n width) : Tableau α n width :=
  { t with lines := t.lines.map TableauLine.clamp }

/-- The columns before `limit` whose reduced cost promises a gain. -/
def improving (t : Tableau α n width) (limit : Nat) : List (Fin width) :=
  (List.finRange width).filter fun j =>
    j.val < limit && lt (t.cost.entry j) (-optimalityTolerance)

/-- The column that enters the basis: the first one with the most negative cost, or with `lowest`
the first of all. -/
def entering? (t : Tableau α n width) (limit : Nat) (lowest : Bool) : Option (Fin width) :=
  if lowest then (t.improving limit).head?
  else firstLeast? t.cost.entry (t.improving limit)

/-- The largest magnitude in a column. -/
def columnSize (t : Tableau α n width) (c : Fin width) : α :=
  t.lines.foldl (fun acc line => larger acc (magnitude (line.entry c))) 0

/-- The lines whose entry in a column can be a pivot. -/
def eligible (t : Tableau α n width) (c : Fin width) : List (Fin n) :=
  let threshold := pivotTolerance * larger (t.columnSize c) 1
  (List.finRange n).filter fun i => lt threshold ((t.lines.get i).entry c)

/-- How far a column can grow before a line becomes negative. -/
def ratio (t : Tableau α n width) (c : Fin width) (i : Fin n) : α :=
  larger 0 (t.lines.get i).rhs / (t.lines.get i).entry c

/-- The same with a little slack. -/
def slackRatio (t : Tableau α n width) (c : Fin width) (i : Fin n) : α :=
  (larger 0 (t.lines.get i).rhs + ratioTolerance) / (t.lines.get i).entry c

/-- The line whose basic column leaves: among the lines within the slack the last one with the
largest pivot, or with `lowest` the one with the lowest basic column among those of least ratio. -/
def leaving? (t : Tableau α n width) (c : Fin width) (lowest : Bool) : Option (Fin n) :=
  let lines := t.eligible c
  if lowest then do
    let least ← least? (lines.map (t.ratio c))
    let ties := lines.filter fun i => le (t.ratio c i) (least + ratioTolerance)
    match ties with
    | [] => none
    | i :: is =>
      some (is.foldl (fun best j => if t.basis.get j < t.basis.get best then j else best) i)
  else do
    let bound ← least? (lines.map (t.slackRatio c))
    lastGreatest? (fun i => (t.lines.get i).entry c)
      (lines.filter fun i => le (t.ratio c i) bound)

/-- The next move over the columns before `limit`. -/
def next (t : Tableau α n width) (limit : Nat) (lowest : Bool) : Move n width :=
  match t.entering? limit lowest with
  | none => .optimal
  | some c =>
    match t.leaving? c lowest with
    | none => .unbounded
    | some r => .pivot r c

/-- The tableau after a move. -/
def advance (t : Tableau α n width) (r : Fin n) (c : Fin width) : Tableau α n width :=
  (t.pivot r c).clamp

/-- The number of degenerate moves in a row after a move at a line. -/
def streakAfter (t : Tableau α n width) (r : Fin n) (streak : Nat) : Nat :=
  if le (t.lines.get r).rhs ratioTolerance then streak + 1 else 0

/-- How a phase ends. -/
inductive Ending (α : Type) (n width : Nat) where
  | optimal (tableau : Tableau α n width)
  | unbounded (tableau : Tableau α n width)
  | outOfPivots

/-- Moves until no column gains, or until none of `pivots` moves is left. -/
def optimize (limit : Nat) :
    Nat → Nat → Tableau α n width → Ending α n width
  | 0, _, _ => .outOfPivots
  | pivots + 1, streak, t =>
    match t.next limit (degenerateStreak ≤ streak) with
    | .optimal => .optimal t
    | .unbounded => .unbounded t
    | .pivot r c => optimize limit pivots (t.streakAfter r streak) (t.advance r c)

end Tableau
end MarkovFit
