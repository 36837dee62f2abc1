import MarkovFit.LinearProgram.Basic
import MarkovFit.Decimal.Binary
import MarkovFit.Program

/-!
# The backend that runs Octave

The program is written to files, Octave solves it with `glpk` and prints three tagged lines: the
error number, the status and the values of the unknowns.
-/

namespace MarkovFit.Octave

open Text

/-- The program to run, unless another one is named. -/
def defaultProgram : String := "octave"

/-- Texts separated by commas. -/
def commaList (values : List Decimal) : String :=
  ",".intercalate (values.map Decimal.shortText)

/-- The rows, one a line. -/
def matrixText (p : LinearProgram) : String :=
  String.join (p.rows.map fun row => commaList row.coefficients ++ "\n")

/-- The bounds of the rows, one a line. -/
def vectorText (p : LinearProgram) : String :=
  String.join (p.rows.map fun row => row.bound.shortText ++ "\n")

/-- A letter for each row: it has a lower or an upper bound. -/
def rowTypes (p : LinearProgram) : String :=
  String.ofList (p.rows.map fun row => match row.sense with | .atLeast => 'L' | .atMost => 'U')

/-- An end of an interval. -/
def endText (infinity : String) : Option Decimal → String
  | none => infinity
  | some d => d.shortText

def senseText : Direction → String
  | .min => "1"
  | .max => "-1"

/-- The path of a file in a directory. -/
def inside (directory file : String) : String := directory ++ "/" ++ file

def matrixPath (directory : String) : String := inside directory "lpproblemMatrixA.dat"
def vectorPath (directory : String) : String := inside directory "lpproblemVectorB.dat"
def rowTypePath (directory : String) : String := inside directory "lpproblemCtype.dat"
def scriptPath (directory : String) : String := inside directory "lpproblem.m"

/-- The commands that load the files, solve the program and print the result. -/
def script (directory : String) (p : LinearProgram) : String :=
  String.join [
    "format long;\n",
    "function str = myfun(vec)\n\tstr = sprintf(',%.20f',vec);\n\tstr = str(2:end);\nend\n",
    "sense = ", senseText p.direction, ";\n",
    "c = [", commaList p.objective, "];\n",
    "A = load('", matrixPath directory, "');\n",
    "b = load('", vectorPath directory, "');\n",
    "ctype = fileread('", rowTypePath directory, "');\n",
    "vartype = \"", String.ofList (p.unknowns.map fun _ => 'C'), "\";\n",
    "lb = [", ";".intercalate (p.intervals.map fun i => endText "-Inf" i.lower), "];\n",
    "ub = [", ";".intercalate (p.intervals.map fun i => endText "Inf" i.upper), "];\n",
    "param.msglev=0;\nparam.lpsolver=1;\n",
    "[opt_var, opt_value, errnum, extra] = ",
    "glpk (c, A, b, lb, ub, ctype, vartype, sense, param);\n",
    "fprintf('errnum:%d\\n', errnum);\n",
    "fprintf('extra.status:%d\\n', extra.status);\n",
    "fprintf('opt_var:%s\\n', myfun(opt_var));\n"]

/-- The files that Octave reads, by path. -/
def files (directory : String) (p : LinearProgram) : List (String × String) :=
  [(matrixPath directory, matrixText p), (vectorPath directory, vectorText p),
    (rowTypePath directory, rowTypes p), (scriptPath directory, script directory p)]

def invocation (program : Option String) (directory : String) (p : LinearProgram) : Invocation :=
  { program := program.getD defaultProgram
    arguments := ["--no-gui", "--no-history", "--no-window-system", "--silent",
      "--no-line-editing", scriptPath directory]
    files := files directory p }

/-- The rest of the first line that starts with a tag and a colon. -/
def tagged? (output tag : String) : Option String :=
  (lines output).findSome? fun line => (stripFront? (tag ++ ":") line).map trim

/-- A number in decimal notation, or as a double. -/
def readValue? (s : String) : Option Decimal :=
  (Decimal.parse? s).or ((Double.read? s).bind Decimal.ofFloat?)

/-- Statuses that come with a solution: feasible and optimal. -/
def acceptedStatuses : List String := ["2", "5"]

/-- The values separated by commas. -/
def readValues (s : String) : Except Failure (List Decimal) :=
  (pieces ',' s).mapM fun piece =>
    match readValue? (trim piece) with
    | some value => .ok value
    | none => .error (.lp (.unparseableValue piece))

/-- Reads the output. Without both tagged numbers, with an error number, or with another status
there is no solution. -/
def readOutput (output : String) (unknowns : Nat) : Except Failure (Option (List Decimal)) :=
  match tagged? output "errnum", tagged? output "extra.status" with
  | some errnum, some status =>
    if errnum ≠ "0" then .ok none
    else if !acceptedStatuses.contains status then .ok none
    else
      match tagged? output "opt_var" with
      | none => .error (.lp .noValueLine)
      | some line => do
        let values ← readValues line
        if values.length = unknowns then return some values
        else throw (.lp (.wrongValueCount values.length unknowns))
  | _, _ => .ok none

/-- The result of a run. A program that ends with a failure has found nothing. -/
def readOutcome (p : LinearProgram) : Outcome → Except Failure (Option (List Decimal))
  | .refused reason => .error (.io "running Octave" reason)
  | .late => .error (.timeout 0)
  | .finished output =>
    if output.status ≠ 0 then .ok none else readOutput output.text p.unknowns.length

/-- The backend. -/
def solver {m : Type → Type} [Monad m] (host : Host m) (program : Option String) : LpSolver m :=
  { name := "octave"
    solve := fun p => do
      let outcome ← host.run (invocation program host.scratch p)
      return readOutcome p outcome }

end MarkovFit.Octave
