/-!
# Paths

Paths as texts: names separated by slashes. A slash at the end changes nothing.
-/

namespace MarkovFit.Path

/-- Without the slashes at the end, but for a path of slashes alone. -/
def dropSlashes (cs : List Char) : List Char :=
  let rest := (cs.reverse.dropWhile (· == '/')).reverse
  if rest.isEmpty then cs.take 1 else rest

/-- What stands before the last slash, with that slash, and what stands behind it. -/
def splitLast (cs : List Char) : List Char × List Char :=
  let name := (cs.reverse.takeWhile (· != '/')).reverse
  (cs.take (cs.length - name.length), name)

/-- The directory of a path, if it names one. -/
def directory? (path : String) : Option String :=
  let (front, name) := splitLast (dropSlashes path.toList)
  if front.isEmpty || name.isEmpty then none else some (String.ofList (dropSlashes front))

/-- Without the last dot and what follows it; a dot at the front is part of the name. -/
def stem (name : List Char) : List Char :=
  let extension := (name.reverse.takeWhile (· != '.')).reverse
  let rest := name.take (name.length - extension.length - 1)
  if rest.isEmpty then name else rest

/-- Whether a name is the name of a file, and not empty or a step in the tree. -/
def isFileName (name : List Char) : Bool :=
  !name.isEmpty && name != ['.'] && name != ['.', '.']

/-- The path with another extension. A path without a file name stays as it is. -/
def withExtension (path extension : String) : String :=
  let (front, name) := splitLast (dropSlashes path.toList)
  if isFileName name then String.ofList (front ++ stem name ++ '.' :: extension.toList) else path

/-- A character of a quoted path. -/
def escapeChar (c : Char) : List Char :=
  if c = '\x00' then ['\\', '0']
  else if c = '\t' then ['\\', 't']
  else if c = '\n' then ['\\', 'n']
  else if c = '\r' then ['\\', 'r']
  else if c = '\'' ∨ c = '"' ∨ c = '\\' then ['\\', c]
  else if c.val < 0x20 ∨ (0x7f ≤ c.val ∧ c.val < 0xa0) then
    ['\\', 'u', '\x7b'] ++ Nat.toDigits 16 c.val.toNat ++ ['\x7d']
  else [c]

/-- A path in quotes. -/
def quoted (path : String) : String :=
  String.ofList ('"' :: path.toList.flatMap escapeChar ++ ['"'])

end MarkovFit.Path
