/-!
# Paths

A path is a text whose pieces stand between slashes.  Nothing here looks at
files: `a/../b` and `b` are different paths.
-/

namespace Aggregation.Path

def pieces (path : String) : List String :=
  (path.toList.splitOn '/').map String.ofList

def isAbsolute (path : String) : Bool :=
  path.toList.head? = some '/'

/-- Drops the pieces at the end that name nothing; the pieces come last
first. -/
def dropIgnored : List String → List String
  | last :: before :: rest =>
    if last = "" ∨ last = "." then dropIgnored (before :: rest)
      else last :: before :: rest
  | short => short

/-- The last piece, if it names a file. -/
def fileName? (path : String) : Option String :=
  match dropIgnored (pieces path).reverse with
  | last :: _ =>
    if last = "" ∨ last = "." ∨ last = ".." then none else some last
  | [] => none

/-- What follows the last dot of the file name.  A dot that starts the name is
no such dot. -/
def extension? (path : String) : Option String :=
  (fileName? path).bind fun name =>
    let reversed := name.toList.reverse
    let after := reversed.takeWhile (· ≠ '.')
    match reversed.dropWhile (· ≠ '.') with
    | _ :: _ :: _ => some (String.ofList after.reverse)
    | _ => none

/-- The path without its last piece. -/
def parent? (path : String) : Option String :=
  match dropIgnored (pieces path).reverse with
  | [] => none
  | [""] => none
  | _ :: before =>
    let kept := dropIgnored before
    if kept = [""] then some "/" else some (String.intercalate "/" kept.reverse)

/-- A path seen from a base; an absolute one does not depend on the base. -/
def join (base path : String) : String :=
  if isAbsolute path ∨ base = "" then path
  else if base.toList.getLast? = some '/' then base ++ path
  else base ++ "/" ++ path

/-- The names that lead from the root to a path seen from a base. -/
def resolve (base : List String) (path : String) : List String :=
  (pieces path).foldl
    (fun names piece =>
      if piece = "" ∨ piece = "." then names
      else if piece = ".." then names.dropLast
      else names ++ [piece])
    (if isAbsolute path then [] else base)

end Aggregation.Path
