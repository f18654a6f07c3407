/-!
# Paths

A path is a text whose parts stand between slashes. It begins at the root if it begins
with a slash, else in the working directory. Empty parts and single dots lead nowhere;
only a dot at the very front of a relative path still counts as a part.
-/

namespace Corelink.Path

/-- What stands between two slashes. -/
abbrev Part := List Char

/-- The parts of a text, empty ones included. -/
def split : List Char → List Part
  | [] => [[]]
  | c :: cs =>
    if c = '/' then [] :: split cs
    else
      match split cs with
      | [] => [[c]]
      | p :: ps => (c :: p) :: ps

/-- Parts with slashes between. -/
def joinParts : List Part → List Char
  | [] => []
  | [p] => p
  | p :: ps => p ++ '/' :: joinParts ps

def parts (path : String) : List Part :=
  split path.toList

def isAbsolute (path : String) : Bool :=
  path.toList.head? = some '/'

/-- The path of these parts. -/
def render (absolute : Bool) (ps : List Part) : String :=
  String.ofList ((if absolute then ['/'] else []) ++ joinParts ps)

/-- The parts of a path after the slash it begins with, if it does: `render` gives the path back. -/
def body (path : String) : List Part :=
  if isAbsolute path then (parts path).tail else parts path

/-- Whether a part leads from a directory to itself. -/
def idle (p : Part) : Bool :=
  p = [] || p = ['.']

/-- Whether `p` counts as a part behind the parts `before`. -/
def counts (absolute : Bool) (p : Part) (before : List Part) : Bool :=
  !idle p || (p = ['.'] && before.isEmpty && !absolute)

/-- Parts, last first, from the last one on that counts. -/
def fromLast (absolute : Bool) : List Part → List Part
  | [] => []
  | p :: before => if counts absolute p before then p :: before else fromLast absolute before

/-- The path as written up to the part that counts before the last such part, if there is a
last one. -/
def parent? (path : String) : Option String :=
  match fromLast (isAbsolute path) (body path).reverse with
  | [] => none
  | _ :: before => some (render (isAbsolute path) (fromLast (isAbsolute path) before).reverse)

example : parent? "a/.//b/./" = some "a" ∧ parent? "a/./b//c" = some "a/./b" ∧
    parent? "./a" = some "." ∧ parent? "./." = some "" ∧ parent? "/" = none := by decide +kernel

/-- `child` as seen from `base`, which an absolute child ignores. -/
def under (base child : String) : String :=
  if isAbsolute child || base.isEmpty then child
  else if base.toList.getLast? = some '/' then base ++ child
  else base ++ "/" ++ child

/-- The parts before the last one, and the last one, slashes at the end aside. -/
def splitLast (path : String) : List Part × Part :=
  match (parts path).reverse.dropWhile (·.isEmpty) with
  | [] => ([], [])
  | p :: ps => (ps.reverse, p)

/-- Whether a slash stands at the end. -/
def endsInSlash (path : String) : Bool :=
  path.toList.getLast? = some '/'

end Corelink.Path
