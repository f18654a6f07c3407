import Corelink.Files.Path
import Corelink.Text.Utf8

/-!
# File trees

Files and directories by their place in a tree, with the operations of a file system on
paths: reading a file, making a directory, writing a file. A failure of the last two
says what is left, since directories made on the way stay.
-/

namespace Corelink

/-- Why an operation on a path failed. -/
inductive FileError where
  | notFound
  | alreadyExists
  | notADirectory
  | isADirectory
  | nameTooLong
  | nulInName
  | notText
  deriving DecidableEq, Repr

def FileError.message : FileError → String
  | notFound => "No such file or directory (os error 2)"
  | alreadyExists => "File exists (os error 17)"
  | notADirectory => "Not a directory (os error 20)"
  | isADirectory => "Is a directory (os error 21)"
  | nameTooLong => "File name too long (os error 36)"
  | nulInName => "file name contained an unexpected NUL byte"
  | notText => "stream did not contain valid UTF-8"

/-- The names that lead from the root to a place. -/
abbrev Location := List Path.Part

inductive Entry where
  | file (content : Bytes)
  | directory
  deriving DecidableEq, Repr

structure FileTree where
  /-- Where relative paths begin. -/
  here : Location
  /-- What is at each place but the root, which is always a directory. -/
  entries : Location → Option Entry

namespace FileTree

/-- Nothing but the working directory. -/
def empty (here : Location) : FileTree :=
  { here, entries := fun l => if l.isPrefixOf here then some .directory else none }

def get? (t : FileTree) (l : Location) : Option Entry :=
  if l = [] then some .directory else t.entries l

def put (t : FileTree) (l : Location) (e : Entry) : FileTree :=
  { t with entries := fun m => if m = l then some e else t.entries m }

theorem get?_put {t : FileTree} {l : Location} (h : l ≠ []) (e : Entry) (m : Location) :
    (t.put l e).get? m = if m = l then some e else t.get? m := by
  unfold get? put
  split
  · rename_i hm; subst hm; rw [if_neg (Ne.symm h)]
  · rfl

/-! ### Finding a place -/

/-- The greatest size of a name, in bytes. -/
def maxNameSize : Nat := 255

/-- The least size of a path that is refused, in bytes. -/
def pathSizeLimit : Nat := 4096

def nameTooLong (p : Path.Part) : Bool :=
  Utf8.size (String.ofList p) > maxNameSize

/-- Paths that are refused as they stand. -/
def check (path : String) : Except FileError Unit :=
  if path.toList.contains '\x00' then .error .nulInName
  else if path.isEmpty then .error .notFound
  else if Utf8.size path ≥ pathSizeLimit then .error .nameTooLong
  else .ok ()

/-- Follows parts from a place; each part needs a directory to start from. -/
def follow (t : FileTree) : Location → List Path.Part → Except FileError Location
  | l, [] => .ok l
  | l, p :: ps =>
    match t.get? l with
    | none => .error .notFound
    | some (.file _) => .error .notADirectory
    | some .directory =>
      if Path.idle p then t.follow l ps
      else if p = ['.', '.'] then t.follow l.dropLast ps
      else if nameTooLong p then .error .nameTooLong
      else if (t.get? (l ++ [p])).isNone then .error .notFound
      else t.follow (l ++ [p]) ps

def start (t : FileTree) (path : String) : Location :=
  if Path.isAbsolute path then [] else t.here

/-- What a path leads to. -/
def find (t : FileTree) (path : String) : Except FileError Entry := do
  check path
  let l ← t.follow (t.start path) (Path.parts path)
  match t.get? l with
  | some e => .ok e
  | none => .error .notFound

def holds (t : FileTree) (path : String) : Bool :=
  (t.find path).toOption.isSome

def isDirectory (t : FileTree) (path : String) : Bool :=
  (t.find path).toOption = some .directory

/-- The bytes of a file. -/
def read (t : FileTree) (path : String) : Except FileError Bytes := do
  match ← t.find path with
  | .file content => .ok content
  | .directory => .error .isADirectory

/-- The text of a file. -/
def readText (t : FileTree) (path : String) : Except FileError String := do
  match Utf8.decode? (← t.read path) with
  | some s => .ok s
  | none => .error .notText

/-! ### Changing the tree -/

/-- What an operation gives and what it leaves. -/
abbrev Outcome := Except FileError Unit × FileTree

/-- The directory in which the last part of a path is to stand, and that part. -/
def findParent (t : FileTree) (path : String) : Except FileError (Location × Path.Part) := do
  check path
  let (before, name) := Path.splitLast path
  let l ← t.follow (t.start path) before
  match t.get? l with
  | some .directory => .ok (l, name)
  | some (.file _) => .error .notADirectory
  | none => .error .notFound

/-- Whether a last part names no entry of its directory. -/
def namesNoEntry (p : Path.Part) : Bool :=
  Path.idle p || p = ['.', '.']

/-- The place of a new directory. -/
def directoryPlace (t : FileTree) (path : String) : Except FileError Location := do
  let (l, name) ← t.findParent path
  if namesNoEntry name then .error .alreadyExists
  else if nameTooLong name then .error .nameTooLong
  else if (t.get? (l ++ [name])).isSome then .error .alreadyExists
  else .ok (l ++ [name])

def makeDirectory (t : FileTree) (path : String) : Outcome :=
  match t.directoryPlace path with
  | .ok l => (.ok (), t.put l .directory)
  | .error e => (.error e, t)

/-- A failure to make a directory that is there already is none. -/
def orThere (path : String) : Outcome → Outcome
  | (.error e, t) => if t.isDirectory path then (.ok (), t) else (.error e, t)
  | r => r

/-- Makes the directory of these parts, last part first, and those above it that are
missing. -/
def makeAll (t : FileTree) (absolute : Bool) : List Path.Part → Outcome
  | [] => (.ok (), t)
  | p :: before =>
    if Path.counts absolute p before then
      let path := Path.render absolute (p :: before).reverse
      match t.makeDirectory path with
      | (.error .notFound, t) =>
        match t.makeAll absolute before with
        | (.ok _, t) => orThere path (t.makeDirectory path)
        | r => r
      | r => orThere path r
    else t.makeAll absolute before

/-- Makes a directory and those above it that are missing. -/
def makeDirectories (t : FileTree) (path : String) : Outcome :=
  t.makeAll (Path.isAbsolute path) (Path.body path).reverse

/-- Makes the directories above a path that are missing. -/
def makeParents (t : FileTree) (path : String) : Outcome :=
  match Path.parent? path with
  | some parent => t.makeDirectories parent
  | none => (.ok (), t)

/-- The place of a file that is to be written. -/
def filePlace (t : FileTree) (path : String) : Except FileError Location := do
  let (l, name) ← t.findParent path
  if Path.endsInSlash path || namesNoEntry name then .error .isADirectory
  else if nameTooLong name then .error .nameTooLong
  else if t.get? (l ++ [name]) = some .directory then .error .isADirectory
  else .ok (l ++ [name])

/-- Writes a file, new or in place of the one that is there. -/
def write (t : FileTree) (path : String) (content : Bytes) : Outcome :=
  match t.filePlace path with
  | .ok l => (.ok (), t.put l (.file content))
  | .error e => (.error e, t)

end FileTree

end Corelink
