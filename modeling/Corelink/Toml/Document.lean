import Corelink.Toml.Scalar

/-!
# TOML documents

`parse` reads a text into the entries of its root table, or refuses it. `Builder` is the
document under way: the table under the last header is kept apart and goes into the root
when the next header, or the end, comes. `Entries.descend` walks a path and makes the
tables that are not there; only a table that no header has named can be added to by a
dotted key, and nothing can be added to a value.
-/

namespace Corelink.Toml

/-! ### Tables -/

/-- Follows `path` from a table and changes the table at its end by `f`. -/
def Entries.descend {α : Type} (dotted : Bool) (f : Origin → Entries → Option (α × Entries)) :
    List String → Origin → Entries → Option (α × Entries)
  | [], origin, es => f origin es
  | k :: ks, _, es =>
    match es.get? k with
    | none => do
      let origin := if dotted then Origin.dotted else Origin.implied
      let (a, inner) ← descend dotted f ks origin []
      return (a, es ++ [(k, .table origin inner)])
    | some (.table origin inner) =>
      if origin = .inline || (dotted && origin = .header) then none
      else do
        let (a, inner) ← descend dotted f ks origin inner
        return (a, es.replace k (.table origin inner))
    | some (.tables items) =>
      match items.getLast? with
      | none => none
      | some last => do
        let (a, last) ← descend dotted f ks .header last
        return (a, es.replace k (.tables (items.dropLast ++ [last])))
    | some _ => none

/-- Adds a value under a key of one or more parts. The table that takes it must have been
made by a dotted key, if the key is dotted, and must not have been otherwise. -/
def Entries.insert (origin : Origin) (es : Entries) (path : List String) (v : Value) :
    Option Entries :=
  match path.getLast? with
  | none => none
  | some k =>
    let way := path.dropLast
    let put (o : Origin) (es : Entries) : Option (Unit × Entries) :=
      if (o == .dotted) == way.isEmpty || (es.get? k).isSome then none
      else some ((), es ++ [(k, v)])
    (Entries.descend true put way origin es).map (·.2)

/-- The document under way. -/
structure Builder where
  /-- All tables but the current one. -/
  root : Entries := []
  /-- The header the current table stands under; empty for the root itself. -/
  path : List String := []
  /-- Whether that header has double brackets. -/
  isArray : Bool := false
  current : Entries := []

namespace Builder

/-- Puts the current table where its header says. -/
def finish (b : Builder) : Option Entries :=
  match b.path.getLast? with
  | none => some b.current
  | some k =>
    let put (_ : Origin) (es : Entries) : Option (Unit × Entries) :=
      if b.isArray then
        match es.get? k with
        | none => some ((), es ++ [(k, .tables [b.current])])
        | some (.tables items) => some ((), es.replace k (.tables (items ++ [b.current])))
        | some _ => none
      else if (es.get? k).isSome then none
      else some ((), es ++ [(k, .table .header b.current)])
    (Entries.descend false put b.path.dropLast .header b.root).map (·.2)

/-- Goes on under a header with single brackets. A table that only stands on the way to
other headers may still be named by one of its own, once. -/
def openTable (b : Builder) (path : List String) : Option Builder := do
  let root ← b.finish
  let k ← path.getLast?
  let take (_ : Origin) (es : Entries) : Option (Entries × Entries) :=
    match es.get? k with
    | none => some ([], es)
    | some (.table .implied inner) => some (inner, es.erase k)
    | some _ => none
  let (current, root) ← Entries.descend false take path.dropLast .header root
  return { root, path, isArray := false, current }

/-- Goes on under a header with double brackets. -/
def openArray (b : Builder) (path : List String) : Option Builder := do
  let root ← b.finish
  let k ← path.getLast?
  let check (_ : Origin) (es : Entries) : Option (Unit × Entries) :=
    match es.get? k with
    | none => some ((), es)
    | some (.tables _) => some ((), es)
    | some _ => none
  let (_, root) ← Entries.descend false check path.dropLast .header root
  return { root, path, isArray := true, current := [] }

def insert (b : Builder) (key : List String) (v : Value) : Option Builder := do
  let current ← Entries.insert .header b.current key v
  return { b with current }

end Builder

/-! ### Values -/

/-- What follows a comment, which begins here, up to the end of its line. -/
def skipComment (cs : List Char) : List Char :=
  cs.dropWhile isPlain

/-- Blanks, comments and line ends between the values of an array. -/
def skipSpace : Nat → List Char → List Char
  | 0, cs => cs
  | fuel + 1, cs =>
    match skipBlanks cs with
    | '#' :: rest =>
      match newline? (skipComment rest) with
      | some rest => skipSpace fuel rest
      | none => '#' :: rest
    | rest =>
      match newline? rest with
      | some rest => skipSpace fuel rest
      | none => rest

def skipLines (cs : List Char) : List Char :=
  skipSpace (cs.length + 1) cs

mutual

/-- A value inside `depth` arrays and inline tables. -/
def scanValue : Nat → Nat → List Char → Option (Value × List Char)
  | 0, _, _ => none
  | fuel + 1, depth, cs =>
    match cs with
    | '[' :: rest =>
      if depth + 1 ≥ depthLimit then none
      else
        match skipLines rest with
        | ']' :: rest => some (.array [], rest)
        | rest => scanItems fuel (depth + 1) [] rest
    | '\x7b' :: rest =>
      if depth + 1 ≥ depthLimit then none
      else
        match skipBlanks rest with
        | '\x7d' :: rest => some (.table .inline [], rest)
        | rest => scanPairs fuel (depth + 1) [] rest
    | cs => scanScalar cs

/-- An array from an item on; the items before it come last first. -/
def scanItems : Nat → Nat → List Value → List Char → Option (Value × List Char)
  | 0, _, _, _ => none
  | fuel + 1, depth, items, cs => do
    let (v, rest) ← scanValue fuel depth cs
    match skipLines rest with
    | ']' :: rest => return (.array (v :: items).reverse, rest)
    | ',' :: rest =>
      match skipLines rest with
      | ']' :: rest => return (.array (v :: items).reverse, rest)
      | rest => scanItems fuel depth (v :: items) rest
    | _ => none

/-- An inline table from a key on. -/
def scanPairs : Nat → Nat → Entries → List Char → Option (Value × List Char)
  | 0, _, _, _ => none
  | fuel + 1, depth, es, cs => do
    let (key, rest) ← scanKey cs
    let rest ← scanMark '=' rest
    let (v, rest) ← scanValue fuel depth (skipBlanks rest)
    let es ← Entries.insert .inline es key v
    match skipBlanks rest with
    | '\x7d' :: rest => return (.table .inline es, rest)
    | ',' :: rest => scanPairs fuel depth es rest
    | _ => none

end

/-! ### Lines -/

/-- What follows the end of a line, on which only blanks and a comment may be left. -/
def endOfLine (cs : List Char) : Option (List Char) :=
  let rest := match skipBlanks cs with
    | '#' :: rest => skipComment rest
    | rest => rest
  if rest.isEmpty then some [] else newline? rest

def scanLines : Nat → Builder → List Char → Option Entries
  | 0, _, _ => none
  | fuel + 1, b, cs =>
    match skipBlanks cs with
    | [] => b.finish
    | '[' :: '[' :: rest => do
      let (key, rest) ← scanKey rest
      let rest ← scanMark ']' rest
      let rest ← scanMark ']' rest
      let rest ← endOfLine rest
      let b ← b.openArray key
      scanLines fuel b rest
    | '[' :: rest => do
      let (key, rest) ← scanKey rest
      let rest ← scanMark ']' rest
      let rest ← endOfLine rest
      let b ← b.openTable key
      scanLines fuel b rest
    | '#' :: rest => do
      let rest ← endOfLine ('#' :: rest)
      scanLines fuel b rest
    | rest =>
      match newline? rest with
      | some rest => scanLines fuel b rest
      | none => do
        let (key, rest) ← scanKey rest
        let rest ← scanMark '=' rest
        let (v, rest) ← scanValue (rest.length + 1) 0 (skipBlanks rest)
        let rest ← endOfLine rest
        let b ← b.insert key v
        scanLines fuel b rest

/-- The root table of a document. A byte order mark in front is skipped. -/
def parse (s : String) : Option Entries :=
  let cs := match s.toList with
    | '\ufeff' :: rest => rest
    | cs => cs
  scanLines (cs.length + 1) {} cs

end Corelink.Toml
