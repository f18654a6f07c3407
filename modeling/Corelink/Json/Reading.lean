import Corelink.Json.Document
import Corelink.Record

/-!
# Taking values out of JSON documents

Faults come in reading order and the first one counts. A record is an object, whose keys
may come in any order and of which unknown ones are stepped over, or an array of its
fields in order. In an object a repeated key is a mismatch at its second place, and a
missing one is found at the end.
-/

namespace Corelink.Json

namespace Document

/-- The fault of a document that is not of the wanted shape. -/
def misfit : Document → Error
  | .broken b => b.wanted
  | .text (.error e) => e
  | .number n => if n.isOutOfRange then .malformed else .mismatch
  | _ => .mismatch

mutual

/-- Steps over a document of any shape. -/
def skip : Document → Except Error Unit
  | .broken b => .error b.skipped
  | .array items cut => do
    skipItems items
    match cut with
    | some b => .error b.skipped
    | none => .ok ()
  | .object members cut => do
    skipMembers members
    match cut with
    | some b => .error b.skipped
    | none => .ok ()
  | _ => .ok ()

def skipItems : List Document → Except Error Unit
  | [] => .ok ()
  | d :: ds => do
    d.skip
    skipItems ds

def skipMembers : List (Except Error String × Document) → Except Error Unit
  | [] => .ok ()
  | (_, d) :: rest => do
    d.skip
    skipMembers rest

end

def asBool : Document → Except Error Bool
  | .bool b => .ok b
  | d => .error d.misfit

def asText : Document → Except Error String
  | .text (.ok s) => .ok s
  | d => .error d.misfit

def asOptionalText : Document → Except Error (Option String)
  | .null => .ok none
  | d => d.asText.map some

def asWord (limit : Nat) : Document → Except Error Nat
  | .number n =>
    match n.toNat? with
    | some m => if m ≤ limit then .ok m else .error (misfit (.number n))
    | none => .error (misfit (.number n))
  | d => .error d.misfit

/-- All texts of an array. -/
def asTexts : Document → Except Error (List String)
  | .array items cut => do
    let ss ← items.mapM asText
    match cut with
    | some b => .error b.wanted
    | none => .ok ss
  | d => .error d.misfit

/-! ### Records -/

variable {σ : Type}

/-- Reads the members in order; `seen` holds the keys met so far. -/
def readMembers (fields : List (Field Document Error σ)) :
    List (Except Error String × Document) → List String → σ → Except Error (List String × σ)
  | [], seen, s => .ok (seen, s)
  | (key, d) :: rest, seen, s => do
    let name ← key
    match fields.find? (·.name = name) with
    | none =>
      d.skip
      readMembers fields rest seen s
    | some f =>
      if seen.contains name then .error .mismatch
      else
        let s ← f.read d s
        readMembers fields rest (name :: seen) s

/-- Reads the items against the fields in order. -/
def readItems : List (Field Document Error σ) → List Document → Option Break → σ → Except Error σ
  | [], [], none, s => .ok s
  | [], [], some b, _ => .error b.wanted
  | [], _ :: _, _, _ => .error .malformed
  | _ :: _, [], some b, _ => .error b.wanted
  | f :: fs, [], none, s => if f.optionalByPlace then readItems fs [] none s else .error .mismatch
  | f :: fs, d :: ds, cut, s => do
    let s ← f.read d s
    readItems fs ds cut s

def asRecord (fields : List (Field Document Error σ)) : Document → σ → Except Error σ
  | .object members cut, s => do
    let (seen, s) ← readMembers fields members [] s
    match cut with
    | some b => .error b.wanted
    | none =>
      if fields.all fun f => f.optionalByName || seen.contains f.name then .ok s
      else .error .mismatch
  | .array items cut, s => readItems fields items cut s
  | d, _ => .error d.misfit

/-- Values and records as JSON gives them. -/
def format : Format Document Error :=
  { bool := asBool, text := asText, optionalText := asOptionalText, word := asWord,
    record := asRecord }

end Document

/-- Reads a whole text; only blanks may follow the document. -/
def parse {α : Type} (read : Document → Except Error α) (s : String) : Except Error α := do
  let (d, rest) := Document.ofText s
  let a ← read d
  if (skipBlanks rest).isEmpty then .ok a else .error .malformed

end Corelink.Json
