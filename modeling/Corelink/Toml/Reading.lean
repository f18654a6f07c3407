import Corelink.Record
import Corelink.Toml.Document

/-!
# Taking values out of TOML documents

A record is a table, of which unknown keys are stepped over, or an array of its fields in
order, of which values beyond the last field are stepped over too. A date has none of a
record's keys and is not refused for that.
-/

namespace Corelink.Toml

namespace Value

variable {σ : Type}

def asBool : Value → Except Unit Bool
  | .bool b => .ok b
  | _ => .error ()

def asText : Value → Except Unit String
  | .text s => .ok s
  | _ => .error ()

/-- There is no value for nothing. -/
def asOptionalText (v : Value) : Except Unit (Option String) :=
  v.asText.map some

def asWord (limit : Nat) : Value → Except Unit Nat
  | .integer n => if 0 ≤ n ∧ n ≤ limit then .ok n.toNat else .error ()
  | _ => .error ()

/-- Reads the values of the known keys. -/
def readEntries (fields : List (Field Value Unit σ)) : Entries → σ → Except Unit σ
  | [], s => .ok s
  | (k, v) :: rest, s => do
    let s ← match fields.find? (·.name = k) with
      | some f => f.read v s
      | none => .ok s
    readEntries fields rest s

/-- Reads the values against the fields in order. -/
def readItems : List (Field Value Unit σ) → List Value → σ → Except Unit σ
  | [], _, s => .ok s
  | f :: fs, [], s => if f.optionalByPlace then readItems fs [] s else .error ()
  | f :: fs, v :: vs, s => do
    let s ← f.read v s
    readItems fs vs s

def readTable (fields : List (Field Value Unit σ)) (es : Entries) (s : σ) : Except Unit σ := do
  let s ← readEntries fields es s
  if fields.all fun f => f.optionalByName || (es.get? f.name).isSome then .ok s else .error ()

def asRecord (fields : List (Field Value Unit σ)) : Value → σ → Except Unit σ
  | .table _ es, s => readTable fields es s
  | .array vs, s => readItems fields vs s
  | .tables ts, s => readItems fields (ts.map (.table .header)) s
  | .date, s => readTable fields [] s
  | _, _ => .error ()

/-- Values and records as TOML gives them. -/
def format : Format Value Unit :=
  { bool := asBool, text := asText, optionalText := asOptionalText, word := asWord,
    record := asRecord }

end Value

end Corelink.Toml
