/-!
# Records read from documents

A record is read field by field into a value that starts with the defaults. `Field`
says what one key means; `Format` is what a kind of document (`δ`, with errors `ε`) must
offer for that: scalars, and records inside records.
-/

namespace Corelink

/-- One key of a record, read into a value of type `σ`. -/
structure Field (δ ε σ : Type) where
  name : String
  /-- Whether a table of keys may leave it out. -/
  optionalByName : Bool
  /-- Whether a list of values may end before it. -/
  optionalByPlace : Bool
  read : δ → σ → Except ε σ

/-- How a kind of document gives values and records. -/
structure Format (δ ε : Type) where
  bool : δ → Except ε Bool
  text : δ → Except ε String
  /-- A text, or nothing where the document can say so. -/
  optionalText : δ → Except ε (Option String)
  /-- A whole number from zero up to and including the limit. -/
  word : (limit : Nat) → δ → Except ε Nat
  record : {σ : Type} → List (Field δ ε σ) → δ → σ → Except ε σ

namespace Field

variable {δ ε σ : Type}

/-- A field that must be there. -/
def required {α : Type} (name : String) (read : δ → Except ε α) (set : α → σ → σ) :
    Field δ ε σ :=
  { name, optionalByName := false, optionalByPlace := false,
    read := fun d s => (read d).map fun a => set a s }

/-- A field that keeps its default if it is not there. -/
def withDefault {α : Type} (name : String) (read : δ → Except ε α) (set : α → σ → σ) :
    Field δ ε σ :=
  { required name read set with optionalByName := true, optionalByPlace := true }

/-- A field that a table may leave out, but a list may not. -/
def byName {α : Type} (name : String) (read : δ → Except ε α) (set : α → σ → σ) :
    Field δ ε σ :=
  { required name read set with optionalByName := true }

/-- A record as a field; it starts from the value `get` finds. -/
def inner {τ : Type} (name : String) (F : Format δ ε) (fields : List (Field δ ε τ))
    (get : σ → τ) (set : τ → σ → σ) : Field δ ε σ :=
  { name, optionalByName := true, optionalByPlace := true,
    read := fun d s => (F.record fields d (get s)).map fun t => set t s }

end Field

end Corelink
