/-!
# TOML values

A value as a document gives it. A table remembers how it came to be, because that
decides who may add to it: `Origin.header` was named by a header of its own,
`Origin.implied` stands on the way to a longer header, `Origin.dotted` was made by a
dotted key, `Origin.inline` is written between braces and closed.
-/

namespace Corelink.Toml

/-- The greatest and, negated and less one, the least integer of a document. -/
def maxInteger : Nat :=
  Nat.pow 2 63 - 1

inductive Origin where
  | header
  | implied
  | dotted
  | inline
  deriving DecidableEq, Repr

/-- Floats and dates are read for their form only: no setting has such a value. -/
inductive Value where
  | bool (b : Bool)
  | integer (n : Int)
  | float
  | date
  | text (s : String)
  | array (items : List Value)
  | table (origin : Origin) (entries : List (String × Value))
  /-- Tables named by double-bracket headers, in order. -/
  | tables (items : List (List (String × Value)))
  deriving Repr

/-- The keys of a table, in order of their first mention. -/
abbrev Entries := List (String × Value)

namespace Entries

def get? (es : Entries) (k : String) : Option Value :=
  List.lookup k es

/-- Replaces the value of a key that is there. -/
def replace (es : Entries) (k : String) (v : Value) : Entries :=
  List.map (fun e => if e.1 = k then (k, v) else e) es

def erase (es : Entries) (k : String) : Entries :=
  List.filter (fun e => e.1 ≠ k) es

end Entries

end Corelink.Toml
