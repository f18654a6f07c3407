/-!
# Online users

A set of names in its canonical form: ascending by UTF-8 bytes, which is the order of
code points, each name once, with the number of names beside them. `OnlineUsers` is the
record as it is exchanged, where the count is whatever was written; `ofList` makes the
canonical one.
-/

namespace Corelink

structure OnlineUsers where
  count : Nat
  usernames : List String
  deriving DecidableEq, Repr

namespace OnlineUsers

/-- Drops each entry equal to the one after it. -/
def dropRepeats : List String → List String
  | [] => []
  | [s] => [s]
  | s :: t :: rest => if s = t then dropRepeats (t :: rest) else s :: dropRepeats (t :: rest)

/-- Ascending, each name once. -/
def canonical (names : List String) : List String :=
  dropRepeats (names.mergeSort fun s t => decide (s ≤ t))

/-- The set of the names in a list. -/
def ofList (names : List String) : OnlineUsers :=
  { count := (canonical names).length, usernames := canonical names }

/-- Nobody. -/
def none : OnlineUsers :=
  ofList []

end OnlineUsers

end Corelink
