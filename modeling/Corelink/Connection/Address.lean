import Corelink.Connection.Failure
import Corelink.Port

/-!
# Addresses

An address is a host and a port with a colon between; the last colon counts. A text that
is none is refused before anything is sent.
-/

namespace Corelink.Address

/-- What follows the last colon, if there is one. -/
def afterLastColon? (cs : List Char) : Option (List Char) :=
  if cs.contains ':' then some (cs.reverse.takeWhile (· ≠ ':')).reverse else none

/-- What is wrong with an address as it is written. -/
def fault? (address : String) : Option IoError :=
  match afterLastColon? address.toList with
  | none => some .invalidAddress
  | some port => if (Port.ofChars? port).isSome then none else some .invalidPort

end Corelink.Address
