import Corelink.Text.Utf8
import Corelink.Wire.Frame

/-!
# Payload fields

A payload is a row of fields: single bytes, big-endian words, and texts with a two-byte
length in front. `Field.text` writes a text; a `Reader` takes fields off the front of a
payload and keeps its place after a failure, so that reading can go on. A text that is
not UTF-8 is repaired, never refused. A text whose length is there but whose bytes are
short has used up the length.
-/

namespace Corelink.Wire

namespace Field

/-- A text with its length in front. -/
def text (field : String) (s : String) : Except ValidationError Bytes :=
  if Utf8.size s > maxFieldSize then .error (.fieldTooLong field (Utf8.size s))
  else .ok (BigEndian.ofNat 2 (Utf8.size s) ++ Utf8.encode s)

/-- Texts one after another; one that does not fit leaves the buffer alone. -/
def texts (buffer : Bytes) : List (String × String) → List (Except ValidationError Unit) × Bytes
  | [] => ([], buffer)
  | (field, s) :: rest =>
    match text field s with
    | .ok bs =>
      let r := texts (buffer ++ bs) rest
      (.ok () :: r.1, r.2)
    | .error e =>
      let r := texts buffer rest
      (.error e :: r.1, r.2)

end Field

/-- Reads a value off the front of some bytes and says what is left, also after a failure. -/
def Reader (α : Type) : Type :=
  Bytes → Except FramingError α × Bytes

namespace Reader

def pure {α : Type} (a : α) : Reader α :=
  fun bs => (.ok a, bs)

/-- The second reader starts where the first one stopped; a failure ends both. -/
def bind {α β : Type} (r : Reader α) (f : α → Reader β) : Reader β :=
  fun bs =>
    match r bs with
    | (.ok a, rest) => f a rest
    | (.error e, rest) => (.error e, rest)

instance : Monad Reader where
  pure := pure
  bind := bind

/-- The next `n` bytes, or none of them. -/
def take (field : String) (n : Nat) : Reader Bytes :=
  fun bs =>
    if bs.shorterThan n then (.error (.truncated field n bs.length), bs)
    else (.ok (bs.take n), bs.drop n)

def u8 (field : String) : Reader UInt8 := do
  let bs ← take field 1
  return UInt8.ofNat (BigEndian.toNat bs)

def u16 (field : String) : Reader UInt16 := do
  let bs ← take field 2
  return UInt16.ofNat (BigEndian.toNat bs)

def u64 (field : String) : Reader UInt64 := do
  let bs ← take field 8
  return UInt64.ofNat (BigEndian.toNat bs)

def text (field : String) : Reader String := do
  let n ← u16 field
  let bs ← take field n.toNat
  return Utf8.decodeLossy bs

/-- `n` texts. -/
def textList (field : String) : Nat → Reader (List String)
  | 0 => pure []
  | n + 1 => do
    let s ← text field
    let rest ← textList field n
    return s :: rest

/-- Fails if bytes are left. -/
def finish : Reader Unit :=
  fun bs => if bs.isEmpty then (.ok (), bs) else (.error (.trailingBytes bs.length), bs)

/-- Reads all of `bs`. -/
def decode {α : Type} (r : Reader α) (bs : Bytes) : Except FramingError α :=
  (do let a ← r; finish; return a : Reader α) bs |>.1

end Reader

end Corelink.Wire
