import Corelink.Bytes

/-!
# UTF-8

`encode` writes a text, `decodeLossy` reads any bytes: what is not UTF-8 becomes
U+FFFD, one for each maximal invalid subpart, that is, for each longest run of
bytes that begins some character but does not finish it, and for each byte that
begins none. The reader takes one byte at a time; `Pending` is the character it
has begun. `decode?` accepts well-formed bytes only.
-/

namespace Corelink.Utf8

/-- The bytes of a text. -/
def encode (s : String) : Bytes :=
  s.toList.flatMap String.utf8EncodeChar

/-- The number of bytes of a text. -/
def size (s : String) : Nat :=
  (encode s).length

/-- A character begun but not finished. -/
structure Pending where
  /-- Bytes still owed. -/
  owed : Nat
  /-- The least value the next byte may have. -/
  lo : UInt8
  /-- The greatest value the next byte may have. -/
  hi : UInt8
  /-- The code point's bits so far. -/
  bits : Nat
  deriving DecidableEq, Repr

/-- What a byte between two characters means. -/
inductive Lead where
  | whole (c : Char)
  | begins (p : Pending)
  | invalid
  deriving DecidableEq, Repr

/-- The meaning of a first byte. The narrow second-byte ranges keep out overlong
forms, surrogates and code points above U+10FFFF. -/
def lead (b : UInt8) : Lead :=
  if b < 0x80 then .whole (Char.ofNat b.toNat)
  else if b < 0xC2 then .invalid
  else if b < 0xE0 then .begins ⟨1, 0x80, 0xBF, b.toNat - 0xC0⟩
  else if b = 0xE0 then .begins ⟨2, 0xA0, 0xBF, 0⟩
  else if b = 0xED then .begins ⟨2, 0x80, 0x9F, 0xD⟩
  else if b < 0xF0 then .begins ⟨2, 0x80, 0xBF, b.toNat - 0xE0⟩
  else if b = 0xF0 then .begins ⟨3, 0x90, 0xBF, 0⟩
  else if b < 0xF4 then .begins ⟨3, 0x80, 0xBF, b.toNat - 0xF0⟩
  else if b = 0xF4 then .begins ⟨3, 0x80, 0x8F, 4⟩
  else .invalid

/-- Whether `b` may come next. -/
def Pending.accepts (p : Pending) (b : UInt8) : Bool :=
  p.lo ≤ b && b ≤ p.hi

/-- The code point's bits after one more byte. -/
def Pending.bitsWith (p : Pending) (b : UInt8) : Nat :=
  64 * p.bits + (b.toNat - 0x80)

/-- Reads on from `p`, the character begun before these bytes. -/
def decodeFrom : Option Pending → Bytes → List Char
  | none, [] => []
  | some _, [] => ['\ufffd']
  | none, b :: bs =>
    match lead b with
    | .whole c => c :: decodeFrom none bs
    | .begins p => decodeFrom (some p) bs
    | .invalid => '\ufffd' :: decodeFrom none bs
  | some p, b :: bs =>
    if p.accepts b then
      if p.owed ≤ 1 then Char.ofNat (p.bitsWith b) :: decodeFrom none bs
      else decodeFrom (some ⟨p.owed - 1, 0x80, 0xBF, p.bitsWith b⟩) bs
    else
      match lead b with
      | .whole c => '\ufffd' :: c :: decodeFrom none bs
      | .begins q => '\ufffd' :: decodeFrom (some q) bs
      | .invalid => '\ufffd' :: '\ufffd' :: decodeFrom none bs

/-- The text of `bs`, with U+FFFD for what is not UTF-8. -/
def decodeLossy (bs : Bytes) : String :=
  String.ofList (decodeFrom none bs)

/-- The text of well-formed bytes. Bytes that are not well-formed never come back
from the text that replaces them. -/
def decode? (bs : Bytes) : Option String :=
  if encode (decodeLossy bs) = bs then some (decodeLossy bs) else none

@[simp] theorem encode_empty : encode "" = [] := rfl

theorem encode_decode? {bs : Bytes} {s : String} (h : decode? bs = some s) : encode s = bs := by
  unfold decode? at h
  split at h <;> simp_all

end Corelink.Utf8
