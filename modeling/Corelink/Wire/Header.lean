import Corelink.Bytes
import Corelink.Wire.MessageType

/-!
# Frame headers

Twelve bytes, big-endian: magic, version, message type, payload length, two reserved
bytes. A reader checks length, magic and version in this order and ignores the
reserved bytes; a writer sets them to zero.
-/

namespace Corelink.Wire

/-- The first four bytes of every frame, `FSX1`. -/
def magic : Nat := 0x46535831

/-- The only version spoken. -/
def version : UInt8 := 1

/-- Bytes of a header. -/
def headerSize : Nat := 12

/-- The port Core listens on unless told otherwise. -/
def defaultPort : UInt16 := 9000

/-- The largest payload accepted from the wire. -/
def maxPayloadSize : Nat := 10 * 1024 * 1024

/-- The largest text a field can hold, in bytes. -/
def maxFieldSize : Nat := 65535

/-- What a keep-alive ping carries: `ping`. -/
def pingPayload : Bytes := [0x70, 0x69, 0x6E, 0x67]

/-- Bytes that do not follow the wire format. -/
inductive FramingError where
  | shortHeader (size : Nat)
  | badMagic (found : Nat)
  | badVersion (found : UInt8)
  | payloadTooLarge (size limit : Nat)
  | truncated (field : String) (needed remaining : Nat)
  | trailingBytes (count : Nat)
  deriving DecidableEq, Repr

/-- `n` as `0x` and at least eight hexadecimal digits. -/
def hexWord (n : Nat) : String :=
  let digits := Nat.toDigits 16 n
  "0x" ++ String.ofList (List.replicate (8 - digits.length) '0' ++ digits)

def FramingError.message : FramingError → String
  | shortHeader n => s!"Header too short: {n} < 12 bytes"
  | badMagic m => "Bad magic: " ++ hexWord m
  | badVersion v => s!"Bad version: {v.toNat}"
  | payloadTooLarge n limit => s!"Payload too large: {n} bytes (max: {limit})"
  | truncated field needed remaining =>
    s!"Truncated {field}: need {needed} bytes, {remaining} remaining"
  | trailingBytes n => s!"{n} trailing bytes after payload"

/-- A header as read: the type stays a raw code, so that unknown ones can be reported. -/
structure Header where
  type : UInt8
  length : UInt32
  deriving DecidableEq, Repr

namespace Header

def messageType? (h : Header) : Option MessageType :=
  MessageType.ofCode? h.type

/-- Payload bytes announced. -/
def size (h : Header) : Nat :=
  h.length.toNat

/-- The twelve bytes of a header. -/
def bytes (h : Header) : Bytes :=
  BigEndian.ofNat 4 magic ++ [version, h.type] ++ BigEndian.ofNat 4 h.length.toNat ++ [0, 0]

/-- The header of a message. -/
def encode (t : MessageType) (length : UInt32) : Bytes :=
  bytes ⟨t.code, length⟩

def decode : Bytes → Except FramingError Header
  | m₀ :: m₁ :: m₂ :: m₃ :: v :: type :: l₀ :: l₁ :: l₂ :: l₃ :: _ :: _ :: _ =>
    if BigEndian.toNat [m₀, m₁, m₂, m₃] ≠ magic then
      .error (.badMagic (BigEndian.toNat [m₀, m₁, m₂, m₃]))
    else if v ≠ version then .error (.badVersion v)
    else .ok ⟨type, UInt32.ofNat (BigEndian.toNat [l₀, l₁, l₂, l₃])⟩
  | bs => .error (.shortHeader bs.length)

@[simp] theorem length_encode (t : MessageType) (n : UInt32) :
    (encode t n).length = headerSize := by
  simp [encode, bytes, headerSize]

end Header

end Corelink.Wire
