import Corelink.Wire.Header

/-!
# Frames

A frame is a header and as many payload bytes as it announces. `Decoder` takes frames
off the front of a growing buffer: it either waits for a header, or has taken one and
waits for its payload. A bad or oversize header stays in the buffer, so the same error
comes again at every later look. `Parse.run` is the same job in one pass over a whole
stream.
-/

namespace Corelink.Wire

/-- A value that the fixed length fields cannot hold. -/
inductive ValidationError where
  | fieldTooLong (field : String) (size : Nat)
  | payloadTooLong (size : Nat)
  deriving DecidableEq, Repr

def ValidationError.message : ValidationError → String
  | fieldTooLong field n => s!"{field} too long: {n} bytes (max: 65535)"
  | payloadTooLong n => s!"Payload too long: {n} bytes"

structure Frame where
  header : Header
  payload : Bytes
  deriving DecidableEq, Repr

namespace Frame

/-- The bytes of a frame with this payload. -/
def encode (t : MessageType) (payload : Bytes) : Except ValidationError Bytes :=
  if payload.length < UInt32.size then
    .ok (Header.encode t (UInt32.ofNat payload.length) ++ payload)
  else .error (.payloadTooLong payload.length)

end Frame

theorem drop_header_lt {s : Bytes} (h : ¬ s.shorterThan headerSize = true) :
    (s.drop headerSize).length < s.length := by
  have hl : headerSize ≤ s.length := by simpa using mt (Bytes.shorterThan_iff s headerSize).2 h
  rw [List.length_drop]
  exact Nat.sub_lt (Nat.lt_of_lt_of_le (by decide) hl) (by decide)

/-! ### Decoding as bytes arrive -/

structure Decoder where
  /-- The largest payload accepted. -/
  maxPayload : Nat := maxPayloadSize
  /-- The header taken off the buffer, if its payload is still owed. -/
  pending : Option Header := none
  deriving DecidableEq, Repr

/-- What one look at the buffer gives. -/
inductive Look where
  | frame (f : Frame) (d : Decoder) (rest : Bytes)
  | wait (d : Decoder) (rest : Bytes)
  | fail (e : FramingError)
  deriving DecidableEq, Repr

namespace Decoder

/-- The payload length still owed, once a header has been taken. -/
def pendingPayload (d : Decoder) : Option Nat :=
  d.pending.map Header.size

/-- Takes the payload of `h`, if it is all there. -/
def lookPayload (d : Decoder) (h : Header) (buffer : Bytes) : Look :=
  if buffer.shorterThan h.size then .wait { d with pending := some h } buffer
  else .frame ⟨h, buffer.take h.size⟩ { d with pending := none } (buffer.drop h.size)

/-- One look at the buffer. On failure neither the decoder nor the buffer changes. -/
def look (d : Decoder) (buffer : Bytes) : Look :=
  match d.pending with
  | some h => d.lookPayload h buffer
  | none =>
    if buffer.shorterThan headerSize then .wait d buffer
    else
      match Header.decode buffer with
      | .error e => .fail e
      | .ok h =>
        if h.size > d.maxPayload then .fail (.payloadTooLarge h.size d.maxPayload)
        else d.lookPayload h (buffer.drop headerSize)

/-- Looks still possible: bytes count twice, a header taken counts once. -/
def measure (d : Decoder) (buffer : Bytes) : Nat :=
  2 * buffer.length + if d.pending.isSome then 1 else 0

theorem measure_lt_of_look {d d' : Decoder} {buffer rest : Bytes} {f : Frame}
    (h : d.look buffer = .frame f d' rest) : d'.measure rest < d.measure buffer := by
  unfold look at h
  split at h
  · rename_i hd hp
    unfold lookPayload at h
    split at h
    · cases h
    · cases h
      simp only [measure, hp, List.length_drop, Option.isSome_some, Option.isSome_none,
        Bool.false_eq_true, if_true, if_false]
      omega
  · rename_i hp
    split at h
    · cases h
    · rename_i hlen
      split at h
      · cases h
      · split at h
        · cases h
        · unfold lookPayload at h
          split at h
          · cases h
          · cases h
            have hl := drop_header_lt hlen
            simp only [measure, hp, List.length_drop, Option.isSome_none, Bool.false_eq_true,
              if_false] at hl ⊢
            omega

end Decoder

/-- The result of looking until no frame comes. -/
structure Drained where
  frames : List Frame
  /-- Why the last look failed, if it did. -/
  error : Option FramingError
  decoder : Decoder
  rest : Bytes
  deriving DecidableEq, Repr

/-- Looks until there is no whole frame left, or a look fails. -/
def Decoder.drain (d : Decoder) (buffer : Bytes) : Drained :=
  match _h : d.look buffer with
  | .frame f d' rest =>
    let r := d'.drain rest
    { r with frames := f :: r.frames }
  | .wait d' rest => ⟨[], none, d', rest⟩
  | .fail e => ⟨[], some e, d, buffer⟩
termination_by d.measure buffer
decreasing_by exact measure_lt_of_look _h

/-! ### A receiver: decoder and buffer together -/

/-- The reading end of a connection: bytes received and not yet taken. -/
structure Receiver where
  decoder : Decoder := {}
  buffer : Bytes := []
  deriving DecidableEq, Repr

namespace Receiver

/-- Appends bytes that have arrived. -/
def fill (r : Receiver) (bs : Bytes) : Receiver :=
  { r with buffer := r.buffer ++ bs }

/-- One look; on failure the receiver is as before. -/
def next (r : Receiver) : Except FramingError (Option Frame) × Receiver :=
  match r.decoder.look r.buffer with
  | .frame f d rest => (.ok (some f), ⟨d, rest⟩)
  | .wait d rest => (.ok none, ⟨d, rest⟩)
  | .fail e => (.error e, r)

/-- Takes every whole frame in the buffer. -/
def drain (r : Receiver) : List Frame × Option FramingError × Receiver :=
  let t := r.decoder.drain r.buffer
  (t.frames, t.error, ⟨t.decoder, t.rest⟩)

/-- Bytes arrive, then every whole frame is taken. -/
def feed (r : Receiver) (bs : Bytes) : List Frame × Option FramingError × Receiver :=
  (r.fill bs).drain

end Receiver

/-! ### Parsing a whole stream -/

/-- What one pass over a stream finds. -/
structure Parse where
  frames : List Frame
  error : Option FramingError
  /-- The header whose payload the stream does not hold in full. -/
  pending : Option Header
  rest : Bytes
  deriving DecidableEq, Repr

/-- Frame after frame, until the bytes run short or a header is refused. A refused
header is left in `rest`; one whose payload is short is not. -/
def Parse.run (maxPayload : Nat) (s : Bytes) : Parse :=
  if _h : s.shorterThan headerSize then ⟨[], none, none, s⟩
  else
    match Header.decode s with
    | .error e => ⟨[], some e, none, s⟩
    | .ok h =>
      if h.size > maxPayload then ⟨[], some (.payloadTooLarge h.size maxPayload), none, s⟩
      else
        let body : Bytes := s.drop headerSize
        if body.shorterThan h.size then ⟨[], none, some h, body⟩
        else
          let p := Parse.run maxPayload (body.drop h.size)
          { p with frames := ⟨h, body.take h.size⟩ :: p.frames }
termination_by s.length
decreasing_by
  exact Nat.lt_of_le_of_lt (by rw [List.length_drop]; exact Nat.sub_le ..) (drop_header_lt _h)

end Corelink.Wire
