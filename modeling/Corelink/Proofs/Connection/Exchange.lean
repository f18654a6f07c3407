import Corelink.Client
import Corelink.Proofs.Wire.Field

/-!
# One-shot requests, part by part

A one-shot request succeeds just when each part of it does: the connection opens, the frame is
written, and the first frame that comes back is of the expected type and can be decoded
(`Client.ask_eq_ok_iff`).
-/

namespace Corelink

open Wire

/-! ### The parts -/

theorem Terms.written_eq_ok_iff {t : Terms} {r : WriteResult} {v : Unit} :
    t.written r = .ok v ↔ r = .done := by
  cases r <;> simp [Terms.written]

theorem replyPayload_eq_ok_iff {expected : MessageType} {f : Frame} {reply : Bytes} :
    replyPayload expected f = .ok reply ↔ f.header.type = expected.code ∧ f.payload = reply := by
  unfold replyPayload
  split <;> simp [*]

theorem liftFraming_eq_ok_iff {α : Type} {r : Except FramingError α} {a : α} :
    liftFraming r = .ok a ↔ r = .ok a := by
  cases r <;> simp [liftFraming]

/-- The whole exchange on a connection of its own succeeds, and this is the payload of the first
frame that comes back. -/
def Terms.Gets (t : Terms) (type expected : MessageType) (payload : Bytes) (peer : Peer)
    (reply : Bytes) : Prop :=
  t.attempt peer.dial = .opened ∧
    ∃ frame f rest, Frame.encode type payload = .ok frame ∧ peer.write frame = .done ∧
      (receive t {} (peer.reads frame)).1 = .ok (f, rest) ∧
      f.header.type = expected.code ∧ f.payload = reply

namespace Client

variable {c : Client} {t : Terms} {timeout : Nat} {type expected : MessageType}
  {payload reply : Bytes} {peer : Peer}

theorem exchange_eq_ok_iff :
    (exchange t type expected payload peer).result = .ok reply ↔
      ∃ frame f rest, Frame.encode type payload = .ok frame ∧ peer.write frame = .done ∧
        (receive t {} (peer.reads frame)).1 = .ok (f, rest) ∧
        f.header.type = expected.code ∧ f.payload = reply := by
  unfold exchange
  cases hf : Frame.encode type payload with
  | error e => exact ⟨nofun, fun ⟨_, _, _, h, _⟩ => nomatch h⟩
  | ok frame =>
    simp only [bind_eq_ok_iff, Terms.written_eq_ok_iff, replyPayload_eq_ok_iff, Prod.exists]
    constructor
    · rintro ⟨_, hw, f, rest, h⟩
      exact ⟨frame, f, rest, rfl, hw, h⟩
    · rintro ⟨_, f, rest, ⟨⟩, hw, h⟩
      exact ⟨(), hw, f, rest, h⟩

theorem request_eq_ok_iff :
    (c.request timeout type payload peer).result = .ok reply ↔
      ∃ expected, type.response? = some expected ∧
        Terms.Gets ⟨c.address, timeout⟩ type expected payload peer reply := by
  unfold request
  cases type.response? with
  | none => exact ⟨nofun, fun ⟨_, h, _⟩ => nomatch h⟩
  | some expected =>
    simp only [Option.some.injEq, exists_eq_left', Terms.Gets, ← exchange_eq_ok_iff]
    cases Terms.attempt ⟨c.address, timeout⟩ peer.dial <;> simp [Terms.dialled]

/-- **A request with a message succeeds just when each part of it does.** -/
theorem ask_eq_ok_iff {α : Type} {encoded : Except ValidationError Bytes}
    {decode : Bytes → Except FramingError α} {a : α} :
    (c.ask timeout type encoded decode peer).result = .ok a ↔
      ∃ payload expected reply, encoded = .ok payload ∧ type.response? = some expected ∧
        Terms.Gets ⟨c.address, timeout⟩ type expected payload peer reply ∧
        decode reply = .ok a := by
  cases encoded with
  | error e => exact ⟨nofun, fun ⟨_, _, _, h, _⟩ => nomatch h⟩
  | ok payload =>
    show (c.request timeout type payload peer).result >>=
      (fun reply => liftFraming (decode reply)) = .ok a ↔ _
    simp only [bind_eq_ok_iff, request_eq_ok_iff, liftFraming_eq_ok_iff]
    constructor
    · rintro ⟨reply, ⟨expected, htype, hgets⟩, hd⟩
      exact ⟨payload, expected, reply, rfl, htype, hgets, hd⟩
    · rintro ⟨_, expected, reply, ⟨⟩, htype, hgets, hd⟩
      exact ⟨reply, ⟨expected, htype, hgets⟩, hd⟩

theorem request_actions (htype : type.response? = some expected)
    (hopen : Terms.attempt ⟨c.address, timeout⟩ peer.dial = .opened) {frame : Bytes}
    (hframe : Frame.encode type payload = .ok frame) :
    (c.request timeout type payload peer).actions =
      [.dialled .opened, .wrote frame (peer.write frame), .closed] := by
  unfold request
  rw [htype]
  dsimp only
  rw [hopen]
  show (exchange _ _ _ _ _).actions = _
  rw [exchange, hframe]

end Client

end Corelink
