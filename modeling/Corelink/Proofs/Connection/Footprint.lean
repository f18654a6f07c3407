import Corelink.Gateway
import Corelink.Proofs.Connection.Exchange

/-!
# What a one-shot request does on the network

A request is refused before anything is done, or it makes one attempt to connect. If that opens a
connection, at most one frame is written on it, and it is closed (`Footprint`). Which of the two it
is depends on what is asked and not on Core: a message is refused for the first of its fields that
is too long (`overlong`), and a type of message for having no answer (`Client.oneShot_ask`,
`Client.oneShot_request`).
-/

namespace Corelink

open Wire

/-! ### Fields that are too long -/

/-- The complaint about the first of these fields, in wire order, that is too long. -/
def overlong (fields : List (String × String)) : Option ValidationError :=
  (fields.find? fun f => decide (maxFieldSize < Utf8.size f.2)).map fun f =>
    .fieldTooLong f.1 (Utf8.size f.2)

namespace Wire

/-- The fields in wire order, with their names. -/
def RegisterRequest.fields (m : RegisterRequest) : List (String × String) :=
  [("username", m.username), ("email", m.email), ("password", m.password)]

/-- The fields in wire order, with their names. -/
def LoginRequest.fields (m : LoginRequest) : List (String × String) :=
  [("username", m.username), ("password", m.password)]

end Wire

theorem overlong_cons (field s : String) (fields : List (String × String)) :
    overlong ((field, s) :: fields) =
      if maxFieldSize < Utf8.size s then some (.fieldTooLong field (Utf8.size s))
      else overlong fields := by
  unfold overlong
  by_cases h : maxFieldSize < Utf8.size s <;> simp [h]

/-- A message with these fields fails to be encoded for the first of them that is too long, and for
nothing else. -/
structure EncodesFields (fields : List (String × String))
    (encoded : Except ValidationError Bytes) : Prop where
  refused : ∀ e, overlong fields = some e → encoded = .error e
  encoded : overlong fields = none → ∃ payload, encoded = .ok payload

theorem EncodesFields.nil (bs : Bytes) : EncodesFields [] (.ok bs) where
  refused _ he := by cases he
  encoded _ := ⟨bs, rfl⟩

theorem EncodesFields.cons {field s : String} {fields : List (String × String)}
    {rest : Bytes → Except ValidationError Bytes} (h : ∀ bs, EncodesFields fields (rest bs)) :
    EncodesFields ((field, s) :: fields) (Field.text field s >>= rest) := by
  unfold Field.text
  by_cases hs : maxFieldSize < Utf8.size s
  · constructor <;> rw [overlong_cons, if_pos hs, if_pos hs]
    · rintro e ⟨⟩
      rfl
    · exact nofun
  · constructor <;> rw [overlong_cons, if_neg hs, if_neg hs]
    · exact (h _).refused
    · exact (h _).encoded

theorem Wire.RegisterRequest.encodesFields (m : RegisterRequest) :
    EncodesFields m.fields m.encode :=
  .cons fun _ => .cons fun _ => .cons fun _ => .nil _

theorem Wire.LoginRequest.encodesFields (m : LoginRequest) : EncodesFields m.fields m.encode :=
  .cons fun _ => .cons fun _ => .nil _

/-! ### Footprints -/

/-- What may be done for one request if the attempt to connect ends like this. -/
inductive Footprint (d : DialResult) : List Action → Prop where
  | unopened : d ≠ .opened → Footprint d [.dialled d]
  | unsent : d = .opened → Footprint d [.dialled .opened, .closed]
  | sent {type : MessageType} {payload frame : Bytes} (r : WriteResult) : d = .opened →
    Frame.encode type payload = .ok frame →
    Footprint d [.dialled .opened, .wrote frame r, .closed]

/-- A call that asks for one answer: it fails without doing anything if there is cause for refusal,
and otherwise makes this attempt to connect. -/
structure OneShot {α : Type} (refusal : Option CallError) (d : DialResult) (a : Answer α) :
    Prop where
  refused : ∀ e, refusal = some e → a.result = .error e ∧ a.actions = []
  attempted : refusal = none → Footprint d a.actions

theorem OneShot.andThen {α β : Type} {refusal : Option CallError} {d : DialResult} {a : Answer α}
    (h : OneShot refusal d a) (f : α → Except CallError β) : OneShot refusal d (a.andThen f) where
  refused e he := by
    obtain ⟨hresult, hactions⟩ := h.refused e he
    exact ⟨by rw [Answer.andThen, hresult]; rfl, hactions⟩
  attempted := h.attempted

namespace Client

variable (c : Client) (timeout : Nat) (type : MessageType) (payload : Bytes) (peer : Peer)

/-- Why a request of this type is refused, if it is. -/
def unanswerable (type : MessageType) : Option CallError :=
  if type.response?.isNone then some (.unexpected (type.label ++ " has no response type"))
  else none

theorem footprint_exchange (t : Terms) (type expected : MessageType) (payload : Bytes)
    (peer : Peer) : Footprint .opened (exchange t type expected payload peer).actions := by
  unfold exchange
  cases hframe : Frame.encode type payload with
  | error e => exact .unsent rfl
  | ok frame => exact .sent _ rfl hframe

/-- **A request makes one attempt, unless its type has no answer.** -/
theorem oneShot_request :
    OneShot (unanswerable type) (Terms.attempt ⟨c.address, timeout⟩ peer.dial)
      (c.request timeout type payload peer) := by
  unfold unanswerable request
  cases type.response? with
  | none => exact ⟨fun e he => by cases he; exact ⟨rfl, rfl⟩, nofun⟩
  | some expected =>
    refine ⟨nofun, fun _ => ?_⟩
    dsimp only
    cases Terms.attempt ⟨c.address, timeout⟩ peer.dial with
    | opened => exact footprint_exchange ..
    | failed | timedOut => exact .unopened nofun

/-- **A request with a message makes one attempt, unless a field is too long.** -/
theorem oneShot_ask {α : Type} {fields : List (String × String)}
    {encoded : Except ValidationError Bytes} (decode : Bytes → Except FramingError α)
    (hfields : EncodesFields fields encoded) (htype : type.response?.isSome = true) :
    OneShot ((overlong fields).map .validation) (Terms.attempt ⟨c.address, timeout⟩ peer.dial)
      (c.ask timeout type encoded decode peer) := by
  constructor
  · intro err herr
    obtain ⟨e, hover, rfl⟩ := Option.map_eq_some_iff.1 herr
    rw [hfields.refused e hover]
    exact ⟨rfl, rfl⟩
  · intro hnone
    obtain ⟨payload, rfl⟩ := hfields.encoded (Option.map_eq_none_iff.1 hnone)
    have hanswer : unanswerable type = none := by
      unfold unanswerable
      rw [if_neg]
      exact fun hnone => Option.isSome_iff_ne_none.1 htype (Option.isNone_iff_eq_none.1 hnone)
    exact (c.oneShot_request timeout type payload peer).attempted hanswer

end Client

end Corelink
