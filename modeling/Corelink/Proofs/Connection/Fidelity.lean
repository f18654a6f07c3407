import Corelink.Proofs.Connection.Exchange
import Corelink.Proofs.Connection.Reply
import Corelink.Proofs.Wire.Framing
import Corelink.Proofs.Wire.Message
import Corelink.Rehearsal.Script

/-!
# Requests and responses from end to end

What a call is asked reaches Core as one frame, and what Core answers is what the call gives. The
request's payload is far below the limit of a frame (`RegisterRequest.length_encode_le`,
`LoginRequest.length_encode_le`), so Core's receiver takes it whole however it is cut
(`Wire.Receiver.feedAll_encode`); and the answer, if it is below the limit, is found in what comes
back however that is cut (`receive_of_arrivals`). `Faithful.of_ask` puts the two together for every
call that asks one question.
-/

namespace Corelink

open Wire Rehearsal

/-! ### Sizes -/

namespace Wire

theorem Field.length_le_of_text {field s : String} {bs : Bytes} (h : Field.text field s = .ok bs) :
    bs.length ≤ maxFieldSize + 2 := by
  obtain ⟨hs, rfl⟩ := text_eq_ok_iff.1 h
  rw [List.length_append, BigEndian.length_ofNat]
  show 2 + Utf8.size s ≤ _
  omega

theorem RegisterRequest.length_encode_le {m : RegisterRequest} {p : Bytes}
    (h : m.encode = .ok p) : p.length ≤ maxPayloadSize := by
  obtain ⟨username, hu, h⟩ := bind_eq_ok_iff.1 h
  obtain ⟨email, he, h⟩ := bind_eq_ok_iff.1 h
  obtain ⟨password, hp, h⟩ := bind_eq_ok_iff.1 h
  cases h
  have hu := Field.length_le_of_text hu
  have he := Field.length_le_of_text he
  have hp := Field.length_le_of_text hp
  simp only [List.length_append, maxFieldSize, maxPayloadSize] at *
  omega

theorem LoginRequest.length_encode_le {m : LoginRequest} {p : Bytes}
    (h : m.encode = .ok p) : p.length ≤ maxPayloadSize := by
  obtain ⟨username, hu, h⟩ := bind_eq_ok_iff.1 h
  obtain ⟨password, hp, h⟩ := bind_eq_ok_iff.1 h
  cases h
  have hu := Field.length_le_of_text hu
  have hp := Field.length_le_of_text hp
  simp only [List.length_append, maxFieldSize, maxPayloadSize] at *
  omega

theorem RegisterResponse.length_encode_le {m : RegisterResponse} {p : Bytes}
    (h : m.encode = .ok p) : p.length ≤ maxPayloadSize := by
  obtain ⟨message, hm, h⟩ := bind_eq_ok_iff.1 h
  cases h
  have hm := Field.length_le_of_text hm
  simp only [List.length_cons, maxFieldSize, maxPayloadSize] at *
  omega

theorem LoginResponse.length_encodeGrant_le {m : LoginResponse} {grant : Bytes}
    (h : m.encodeGrant = .ok grant) : grant.length ≤ 2 * (maxFieldSize + 2) + 8 := by
  obtain ⟨token, ht, h⟩ := bind_eq_ok_iff.1 h
  obtain ⟨username, hu, h⟩ := bind_eq_ok_iff.1 h
  cases h
  have ht := Field.length_le_of_text ht
  have hu := Field.length_le_of_text hu
  simp only [List.length_append, BigEndian.length_ofNat]
  omega

theorem LoginResponse.length_encode_le {m : LoginResponse} {p : Bytes}
    (h : m.encode = .ok p) : p.length ≤ maxPayloadSize := by
  obtain ⟨ok, token, userId, username, text⟩ := m
  cases ok with
  | true =>
    obtain ⟨grant, hg, h⟩ := bind_eq_ok_iff.1 h
    obtain ⟨message, hm, h⟩ := bind_eq_ok_iff.1 h
    cases h
    have hg := length_encodeGrant_le hg
    have hm := Field.length_le_of_text hm
    simp only [List.length_append, List.length_cons, maxFieldSize, maxPayloadSize] at *
    omega
  | false =>
    obtain ⟨grant, hg, h⟩ := bind_eq_ok_iff.1 h
    obtain ⟨message, hm, h⟩ := bind_eq_ok_iff.1 h
    cases hg
    cases h
    have hm := Field.length_le_of_text hm
    simp only [List.length_append, List.length_cons, List.length_nil, maxFieldSize,
      maxPayloadSize] at *
    omega

theorem Frame.encode_of_fits (type : MessageType) {payload : Bytes}
    (h : payload.length ≤ maxPayloadSize) : ∃ frame, Frame.encode type payload = .ok frame :=
  ⟨_, Frame.encode_eq_ok_iff.2 ⟨Nat.lt_of_le_of_lt h (by decide), rfl⟩⟩

end Wire

/-! ### What Core gets -/

section
variable {Req Res Val : Type} {type expected : MessageType} {payload frame : Bytes}

/-- Core gets this message on a connection that opens, and nothing else: the call writes one frame,
and a receiver takes one frame from it, wherever it is cut. -/
structure Conveys (call : Client → Nat → Req → Peer → Answer Val) (req : Req) (type : MessageType)
    (payload frame : Bytes) : Prop where
  writes : ∀ (c : Client) (timeout : Nat) (peer : Peer),
    Terms.attempt ⟨c.address, timeout⟩ peer.dial = .opened →
    (call c timeout req peer).actions =
      [.dialled .opened, .wrote frame (peer.write frame), .closed]
  taken : ∀ feeds : List Bytes, feeds.flatten = frame →
    Receiver.feedAll {} feeds = ([Frame.ofMessage type payload], none, {})

theorem Wire.Receiver.feedAll_encode (hframe : Frame.encode type payload = .ok frame)
    (hfit : payload.length ≤ maxPayloadSize) {feeds : List Bytes} (h : feeds.flatten = frame) :
    Receiver.feedAll {} feeds = ([Frame.ofMessage type payload], none, {}) := by
  have hrun : Parse.run maxPayloadSize frame =
      ⟨[Frame.ofMessage type payload], none, none, []⟩ := by
    have hsize : (Frame.ofMessage type payload).header.size ≤ maxPayloadSize := by
      rw [Frame.size_of_encode hframe]
      exact hfit
    have hsent := Parse.run_sent (Frame.isSentAs_of_encode hframe) hsize []
    rw [List.append_nil] at hsent
    rw [hsent, Parse.run_eq]
    rfl
  show (Receiver.fresh maxPayloadSize).feedAll feeds = _
  rw [Receiver.feedAll_fresh, h, hrun]
  rfl

/-! ### What Core answers -/

/-- What is read of chunks that each arrive so many milliseconds after what came before. -/
def readWithin (timeout : Nat) (arrivals : List (Nat × Chunk)) : List ReadResult :=
  arrivals.map fun a => Delivery.within timeout ⟨a.1, a.2.read⟩

/-- If Core answers this frame with `reply`, cut into chunks that come in time, the call gives `v`,
whatever follows. -/
def Returns (call : Client → Nat → Req → Peer → Answer Val) (req : Req) (frame reply : Bytes)
    (v : Val) : Prop :=
  ∀ (c : Client) (timeout : Nat) (peer : Peer) (arrivals : List (Nat × Chunk)) (rest : Bytes)
    (later : List ReadResult),
    Terms.attempt ⟨c.address, timeout⟩ peer.dial = .opened → peer.write frame = .done →
    peer.reads frame = readWithin timeout arrivals ++ later → (∀ a ∈ arrivals, a.1 < timeout) →
    Chunk.stream (arrivals.map Prod.snd) = reply ++ rest →
    (call c timeout req peer).result = .ok v

theorem readWithin_eq {timeout : Nat} {arrivals : List (Nat × Chunk)}
    (h : ∀ a ∈ arrivals, a.1 < timeout) :
    readWithin timeout arrivals = (arrivals.map Prod.snd).map Chunk.read := by
  rw [List.map_map]
  refine List.map_congr_left fun a ha => ?_
  exact if_pos (h a ha)

/-- A frame that comes in time is found, wherever it is cut. -/
theorem receive_of_arrivals {t : Terms} {f : Frame} {reply rest : Bytes}
    {arrivals : List (Nat × Chunk)} (later : List ReadResult) (hsent : f.IsSentAs reply)
    (hfit : f.header.size ≤ maxPayloadSize) (h : ∀ a ∈ arrivals, a.1 < t.timeout)
    (hstream : Chunk.stream (arrivals.map Prod.snd) = reply ++ rest) :
    ∃ r, (receive t {} (readWithin t.timeout arrivals ++ later)).1 = .ok (f, r) := by
  have hfirst := Parse.first?_of_sent hsent hfit rest
  rw [← hstream] at hfirst
  have hfound : (receive t {} ((arrivals.map Prod.snd).map Chunk.read ++ later)).1.map Prod.fst =
      liftFraming (.ok f) := Wait.run_found (s := []) hfirst
  rw [readWithin_eq h]
  cases hr : (receive t {} ((arrivals.map Prod.snd).map Chunk.read ++ later)).1 with
  | error e =>
    rw [hr] at hfound
    cases hfound
  | ok got =>
    rw [hr] at hfound
    obtain ⟨g, r⟩ := got
    cases hfound
    exact ⟨r, rfl⟩

/-! ### From end to end -/

/-- **A call is faithful** if every request that can be encoded reaches Core as it is, in one frame,
and every response that can be encoded and fits is what the call gives, as `keep` has it. -/
structure Faithful (type expected : MessageType) (call : Client → Nat → Req → Peer → Answer Val)
    (encode : Req → Except ValidationError Bytes) (Says : Bytes → Req → Prop)
    (respond : Res → Except ValidationError Bytes) (keep : Res → Val) : Prop where
  conveys : ∀ {req : Req} {payload : Bytes}, encode req = .ok payload → Says payload req ∧
    ∃ frame, Frame.encode type payload = .ok frame ∧ Conveys call req type payload frame
  returns : ∀ {req : Req} {payload frame : Bytes} {res : Res} {answer : Bytes},
    encode req = .ok payload → Frame.encode type payload = .ok frame → respond res = .ok answer →
    answer.length ≤ maxPayloadSize →
    ∃ reply, Frame.encode expected answer = .ok reply ∧ Returns call req frame reply (keep res)

variable {Ans : Type} {call : Client → Nat → Req → Peer → Answer Val}
  {encode : Req → Except ValidationError Bytes} {Says : Bytes → Req → Prop}
  {respond : Res → Except ValidationError Bytes} {decode : Bytes → Except FramingError Ans}

theorem Faithful.of_ask (read : Res → Ans) (give : Ans → Val)
    (htype : type.response? = some expected)
    (hcall : ∀ c timeout req peer, call c timeout req peer =
      (Client.ask c timeout type (encode req) decode peer).andThen fun a => .ok (give a))
    (hreq : ∀ {req payload}, encode req = .ok payload →
      payload.length ≤ maxPayloadSize ∧ Says payload req)
    (hres : ∀ {res answer}, respond res = .ok answer → decode answer = .ok (read res)) :
    Faithful type expected call encode Says respond fun res => give (read res) where
  conveys {req payload} hp := by
    obtain ⟨hfit, hmeant⟩ := hreq hp
    obtain ⟨frame, hframe⟩ := Frame.encode_of_fits type hfit
    refine ⟨hmeant, frame, hframe, fun c timeout peer hopen => ?_, fun feeds h => ?_⟩
    · rw [hcall, hp]
      exact Client.request_actions htype hopen hframe
    · exact Receiver.feedAll_encode hframe hfit h
  returns {req payload frame res answer} hp hframe hanswer hfit := by
    obtain ⟨reply, hreply⟩ := Frame.encode_of_fits expected hfit
    refine ⟨reply, hreply, ?_⟩
    intro c timeout peer arrivals rest later hopen hwrite hreads hgaps hstream
    obtain ⟨r, hreceive⟩ := receive_of_arrivals (t := ⟨c.address, timeout⟩) later
      (Frame.isSentAs_of_encode hreply) (by rw [Frame.size_of_encode hreply]; exact hfit) hgaps
      hstream
    have hask : (Client.ask c timeout type (encode req) decode peer).result = .ok (read res) := by
      refine Client.ask_eq_ok_iff.2 ⟨payload, expected, answer, hp, htype, ⟨hopen, frame,
        Frame.ofMessage expected answer, r, hframe, hwrite, ?_, rfl, rfl⟩, hres hanswer⟩
      rw [hreads]
      exact hreceive
    rw [hcall]
    show (Client.ask c timeout type (encode req) decode peer).result.bind _ = _
    rw [hask]
    rfl

end

/-- **Requests and responses are carried whole.** A register, a login or a query for the users
online reaches Core as it was asked, and gives what Core answers: a rejected login without what
only an accepted one carries, and users in Core's order with the repeats. Of the first two every
request and every response fits. -/
theorem calls_are_faithful :
    Faithful .registerRequest .registerResponse Client.register RegisterRequest.encode
      (fun payload req => RegisterRequest.decode payload = .ok req) RegisterResponse.encode id ∧
    Faithful .loginRequest .loginResponse Client.login LoginRequest.encode
      (fun payload req => LoginRequest.decode payload = .ok req) LoginResponse.encode
      (fun m => if m.ok then m else .rejected m.message) ∧
    Faithful .onlineListRequest .onlineListResponse
      (fun c timeout (_ : Unit) peer => c.onlineList timeout peer) (fun _ => .ok [])
      (fun payload _ => payload = []) OnlineListResponse.encode OnlineListResponse.usernames ∧
    (∀ (m : RegisterRequest) p, m.encode = .ok p → p.length ≤ maxPayloadSize) ∧
    (∀ (m : LoginRequest) p, m.encode = .ok p → p.length ≤ maxPayloadSize) ∧
    (∀ (m : RegisterResponse) p, m.encode = .ok p → p.length ≤ maxPayloadSize) ∧
    ∀ (m : LoginResponse) p, m.encode = .ok p → p.length ≤ maxPayloadSize := by
  have bindOk {α : Type} (a : Answer α) : a = a.andThen fun v => .ok v := by
    obtain ⟨result, actions⟩ := a
    cases result <;> rfl
  refine ⟨?_, ?_, ?_, fun _ _ => RegisterRequest.length_encode_le,
    fun _ _ => LoginRequest.length_encode_le, fun _ _ => RegisterResponse.length_encode_le,
    fun _ _ => LoginResponse.length_encode_le⟩
  · exact .of_ask id id rfl (fun _ _ _ _ => bindOk _)
      (fun h => ⟨RegisterRequest.length_encode_le h, (RegisterRequest.takes h).decode⟩)
      fun h => (RegisterResponse.takes h).decode
  · exact .of_ask LoginResponse.plain id rfl (fun _ _ _ _ => bindOk _)
      (fun h => ⟨LoginRequest.length_encode_le h, (LoginRequest.takes h).decode⟩)
      fun h => (LoginResponse.takes h).decode
  · refine .of_ask id OnlineListResponse.usernames rfl (fun _ _ _ _ => rfl) ?_
      fun h => (OnlineListResponse.takes h).decode
    rintro _ _ ⟨⟩
    exact ⟨Nat.zero_le _, rfl⟩

end Corelink
