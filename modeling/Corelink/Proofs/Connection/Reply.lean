import Corelink.Client
import Corelink.Proofs.Wire.First

/-!
# The outcome of a request

A request waits for the first frame that Core sends and reads no further. While it waits, what it
has received so far is all that it knows (`Wait.look_resume`), so reads may cut the stream anywhere:
as soon as the stream is found to begin with a frame or with a refused header, that is the outcome
(`Wait.run_found`), and if it ends before, the outcome is how it ended (`Wait.run_undecided`). Put
together, a request gives what `Terms.outcome` says of the bytes that Core sent and of how they
ended (`Client.request_of_stream`).
-/

namespace Corelink

open Wire

/-! ### What Core does -/

/-- The bytes that a read gives. -/
def ReadResult.given : ReadResult → Bytes
  | .bytes b bs => b :: bs
  | .closed | .failed _ | .timedOut => []

/-- What one read gives, at least one byte. -/
structure Chunk where
  first : UInt8
  more : Bytes
  deriving DecidableEq, Repr

namespace Chunk

def bytes (c : Chunk) : Bytes :=
  c.first :: c.more

def read (c : Chunk) : ReadResult :=
  .bytes c.first c.more

/-- All that some reads give. -/
def stream (chunks : List Chunk) : Bytes :=
  chunks.flatMap bytes

@[simp] theorem stream_nil : stream [] = [] := rfl

@[simp] theorem stream_cons (c : Chunk) (chunks : List Chunk) :
    stream (c :: chunks) = c.bytes ++ stream chunks := rfl

end Chunk

/-- How the bytes that Core sends come to an end. -/
inductive Ending where
  | closed
  | reset
  | silent
  deriving DecidableEq, Repr

def Ending.read : Ending → ReadResult
  | closed => .closed
  | reset => .failed .reset
  | silent => .timedOut

/-- What is missing of the first frame of a stream that has ended. -/
def missing (limit : Nat) (s : Bytes) : ProtocolError :=
  match (Parse.run limit s).pending with
  | none => .incomplete .header headerSize s.length
  | some h => .incomplete .payload h.size (s.length - headerSize)

namespace Terms

/-- The failure of a wait that has ended before anything was found in these bytes. -/
def failure (t : Terms) (s : Bytes) : Ending → CallError
  | .closed => .protocol (missing maxPayloadSize s)
  | .reset => .connection (.broken .reset)
  | .silent => .connection (.timeout t.address .reading t.timeout)

/-- What a request comes to that Core answers with these bytes. -/
def outcome (t : Terms) (expected : MessageType) (s : Bytes) (ending : Ending) :
    Except CallError Bytes :=
  match (Parse.run maxPayloadSize s).first? with
  | some (.ok f) =>
    if f.header.type = expected.code then .ok f.payload
    else .error (.protocol (.unexpectedType expected f.header.type))
  | some (.error e) => .error (.protocol (.framing e))
  | none => .error (t.failure s ending)

end Terms

/-! ### The wait -/

namespace Wait

variable {limit : Nat} {t : Terms} {s : Bytes} {chunks : List Chunk} {reads : List ReadResult}

theorem look_start (limit : Nat) (s : Bytes) :
    look ⟨⟨limit, none⟩, s⟩ =
      match (Parse.run limit s).first? with
      | none => .more ((Parse.run limit s).receiver limit)
      | some (.ok f) => .frame f ⟨⟨limit, none⟩, s.drop (headerSize + f.header.size)⟩
      | some (.error e) => .failed (.ofFraming e) := by
  unfold look Receiver.next
  rw [Parse.look_start]
  cases (Parse.run limit s).first? with
  | none => rfl
  | some v => cases v <;> rfl

theorem look_sent {f : Frame} {bs : Bytes} (h : f.IsSentAs bs) (hl : f.header.size ≤ limit)
    (rest : Bytes) : look ⟨⟨limit, none⟩, bs ++ rest⟩ = .frame f ⟨⟨limit, none⟩, rest⟩ := by
  rw [look_start, Parse.first?_of_sent h hl]
  dsimp only
  rw [List.drop_left' h.length_eq]

theorem look_resume (h : (Parse.run limit s).first? = none) (bs : Bytes) :
    look (((Parse.run limit s).receiver limit).fill bs) = look ⟨⟨limit, none⟩, s ++ bs⟩ := by
  have hlook : Decoder.look ((Parse.run limit s).receiver limit).decoder
      (((Parse.run limit s).receiver limit).buffer ++ bs) = Decoder.look ⟨limit, none⟩ (s ++ bs) :=
    Parse.look_resume h bs
  unfold look Receiver.next Receiver.fill
  rw [hlook]
  cases Decoder.look ⟨limit, none⟩ (s ++ bs) <;> rfl

theorem read_more {a : ReadResult} {r : Receiver} (h : (Parse.run limit s).first? = none)
    (hr : read t ((Parse.run limit s).receiver limit) a = .more r) :
    (Parse.run limit (s ++ a.given)).first? = none ∧
      r = (Parse.run limit (s ++ a.given)).receiver limit := by
  cases a with
  | bytes b bs =>
    change look (((Parse.run limit s).receiver limit).fill (b :: bs)) = _ at hr
    rw [look_resume h, look_start] at hr
    change (Parse.run limit (s ++ b :: bs)).first? = none ∧ _
    split at hr
    · next hnone =>
      cases hr
      exact ⟨hnone, rfl⟩
    · cases hr
    · cases hr
  | closed | failed | timedOut => cases hr

theorem read_frame {a : ReadResult} {r : Receiver} {f : Frame}
    (h : (Parse.run limit s).first? = none)
    (hr : read t ((Parse.run limit s).receiver limit) a = .frame f r) :
    ∃ bs later, s ++ a.given = bs ++ later ∧ f.IsSentAs bs ∧ f.header.size ≤ limit ∧
      r = ⟨⟨limit, none⟩, later⟩ := by
  cases a with
  | bytes b bs =>
    change look (((Parse.run limit s).receiver limit).fill (b :: bs)) = _ at hr
    rw [look_resume h, look_start] at hr
    change ∃ bs' later, s ++ b :: bs = bs' ++ later ∧ _
    split at hr
    · cases hr
    · next g hfound =>
      cases hr
      obtain ⟨bs', later, hs, hsent, hfit⟩ := Parse.sent_of_first? hfound
      refine ⟨bs', later, hs, hsent, hfit, ?_⟩
      rw [hs, List.drop_left' hsent.length_eq]
    · cases hr
  | closed | failed | timedOut => cases hr

theorem run_look_found {v : Except FramingError Frame} (h : (Parse.run limit s).first? = some v) :
    ((look ⟨⟨limit, none⟩, s⟩).run t reads).1.map Prod.fst = liftFraming v := by
  rw [look_start, h]
  cases v with
  | ok f =>
    show ((run t (.frame f _) reads).1).map Prod.fst = _
    rw [run]
    rfl
  | error e =>
    show ((run t (.failed _) reads).1).map Prod.fst = _
    rw [run]
    rfl

/-- A look that finds nothing leads to the next read. -/
theorem run_look_undecided (h : (Parse.run limit s).first? = none) (c : Chunk) :
    (look ⟨⟨limit, none⟩, s⟩).run t (c.read :: reads) =
      (look ⟨⟨limit, none⟩, s ++ c.bytes⟩).run t reads := by
  rw [look_start, h, ← look_resume h]
  show run t (.more _) (c.read :: reads) = _
  rw [run]
  rfl

/-- **What a stream is found to begin with is what the wait comes to**, whatever comes after. -/
theorem run_found {v : Except FramingError Frame}
    (h : (Parse.run limit (s ++ Chunk.stream chunks)).first? = some v) :
    ((look ⟨⟨limit, none⟩, s⟩).run t (chunks.map Chunk.read ++ reads)).1.map Prod.fst =
      liftFraming v := by
  induction chunks generalizing s with
  | nil =>
    rw [Chunk.stream_nil, List.append_nil] at h
    exact run_look_found h
  | cons c chunks ih =>
    rw [Chunk.stream_cons, ← List.append_assoc] at h
    cases hs : (Parse.run limit s).first? with
    | none =>
      rw [List.map_cons, List.cons_append, run_look_undecided hs]
      exact ih h
    | some w =>
      -- it has been found already
      have hw := Parse.first?_append hs (c.bytes ++ Chunk.stream chunks)
      rw [← List.append_assoc, h] at hw
      cases hw
      exact run_look_found hs

theorem run_undecided (h : (Parse.run limit (s ++ Chunk.stream chunks)).first? = none) :
    (look ⟨⟨limit, none⟩, s⟩).run t (chunks.map Chunk.read ++ reads) =
      run t (.more ((Parse.run limit (s ++ Chunk.stream chunks)).receiver limit)) reads := by
  induction chunks generalizing s with
  | nil =>
    rw [Chunk.stream_nil, List.append_nil] at h ⊢
    rw [look_start, h]
    rfl
  | cons c chunks ih =>
    rw [Chunk.stream_cons, ← List.append_assoc] at h ⊢
    cases hs : (Parse.run limit s).first? with
    | none =>
      rw [List.map_cons, List.cons_append, run_look_undecided hs]
      exact ih h
    | some w =>
      have hw := Parse.first?_append hs (c.bytes ++ Chunk.stream chunks)
      rw [← List.append_assoc, h] at hw
      cases hw

theorem shortfall_eq_missing (h : (Parse.run limit s).first? = none) :
    ((Parse.run limit s).receiver limit).shortfall = missing limit s := by
  unfold missing
  have hbegins := Parse.begins limit s
  generalize Parse.run limit s = p at h hbegins
  cases hbegins with
  | short => rfl
  | cut =>
    show ProtocolError.incomplete _ _ (s.drop headerSize).length = _
    rw [List.length_drop]
  | refused | frame => cases h

theorem read_ending (h : (Parse.run maxPayloadSize s).first? = none) (ending : Ending) :
    read t ((Parse.run maxPayloadSize s).receiver maxPayloadSize) ending.read =
      .failed (t.failure s ending) := by
  cases ending with
  | closed =>
    show Wait.failed (.protocol (Receiver.shortfall _)) = _
    rw [shortfall_eq_missing h]
    rfl
  | reset | silent => rfl

theorem run_ending (h : (Parse.run maxPayloadSize s).first? = none) (ending : Ending) :
    (run t (.more ((Parse.run maxPayloadSize s).receiver maxPayloadSize))
      (ending.read :: reads)).1 = .error (t.failure s ending) := by
  rw [run, read_ending h, run]

end Wait

/-! ### Requests -/

namespace Client

variable {c : Client} {timeout : Nat} {type expected : MessageType} {payload frame : Bytes}
  {peer : Peer}

theorem request_of_written (htype : type.response? = some expected)
    (haddress : Address.fault? c.address = none) (hframe : Frame.encode type payload = .ok frame)
    (hdial : peer.dial = .opened) (hwrite : peer.write frame = .done) :
    (c.request timeout type payload peer).result =
      ((receive ⟨c.address, timeout⟩ {} (peer.reads frame)).1.map Prod.fst).bind
        (replyPayload expected) := by
  have hattempt : Terms.attempt ⟨c.address, timeout⟩ peer.dial = .opened := by
    unfold Terms.attempt
    rw [haddress, hdial]
  unfold request
  rw [htype]
  dsimp only
  rw [hattempt]
  show (exchange _ _ _ _ _).result = _
  unfold exchange
  rw [hframe]
  dsimp only
  rw [hwrite]
  cases (receive ⟨c.address, timeout⟩ {} (peer.reads frame)).1 with
  | error e => rfl
  | ok reply => rfl

/-- **The outcome of a request depends on the bytes that Core sends and on how they end**, not on
how they are cut. A frame decides it with its last byte and a refused header with its twelfth,
whatever is read after that. -/
theorem request_of_stream (htype : type.response? = some expected)
    (haddress : Address.fault? c.address = none) (hframe : Frame.encode type payload = .ok frame)
    (hdial : peer.dial = .opened) (hwrite : peer.write frame = .done) :
    (∀ chunks ending later, peer.reads frame = chunks.map Chunk.read ++ ending.read :: later →
      (c.request timeout type payload peer).result =
        Terms.outcome ⟨c.address, timeout⟩ expected (Chunk.stream chunks) ending) ∧
    (∀ chunks later head v, peer.reads frame = chunks.map Chunk.read ++ later →
      head <+: Chunk.stream chunks → (Parse.run maxPayloadSize head).first? = some v →
      (c.request timeout type payload peer).result =
        (liftFraming v).bind (replyPayload expected)) ∧
    (∀ s f, (Parse.run maxPayloadSize s).first? = some (.ok f) →
      (Parse.run maxPayloadSize (s.take (headerSize + f.header.size))).first? = some (.ok f)) ∧
    ∀ s e, (Parse.run maxPayloadSize s).first? = some (.error e) →
      (Parse.run maxPayloadSize (s.take headerSize)).first? = some (.error e) := by
  have hrequest : (c.request timeout type payload peer).result = _ :=
    request_of_written htype haddress hframe hdial hwrite
  have found : ∀ {chunks later v}, peer.reads frame = chunks.map Chunk.read ++ later →
      (Parse.run maxPayloadSize (Chunk.stream chunks)).first? = some v →
      (c.request timeout type payload peer).result =
        (liftFraming v).bind (replyPayload expected) := by
    intro chunks later v hreads hv
    rw [hrequest, hreads]
    exact congrArg (Except.bind · (replyPayload expected)) (Wait.run_found (s := []) hv)
  refine ⟨?_, ?_, fun s f => Parse.first?_take_frame, fun s e => Parse.first?_take_header⟩
  · intro chunks ending later hreads
    unfold Terms.outcome
    cases hv : (Parse.run maxPayloadSize (Chunk.stream chunks)).first? with
    | some v =>
      rw [found hreads hv]
      cases v <;> rfl
    | none =>
      have hwait : receive ⟨c.address, timeout⟩ {} (chunks.map Chunk.read ++ ending.read :: later) =
          _ := Wait.run_undecided (s := []) hv
      rw [hrequest, hreads, hwait, List.nil_append, Wait.run_ending hv]
      rfl
  · intro chunks later head v hreads hhead hv
    exact found hreads (Parse.first?_of_prefix hv hhead)

/-- A ping whose answer comes in three pieces, with bytes behind it that nobody looks at; and one
that is closed upon in the middle of a header. -/
theorem ping_of_stream :
    (request ⟨"127.0.0.1:9000"⟩ 5000 .ping [] ⟨.opened, fun _ => .done, fun _ =>
      [.bytes 70 [83], .bytes 88 [49, 1, 3, 0, 0, 0, 1, 0, 0], .bytes 7 [9, 9], .timedOut]⟩).result =
        .ok [7] ∧
    (request ⟨"127.0.0.1:9000"⟩ 5000 .ping [] ⟨.opened, fun _ => .done, fun _ =>
      [.bytes 70 [83], .closed]⟩).result = .error (.protocol (.incomplete .header 12 2)) := by
  have hrequest := fun reads => @request_of_stream ⟨"127.0.0.1:9000"⟩ 5000 .ping .pong [] _
    ⟨.opened, fun _ => .done, fun _ => reads⟩ rfl rfl rfl rfl rfl
  constructor
  · have hpong : (Frame.ofMessage .pong [7]).IsSentAs [70, 83, 88, 49, 1, 3, 0, 0, 0, 1, 0, 0, 7] :=
      Frame.isSentAs_of_encode rfl
    have hfound : (Parse.run maxPayloadSize _).first? = _ :=
      Parse.first?_of_sent hpong (by decide) []
    refine (hrequest _).2.1 [⟨70, [83]⟩, ⟨88, [49, 1, 3, 0, 0, 0, 1, 0, 0]⟩, ⟨7, [9, 9]⟩]
      [.timedOut] _ _ rfl ?_ hfound
    exact ⟨[9, 9], rfl⟩
  · have hshort : Parse.run maxPayloadSize [70, 83] = ⟨[], none, none, [70, 83]⟩ := by
      rw [Parse.run_eq]
      rfl
    rw [(hrequest [.bytes 70 [83], .closed]).1 [⟨70, [83]⟩] .closed [] rfl]
    show Terms.outcome _ _ [70, 83] _ = _
    unfold Terms.outcome Terms.failure missing
    rw [hshort]
    rfl

end Client

end Corelink
