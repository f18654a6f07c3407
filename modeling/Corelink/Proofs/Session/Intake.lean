import Corelink.Proofs.Connection.Reply
import Corelink.Proofs.Session.Moves

/-!
# What a keep-alive makes of what Core sends

A run tells which bytes have come in on a connection and which frames its keep-alive has taken in
(`Trace`). A keep-alive is handed over what has come in behind the answer to the login. Until its
first read it makes nothing of it; with each read it comes to the parse of all that there is
(`digest_feed`). So a session stays accounted for in each of its steps (`Handed.moves`).
-/

namespace Corelink

open Wire

/-- Where a keep-alive stands that has read, given the error of what it has read. -/
def KeepAlive.afterRead : Option FramingError → KeepAlive
  | none => .waiting
  | some e => .failing (.badFrame e)

namespace Session

variable {a b : Session} {x : CallId} {effects : List Effect}

theorem receiver_of_closing {next : Closing} {next' : Option Closing}
    (h : next.step x a = some ⟨b, next', effects⟩) : b.receiver = a.receiver := by
  cases Closing.does h <;> rfl

theorem receiver_of_proceed (h : a.proceed = some (b, effects)) :
    b.receiver = a.receiver := by
  cases proceeds h <;> rfl

end Session

namespace Manager

/-! ### What a run tells of a connection -/

/-- What has been done in a run, event by event. -/
abbrev Trace := List (Event × List Effect)

namespace Event

/-- The bytes that come in on connection `x`. -/
def given (x : CallId) : Event → Bytes
  | .read y r | .inbound y r => if y = x then r.given else []
  | .call .. | .proceed _ | .dial .. | .write .. | .keepAlive _ | .tick _ | .ping .. => []

/-- Whether the keep-alive of `x` reads bytes. -/
def feeds (x : CallId) : Event → Bool
  | .inbound y (.bytes ..) => y == x
  | _ => false

@[simp] theorem given_read (x : CallId) (r : ReadResult) : given x (.read x r) = r.given :=
  if_pos rfl

@[simp] theorem given_bytes (x : CallId) (first : UInt8) (more : Bytes) :
    given x (.inbound x (.bytes first more)) = first :: more :=
  if_pos rfl

@[simp] theorem feeds_bytes (x : CallId) (first : UInt8) (more : Bytes) :
    feeds x (.inbound x (.bytes first more)) = true :=
  beq_self_eq_true x

end Event

namespace Trace

/-- All bytes that have come in on connection `x`. -/
def received (x : CallId) (trace : Trace) : Bytes :=
  trace.flatMap fun e => e.1.given x

/-- All frames that the keep-alive of `x` has taken in. -/
def taken (x : CallId) (trace : Trace) : List Frame :=
  trace.flatMap fun e => takings x e.2

/-- Whether the keep-alive of `x` has read bytes. -/
def hasRead (x : CallId) (trace : Trace) : Bool :=
  trace.any fun e => e.1.feeds x

variable (x : CallId) (trace : Trace) (e : Event) (effects : List Effect)

@[simp] theorem received_concat :
    received x (trace ++ [(e, effects)]) = received x trace ++ e.given x := by
  simp [received]

@[simp] theorem taken_concat :
    taken x (trace ++ [(e, effects)]) = taken x trace ++ takings x effects := by
  simp [taken]

@[simp] theorem hasRead_concat :
    hasRead x (trace ++ [(e, effects)]) = (hasRead x trace || e.feeds x) := by
  simp [hasRead]

end Trace

variable {m : Manager} {s t : State} {e : Event} {es : List Event} {x : CallId} {u p : String}
  {effects : List Effect} {trace : Trace} {a b : Session}

/-- What holds in the empty table and is kept by every step, together with what it has done, holds
at the end of every run. -/
theorem run_invariant {P : State → Trace → Prop} (start : P {} [])
    (step : ∀ {s t : State} {e : Event} {effects : List Effect} {trace : Trace}, m.Reachable s →
      P s trace → m.step s e = some (t, effects) → P t (trace ++ [(e, effects)]))
    (hr : m.run {} es = some (t, trace)) : P t trace := by
  have along : ∀ {es : List Event} {s t : State} {before after : Trace}, m.Reachable s →
      P s before → m.run s es = some (t, after) → P t (before ++ after) := by
    intro es
    induction es with
    | nil =>
      intro s t before after _ h hr
      cases hr
      rwa [List.append_nil]
    | cons e es ih =>
      intro s t before after hs h hr
      obtain ⟨s', effects, rest, he, hes, rfl⟩ := run_cons hr
      have hnext := ih (.step hs he) (step hs h he) hes
      rwa [List.append_assoc] at hnext
  exact along .start start hr

/-! ### What a keep-alive makes of what it has received -/

/-- What a keep-alive has made of these bytes, of which some have been handed over to it: nothing
before it has read. -/
def digest (read : Bool) (bs : Bytes) : Parse :=
  if read then Parse.run maxPayloadSize bs else ⟨[], none, none, bs⟩

/-- **A read makes up for what came before it**: whether the keep-alive has read before or not, it
comes to the parse of all bytes. -/
theorem digest_feed (read : Bool) (bs more : Bytes) :
    ∃ frames, (digest true (bs ++ more)).frames = (digest read bs).frames ++ frames ∧
      ((digest read bs).receiver maxPayloadSize).feed more =
        (frames, (digest true (bs ++ more)).error,
          (digest true (bs ++ more)).receiver maxPayloadSize) := by
  have hall : digest true (bs ++ more) =
      (((digest read bs).receiver maxPayloadSize).parse more).behind (digest read bs).frames := by
    cases read with
    | false => rfl
    | true => exact Decoder.parse_append ⟨maxPayloadSize, none⟩ bs more
  refine ⟨(((digest read bs).receiver maxPayloadSize).parse more).frames, ?_, ?_⟩
  · rw [hall]
    rfl
  · rw [Receiver.feed_eq_parse, hall]
    rfl

/-! ### Reads of a session -/

theorem Moves.aged (h : Moves m s x a e effects b) : a.Aged b := by
  cases h with
  | still => exact .refl a
  | closing _ _ _ _ _ hstep => exact .of_closing hstep
  | proceed h => exact (Session.Kept.of_proceed h).aged
  | tick h => exact (Session.Kept.of_tick h).aged
  | ping h => exact (Session.Kept.of_ping h).aged
  | inbound h => exact (Session.Kept.of_inbound h).aged

/-- What does not bring bytes in. -/
structure Silent (x : CallId) (e : Event) (effects : List Effect) : Prop where
  given : e.given x = []
  feeds : e.feeds x = false
  takings : takings x effects = []

theorem Event.feeds_of_ne (he : e.session? ≠ some x) : e.feeds x = false := by
  unfold Event.feeds
  split
  · next y _ _ =>
    rw [beq_eq_false_iff_ne]
    rintro rfl
    exact he rfl
  · rfl

theorem Silent.of_ne (he : e.session? ≠ some x) (hr : ∀ r, e ≠ .read x r)
    (ht : Corelink.takings x effects = []) : Silent x e effects := by
  refine ⟨?_, Event.feeds_of_ne he, ht⟩
  cases e with
  | read y r =>
    refine if_neg ?_
    rintro rfl
    exact hr r rfl
  | inbound y r =>
    refine if_neg ?_
    rintro rfl
    exact he rfl
  | call | proceed | dial | write | keepAlive | tick | ping => rfl

theorem Moves.receiver (h : Moves m s x a e effects b) :
    (∃ first more, e = .inbound x (.bytes first more) ∧ a.keepAlive = .waiting ∧
      a.signalled = false ∧ (b, effects) = a.take x (first :: more)) ∨
    Silent x e effects ∧ b.receiver = a.receiver := by
  cases h with
  | still he hr ht => exact .inr ⟨.of_ne he hr ht, rfl⟩
  | closing he hr ht _ _ hstep => exact .inr ⟨.of_ne he hr ht, Session.receiver_of_closing hstep⟩
  | proceed h =>
    exact .inr ⟨⟨rfl, rfl, Session.takings_of_proceed h⟩, Session.receiver_of_proceed h⟩
  | tick h =>
    refine .inr ⟨⟨rfl, rfl, Session.takings_of_tick h⟩, ?_⟩
    cases Session.ticks h
    rfl
  | ping h =>
    refine .inr ⟨⟨rfl, rfl, Session.takings_of_ping h⟩, ?_⟩
    cases Session.pings h
    rfl
  | inbound h =>
    cases Session.hears h with
    | bytes hk hs first more => exact .inl ⟨first, more, rfl, hk, hs, rfl⟩
    | closed | failed => exact .inr ⟨⟨if_pos rfl, rfl, rfl⟩, rfl⟩

/-! ### Sessions -/

/-- Frame `f` is the answer that session `a` was made on, and of what came `later` its keep-alive
has made what it should. -/
structure Handed (x : CallId) (a : Session) (trace : Trace) (f : Frame) (answer later : Bytes) :
    Prop where
  sent : f.IsSentAs answer
  fits : f.header.size ≤ maxPayloadSize
  accepted : f.header.type = MessageType.loginResponse.code ∧
    ∃ login, LoginResponse.decode f.payload = .ok login ∧ login.ok = true ∧
      a.token = login.token ∧ a.userId = login.userId
  received : trace.received x = answer ++ later
  taken : trace.taken x = (digest (trace.hasRead x) later).frames
  receiver : a.receiver = (digest (trace.hasRead x) later).receiver maxPayloadSize

namespace Handed

variable {f : Frame} {answer later : Bytes}

theorem silent (h : Handed x a trace f answer later) (hs : Silent x e effects) (hab : a.Aged b)
    (hr : b.receiver = a.receiver) :
    Handed x b (trace ++ [(e, effects)]) f answer later where
  sent := h.sent
  fits := h.fits
  accepted := by
    obtain ⟨htype, login, hd, hok, htoken, hid⟩ := h.accepted
    exact ⟨htype, login, hd, hok, hab.token.trans htoken, hab.userId.trans hid⟩
  received := by rw [Trace.received_concat, hs.given, List.append_nil, h.received]
  taken := by
    rw [Trace.taken_concat, Trace.hasRead_concat, hs.takings, hs.feeds, List.append_nil,
      Bool.or_false, h.taken]
  receiver := by rw [Trace.hasRead_concat, hs.feeds, Bool.or_false, hr, h.receiver]

theorem take_eq (h : Handed x a trace f answer later) (bs : Bytes) :
    ∃ frames,
      (digest true (later ++ bs)).frames = (digest (trace.hasRead x) later).frames ++ frames ∧
      a.take x bs = ({ a with
        keepAlive := .afterRead (digest true (later ++ bs)).error
        receiver := (digest true (later ++ bs)).receiver maxPayloadSize }, [.took x frames]) := by
  obtain ⟨frames, hframes, hfeed⟩ := digest_feed (trace.hasRead x) later bs
  refine ⟨frames, hframes, ?_⟩
  unfold Session.take
  rw [h.receiver, hfeed]
  dsimp only
  cases (digest true (later ++ bs)).error <;> rfl

theorem inbound (h : Handed x a trace f answer later) {first : UInt8} {more : Bytes}
    (ht : (b, effects) = a.take x (first :: more)) :
    Handed x b (trace ++ [(.inbound x (.bytes first more), effects)]) f answer
      (later ++ first :: more) := by
  obtain ⟨frames, hframes, htake⟩ := h.take_eq (first :: more)
  rw [htake] at ht
  cases ht
  refine ⟨h.sent, h.fits, h.accepted, ?_, ?_, ?_⟩
  · rw [Trace.received_concat, Event.given_bytes, h.received, List.append_assoc]
  · rw [Trace.taken_concat, Trace.hasRead_concat, Event.feeds_bytes, Bool.or_true, hframes, h.taken]
    simp [Effect.taken]
  · rw [Trace.hasRead_concat, Event.feeds_bytes, Bool.or_true]

theorem moves (h : Handed x a trace f answer later) (hm : Moves m s x a e effects b) :
    ∃ later', Handed x b (trace ++ [(e, effects)]) f answer later' := by
  obtain ⟨first, more, rfl, -, -, htake⟩ | ⟨hsilent, hreceiver⟩ := hm.receiver
  · exact ⟨_, h.inbound htake⟩
  · exact ⟨later, h.silent hsilent hm.aged hreceiver⟩

end Handed

end Manager

end Corelink
