import Corelink.Proofs.Connection.Shortfall
import Corelink.Proofs.Session.Locks
import Corelink.Proofs.Session.Served

/-!
# Sessions whose connection has ended

A `create` whose connection ends before the answer, and a keep-alive whose connection ends, say what
was missing (`Reported`). What a `create` says is true. A keep-alive reads on only while nothing was
refused of what it has looked at (`Candid`), and once it has read it has looked at everything, so
what it says is true. Before its first read it counts all that was handed over to it as the
beginning of one header, and that is true as long as it is shorter than a header
(`Candid.report`).
-/

namespace Corelink

open Wire

/-- Whether it says of a stream that it has ended. -/
def Effect.tellsOfEnd : Effect → Bool
  | .noted (.handshakeFailed _ (.protocol (.incomplete ..))) => true
  | .noted (.keepAliveStopped _ (.coreClosed _)) => true
  | _ => false

/-- Whether these effects say nothing of a stream that has ended. -/
def SaysNothing (effects : List Effect) : Prop :=
  ∀ f ∈ effects, f.tellsOfEnd = false

namespace SaysNothing

variable {a b : Session} {x i : CallId} {effects : List Effect}

theorem nil : SaysNothing [] :=
  List.forall_mem_nil _

theorem singleton {f : Effect} (h : f.tellsOfEnd = false) : SaysNothing [f] :=
  List.forall_mem_singleton.2 h

theorem append {effects' : List Effect} (h : SaysNothing effects) (h' : SaysNothing effects') :
    SaysNothing (effects ++ effects') :=
  List.forall_mem_append.2 ⟨h, h'⟩

theorem of_closing {next : Closing} {next' : Option Closing}
    (h : next.step x a = some ⟨b, next', effects⟩) : SaysNothing effects := by
  cases Closing.does h with
  | shut => exact singleton rfl
  | shutFails => exact append (singleton rfl) (singleton rfl)
  | mark | signal | gone | join => exact nil

open Manager

variable {s t : State}

theorem of_close {next : Closing} {goOn : Closing → State → State}
    {done : State → State × List Effect} (hdone : ∀ r, SaysNothing (done r).2)
    (h : close s x next goOn done = some (t, effects)) : SaysNothing effects := by
  unfold close at h
  split at h
  · have hs := hdone s
    rwa [Option.some.inj h] at hs
  · rw [Option.map_eq_some_iff] at h
    obtain ⟨⟨b, next', effects'⟩, hstep, h⟩ := h
    cases next' with
    | some next' =>
      cases h
      exact of_closing hstep
    | none =>
      cases h
      exact (of_closing hstep).append (hdone _)

theorem of_proceedCreate {u p : String} {phase : CreatePhase}
    (h : proceedCreate s i u p phase = some (t, effects)) : SaysNothing effects := by
  cases phase with
  | discarding | undoing =>
    simp only [proceedCreate] at h
    refine of_close ?_ h
    exact fun _ => nil
  | queued =>
    simp only [proceedCreate, takeTurn] at h
    split at h <;> cases h
    exact nil
  | admitted =>
    simp only [proceedCreate, reconcile] at h
    split at h
    · cases h
      exact nil
    · split at h <;> cases h
      · exact singleton rfl
      · exact nil
  | ready =>
    simp only [proceedCreate, prepare, giveUp] at h
    split at h <;> cases h
    · exact singleton rfl
    · exact nil
  | established =>
    simp only [proceedCreate, settle] at h
    split at h
    · cases h
      exact singleton rfl
    · split at h <;> cases h
      · exact nil
      · exact singleton rfl
  | called | leaving =>
    cases h
    exact nil
  | dialling | sending | awaiting | returned => cases h

theorem of_proceedRemove {u : String} {phase : RemovePhase}
    (h : proceedRemove s i u phase = some (t, effects)) : SaysNothing effects := by
  cases phase with
  | called =>
    simp only [proceedRemove, takeOut] at h
    split at h <;> cases h
    · exact nil
    · split <;> exact singleton rfl
  | found =>
    cases h
    exact nil
  | closing =>
    simp only [proceedRemove] at h
    refine of_close ?_ h
    exact fun _ => singleton rfl
  | returned => cases h

theorem of_proceedShutdown {phase : ShutdownPhase}
    (h : proceedShutdown s i phase = some (t, effects)) : SaysNothing effects := by
  rcases phase with _ | ⟨total, _ | _, next⟩ | _
  · cases h
    exact nil
  · cases h
    exact singleton rfl
  · simp only [proceedShutdown] at h
    refine of_close ?_ h
    exact fun _ => nil
  · cases h

theorem of_proceed (h : Manager.proceed s i = some (t, effects)) : SaysNothing effects := by
  unfold Manager.proceed at h
  split at h
  · exact of_proceedCreate h
  · exact of_proceedRemove h
  · exact of_proceedShutdown h
  · cases h

/-! Neither does a login that is given up before the answer or because of it. -/

section
variable {m : Manager} {u p : String} {g : CallId} {seen : Nat}

theorem of_giveUp {e : CallError} (h : ∀ part n k, e ≠ .protocol (.incomplete part n k)) :
    SaysNothing (giveUp s i u p g e).2 := by
  refine singleton ?_
  unfold Effect.tellsOfEnd
  split
  · next heq =>
    cases heq
    exact absurd rfl (h _ _ _)
  · next heq => cases heq
  · rfl

theorem of_dialled (payload : Bytes) (r : DialResult) :
    SaysNothing (dialled s i u p m g seen payload r).2 := by
  unfold dialled
  split
  · next e he =>
    refine of_giveUp fun part n k hk => ?_
    rw [hk] at he
    exact Terms.dialled_ne_protocol he
  · split
    · exact (singleton rfl).append ((singleton rfl).append (of_giveUp nofun))
    · exact singleton rfl

theorem of_written (frame : Bytes) (r : WriteResult) :
    SaysNothing (written s i u p m g seen frame r).2 := by
  unfold written
  split
  · next e he =>
    refine (singleton rfl).append ((singleton rfl).append (of_giveUp fun part n k hk => ?_))
    rw [hk] at he
    exact Terms.written_ne_protocol he
  · exact singleton rfl

theorem of_answered (f : Frame) (r : Receiver) : SaysNothing (answered s i u p m g seen f r).2 := by
  unfold answered
  split
  · next e he =>
    refine (singleton rfl).append (of_giveUp fun part n k hk => ?_)
    rw [hk] at he
    unfold replyPayload at he
    split at he
    · change liftFraming _ = _ at he
      unfold liftFraming at he
      split at he <;> cases he
    · cases he
  · split
    · exact nil
    · exact (singleton rfl).append (singleton rfl)

end

end SaysNothing

namespace Manager

/-! ### Who reports that a stream has ended -/

variable {m : Manager} {s t : State} {e : Event} {x : CallId} {effects : List Effect}
  {a b : Session} {why : ProtocolError}

/-- The ways in which the end of a stream is reported. -/
inductive Reported (s : State) : Event → Effect → Prop where
  | login {x g : CallId} {u p : String} {seen : Nat} {r : Receiver} :
    s.calls x = some (.create u p (.awaiting g seen r)) →
    Reported s (.read x .closed) (.noted (.handshakeFailed u (.protocol r.shortfall)))
  | keepAlive {x : CallId} {a : Session} {why : ProtocolError} : s.sessions x = some a →
    a.keepAlive = .failing (.coreClosed why) →
    Reported s (.keepAlive x) (.noted (.keepAliveStopped a.username (.coreClosed why)))

namespace Reported

theorem of_heard {u p : String} {g : CallId} {seen : Nat} {r : Receiver} {read : ReadResult}
    (hc : s.calls x = some (.create u p (.awaiting g seen r))) {f : Effect}
    (hf : f ∈ (heard s x u p m g seen r read).2) (htells : f.tellsOfEnd = true) :
    Reported s (.read x read) f := by
  have nothing : ∀ {effects : List Effect}, SaysNothing effects → f ∉ effects := by
    intro effects hnothing hmem
    rw [hnothing f hmem] at htells
    cases htells
  unfold heard at hf
  split at hf
  · cases hf
  · next e he =>
    by_cases h : ∃ part n k, e = .protocol (.incomplete part n k)
    · obtain ⟨part, n, k, rfl⟩ := h
      obtain ⟨rfl, hr⟩ := Wait.read_eq_incomplete_iff.1 he
      obtain rfl | hf := List.mem_cons.1 hf
      · cases htells
      · obtain rfl := List.mem_singleton.1 hf
        rw [← hr]
        exact .login hc
    · refine absurd hf (nothing ((SaysNothing.singleton rfl).append (.of_giveUp ?_)))
      exact fun part n k hk => h ⟨part, n, k, hk⟩
  · exact absurd hf (nothing (.of_answered _ _))

/-- **There are no other ways.** -/
theorem of_step (h : m.step s e = some (t, effects)) {f : Effect} (hf : f ∈ effects)
    (htells : f.tellsOfEnd = true) : Reported s e f := by
  have nothing : ¬ SaysNothing effects := by
    intro hnothing
    rw [hnothing f hf] at htells
    cases htells
  cases e with
  | call i r =>
    simp only [step] at h
    split at h <;> cases h
    exact absurd .nil nothing
  | proceed i => exact absurd (.of_proceed h) nothing
  | dial i r =>
    simp only [step] at h
    split at h
    · obtain rfl : _ = effects := congrArg Prod.snd (Option.some.inj h)
      exact absurd (.of_dialled _ _) nothing
    · cases h
  | write i r =>
    simp only [step] at h
    split at h
    · obtain rfl : _ = effects := congrArg Prod.snd (Option.some.inj h)
      exact absurd (.of_written _ _) nothing
    · cases h
  | read i r =>
    simp only [step] at h
    split at h
    · next hc =>
      obtain rfl : _ = effects := congrArg Prod.snd (Option.some.inj h)
      exact of_heard hc hf htells
    · cases h
  | keepAlive y =>
    obtain ⟨a, _, ha, hp, -⟩ := onSession_spec h
    cases Session.proceeds hp with
    | @stopped reason hk =>
      obtain rfl := List.mem_singleton.1 hf
      cases reason with
      | coreClosed => exact .keepAlive ha hk
      | pingFailed | badFrame | readFailed => cases htells
    | cancelled | foundLive | foundDead | writes | overtaken => exact absurd .nil nothing
  | tick y =>
    obtain ⟨_, _, -, ht, -⟩ := onSession_spec h
    cases Session.ticks ht
    exact absurd .nil nothing
  | ping y r =>
    obtain ⟨_, _, -, hp, -⟩ := onSession_spec h
    cases Session.pings hp
    exact absurd (.singleton rfl) nothing
  | inbound y r =>
    obtain ⟨a, _, -, hi, -⟩ := onSession_spec h
    cases Session.hears hi with
    | bytes _ _ first more =>
      obtain ⟨frames, htook⟩ := a.take_effects y (first :: more)
      rw [htook] at nothing
      exact absurd (.singleton rfl) nothing
    | closed | failed => exact absurd .nil nothing

end Reported

/-! ### Keep-alives -/

/-- A keep-alive that reads nothing goes on only if it did before, and it says that the stream has
ended only if it did so before, or has just found out. -/
theorem Moves.keepAlive_from (h : Moves m s x a e effects b) (hs : Silent x e effects) :
    (b.keepAlive.isGoing = true → a.keepAlive.isGoing = true) ∧
    ∀ why, b.keepAlive = .failing (.coreClosed why) →
      a.keepAlive = .failing (.coreClosed why) ∨
      a.keepAlive.isGoing = true ∧ a.receiver.shortfall = why := by
  cases h with
  | still => exact ⟨id, fun _ => .inl⟩
  | closing _ _ _ _ _ hstep =>
    rw [Closing.keepAlive_eq hstep]
    exact ⟨id, fun _ => .inl⟩
  | proceed hp =>
    cases Session.proceeds hp with
    | cancelled hk | foundLive hk | foundDead hk | writes hk | overtaken hk =>
      rw [hk]
      exact ⟨fun _ => rfl, nofun⟩
    | stopped => exact ⟨nofun, nofun⟩
  | tick ht =>
    cases Session.ticks ht with
    | due hk =>
      rw [hk]
      exact ⟨fun _ => rfl, nofun⟩
  | ping hp =>
    cases Session.pings hp with
    | wrote hk hnext =>
      rw [hk]
      obtain ⟨-, rfl⟩ | ⟨-, _, rfl⟩ := hnext <;> exact ⟨fun _ => rfl, nofun⟩
  | inbound hi =>
    cases Session.hears hi with
    | bytes => cases hs.feeds.symm.trans (Event.feeds_bytes x _ _)
    | closed hk =>
      rw [hk]
      refine ⟨nofun, fun why hb => .inr ⟨rfl, ?_⟩⟩
      cases hb
      rfl
    | failed => exact ⟨nofun, nofun⟩

/-- A keep-alive that has refused nothing while it goes on, and that says what its receiver says
when the stream has ended. -/
structure Candid (x : CallId) (a : Session) (trace : Trace) (f : Frame) (answer later : Bytes) :
    Prop where
  handed : Handed x a trace f answer later
  going : a.keepAlive.isGoing = true → (digest (trace.hasRead x) later).error = none
  closed : ∀ why, a.keepAlive = .failing (.coreClosed why) →
    (digest (trace.hasRead x) later).error = none ∧ a.receiver.shortfall = why

namespace Candid

variable {trace : Trace} {f : Frame} {answer later : Bytes}

theorem inbound (h : Candid x a trace f answer later) {first : UInt8} {more : Bytes}
    (ht : (b, effects) = a.take x (first :: more)) :
    Candid x b (trace ++ [(.inbound x (.bytes first more), effects)]) f answer
      (later ++ first :: more) := by
  have hh := h.handed.inbound ht
  have hread : Trace.hasRead x (trace ++ [(.inbound x (.bytes first more), effects)]) = true := by
    rw [Trace.hasRead_concat, Event.feeds_bytes, Bool.or_true]
  obtain ⟨frames, -, htake⟩ := h.handed.take_eq (first :: more)
  cases herror : (digest true (later ++ first :: more)).error with
  | none =>
    rw [htake, herror] at ht
    cases ht
    refine ⟨hh, fun _ => ?_, nofun⟩
    rw [hread]
    exact herror
  | some =>
    rw [htake, herror] at ht
    cases ht
    exact ⟨hh, nofun, nofun⟩

/-- **A keep-alive stays candid** in each step. -/
theorem moves (h : Candid x a trace f answer later) (hm : Moves m s x a e effects b) :
    ∃ later', Candid x b (trace ++ [(e, effects)]) f answer later' := by
  obtain ⟨first, more, rfl, -, -, htake⟩ | ⟨hsilent, hreceiver⟩ := hm.receiver
  · exact ⟨_, h.inbound htake⟩
  · obtain ⟨hgoing, hclosed⟩ := hm.keepAlive_from hsilent
    refine ⟨later, h.handed.silent hsilent hm.aged hreceiver, fun hb => ?_, fun why hb => ?_⟩
    · rw [Trace.hasRead_concat, hsilent.feeds, Bool.or_false]
      exact h.going (hgoing hb)
    · rw [Trace.hasRead_concat, hsilent.feeds, Bool.or_false, hreceiver]
      obtain ha | ⟨ha, hwhy⟩ := hclosed why hb
      · exact h.closed why ha
      · exact ⟨h.going ha, hwhy⟩

theorem of_made (hs : m.Reachable s) (h : Account x s trace) (he : m.step s e = some (t, effects))
    (hx : s.sessions x = none) (hb : t.sessions x = some b) :
    ∃ f answer later, Candid x b (trace ++ [(e, effects)]) f answer later := by
  obtain ⟨⟨u, login, r, rfl⟩, hread, f, answer, later, hh⟩ := h.made hs he hx hb
  refine ⟨f, answer, later, hh, fun _ => ?_, nofun⟩
  rw [hread]
  rfl

end Candid

/-- **Every keep-alive is candid** at the end of every run. -/
theorem candid_of_run {es : List Event} {trace : Trace} (hr : m.run {} es = some (t, trace))
    (ha : t.sessions x = some a) : ∃ f answer later, Candid x a trace f answer later := by
  have key : Account x t trace ∧
      ∀ a, t.sessions x = some a → ∃ f answer later, Candid x a trace f answer later := by
    refine run_invariant (P := fun t trace => Account x t trace ∧
      ∀ a, t.sessions x = some a → ∃ f answer later, Candid x a trace f answer later)
      ⟨.start, ?_⟩ ?_ hr
    · exact fun _ ha => by cases ha
    · rintro s t e effects trace hs ⟨hacc, ih⟩ he
      refine ⟨hacc.step hs he, fun b hb => ?_⟩
      cases hx : s.sessions x with
      | none => exact Candid.of_made hs hacc he hx hb
      | some a =>
        obtain ⟨f, answer, later, h⟩ := ih a hx
        obtain ⟨b', hb', hm⟩ := Moves.of_step hs.custody he hx
        rw [hb] at hb'
        cases hb'
        obtain ⟨later', h'⟩ := h.moves hm
        exact ⟨f, answer, later', h'⟩
  exact key.2 a ha

variable {es : List Event} {trace : Trace}

theorem Candid.report {f : Frame} {answer later : Bytes} (h : Candid x a trace f answer later)
    (hk : a.keepAlive = .failing (.coreClosed why)) :
    (EndsShort (trace.received x) why ↔ trace.hasRead x = true ∨ later.length < headerSize) ∧
    (trace.hasRead x = false → why = .incomplete .header headerSize later.length) := by
  obtain ⟨herror, hwhy⟩ := h.closed why hk
  rw [h.handed.receiver] at hwhy
  cases hread : trace.hasRead x with
  | true =>
    rw [hread] at herror hwhy
    refine ⟨⟨fun _ => .inl rfl, fun _ => ?_⟩, nofun⟩
    rw [h.handed.received, ← hwhy]
    exact (endsShort_of_run herror).behind h.handed.sent h.handed.fits
  | false =>
    rw [hread] at hwhy
    obtain rfl : ProtocolError.incomplete .header headerSize later.length = why := hwhy
    refine ⟨⟨fun hends => .inr hends.lt, fun hshort => ?_⟩, fun _ => rfl⟩
    rw [h.handed.received]
    exact (EndsShort.of_cutOff (.header (hshort.resolve_left nofun))).behind h.handed.sent
      h.handed.fits

theorem Account.report {u p : String} {g : CallId} {seen : Nat} {r : Receiver}
    (h : Account x s trace) (hc : s.calls x = some (.create u p (.awaiting g seen r))) :
    EndsShort (trace.received x) r.shortfall := by
  obtain ⟨hunfound, rfl⟩ := h.awaiting hc
  exact .of_unfound hunfound

/-- **Whoever reports that a stream has ended tells what was missing**: a wait for a frame, a
request, a `create`, and a keep-alive that has read. A keep-alive that has not counts all that came
in behind the answer to the login as the beginning of a header, which is true as long as it is less
than one. -/
theorem end_of_stream_reports (hr : m.run {} es = some (s, trace))
    (he : m.step s e = some (t, effects)) :
    (∀ terms held reads part n k, (receive terms ⟨⟨maxPayloadSize, none⟩, held⟩ reads).1 =
        .error (.protocol (.incomplete part n k)) →
      k < n ∧ ∃ chunks later, reads = chunks.map Chunk.read ++ .closed :: later ∧
        EndsShort (held ++ Chunk.stream chunks) (.incomplete part n k)) ∧
    (∀ (c : Client) timeout type payload peer part n k,
      (c.request timeout type payload peer).result =
        .error (.protocol (.incomplete part n k)) →
      k < n ∧ ∃ frame chunks later, Frame.encode type payload = .ok frame ∧
        peer.reads frame = chunks.map Chunk.read ++ .closed :: later ∧
        EndsShort (Chunk.stream chunks) (.incomplete part n k)) ∧
    (∀ u part n k, .noted (.handshakeFailed u (.protocol (.incomplete part n k))) ∈ effects →
      k < n ∧ ∃ x, e = .read x .closed ∧ EndsShort (trace.received x) (.incomplete part n k)) ∧
    ∀ u why, .noted (.keepAliveStopped u (.coreClosed why)) ∈ effects →
      ∃ x, ∃ f : Frame, ∃ answer later, e = .keepAlive x ∧ f.IsSentAs answer ∧
        f.header.type = MessageType.loginResponse.code ∧ trace.received x = answer ++ later ∧
        (trace.hasRead x = true ∨ later.length < headerSize →
          ∃ part n k, why = .incomplete part n k ∧ k < n) ∧
        (EndsShort (trace.received x) why ↔ trace.hasRead x = true ∨ later.length < headerSize) ∧
        (trace.hasRead x = false → why = .incomplete .header headerSize later.length) := by
  refine ⟨fun terms held reads part n k h => ?_, fun c timeout type payload peer part n k h => ?_,
    fun u part n k hnoted => ?_, fun u why hnoted => ?_⟩
  · obtain ⟨chunks, later, hreads, hends⟩ := Wait.endsShort_of_incomplete h
    exact ⟨hends.lt, chunks, later, hreads, hends⟩
  · obtain ⟨frame, hframe, hwait⟩ := Client.receive_of_incomplete h
    obtain ⟨chunks, later, hreads, hends⟩ := Wait.endsShort_of_incomplete (s := []) hwait
    exact ⟨hends.lt, frame, chunks, later, hframe, hreads, hends⟩
  · have hreported := Reported.of_step he hnoted rfl
    generalize hnote : Effect.noted _ = f at hreported
    cases hreported with
    | @login x g v p seen r hc =>
      have hends := (account_of_run x hr).report hc
      injection hnote with hnote
      injection hnote with _ hwhy
      injection hwhy with hwhy
      rw [← hwhy] at hends
      exact ⟨hends.lt, x, rfl, hends⟩
    | keepAlive => cases hnote
  · have hreported := Reported.of_step he hnoted rfl
    generalize hnote : Effect.noted _ = f at hreported
    cases hreported with
    | login => cases hnote
    | @keepAlive x a _ ha hk =>
      cases hnote
      obtain ⟨f, answer, later, h⟩ := candid_of_run hr ha
      obtain ⟨htrue, hunread⟩ := h.report hk
      exact ⟨x, f, answer, later, rfl, h.handed.sent, h.handed.accepted.1, h.handed.received,
        fun hread => (htrue.2 hread).exists_lt, htrue, hunread⟩

/-! ### A connection that is closed at once -/

theorem Served.acceptance_isSentAs :
    Frame.IsSentAs ⟨⟨13, 15⟩, [1, 0, 0, 0, 0, 0, 0, 0, 0, 0, 0, 0, 0, 0, 0]⟩ acceptance :=
  ⟨rfl, rfl, rfl⟩

theorem step_closed (ha : t.sessions x = some a) (hk : a.keepAlive = .waiting)
    (hs : a.signalled = false) : m.step t (.inbound x .closed) =
      some (t.setSession x
        { a with keepAlive := .failing (.coreClosed a.receiver.shortfall) }, []) := by
  refine onSession_of_some ha ?_
  unfold Session.inbound
  rw [if_pos ⟨hk, Bool.eq_false_iff.1 hs⟩]

/-- If Core closes behind what came in with the answer, the keep-alive takes that for the beginning
of a header. -/
theorem Served.closed_unread {bs : Bytes} (h : Served m x bs t trace a)
    (hread : trace.hasRead x = false) (hk : a.keepAlive = .waiting) :
    ∃ es s t', ∃ before : Trace, m.run {} es = some (s, before) ∧
      before.received x = trace.received x ∧ before.hasRead x = false ∧
      m.step s (.keepAlive x) = some (t', [.noted (.keepAliveStopped a.username
        (.coreClosed (.incomplete .header headerSize bs.length)))]) := by
  obtain ⟨es, hr⟩ := h.run
  obtain ⟨f, answer, hh, hu⟩ := h.undisturbed
  have hclosed := run_concat hr (step_closed h.session hk hu.signalled)
  have hshortfall : a.receiver.shortfall = .incomplete .header headerSize bs.length := by
    rw [hh.receiver, hread]
    rfl
  rw [hshortfall] at hclosed
  generalize hb : ({ a with keepAlive := _ } : Session) = b at hclosed
  have hfailing : b.keepAlive =
      .failing (.coreClosed (.incomplete .header headerSize bs.length)) := by
    rw [← hb]
  have hname : b.username = a.username := by
    rw [← hb]
  have hstop : m.step (t.setSession x b) (.keepAlive x) = _ :=
    step_failing (assign_same _ _ _) hfailing
  rw [hname] at hstop
  refine ⟨_, _, _, _, hclosed, ?_, ?_, hstop⟩
  · rw [Trace.received_concat]
    exact (congrArg _ (if_pos rfl)).trans (List.append_nil _)
  · rw [Trace.hasRead_concat, hread]
    rfl

/-- Five bytes of a header come in with the answer, and Core closes. -/
theorem cut_header_is_reported : ∃ es s t u, ∃ trace : Trace,
    run .loopback {} es = some (s, trace) ∧
    step .loopback s (.keepAlive 0) =
      some (t, [.noted (.keepAliveStopped u (.coreClosed (.incomplete .header 12 5)))]) ∧
    trace.received 0 = Served.acceptance ++ [70, 83, 88, 49, 1] ∧
    EndsShort (trace.received 0) (.incomplete .header 12 5) := by
  obtain ⟨_, _, a, h, hreceived, hread, hk⟩ := Served.of_handover [70, 83, 88, 49, 1]
  obtain ⟨es, s, t, trace, hr, hsame, -, he⟩ := h.closed_unread hread hk
  obtain ⟨-, -, -, hkeepAlive⟩ := end_of_stream_reports hr he
  obtain ⟨x, f, answer, later, hx, hf, -, hall, -, htrue, -⟩ :=
    hkeepAlive _ _ (List.mem_singleton_self _)
  cases hx
  have hsplit : Served.acceptance ++ [70, 83, 88, 49, 1] = answer ++ later :=
    hreceived.symm.trans (hsame.symm.trans hall)
  obtain ⟨-, -, rfl⟩ := Frame.IsSentAs.eq_of_append Served.acceptance_isSentAs hf hsplit
  exact ⟨es, s, t, _, trace, hr, he, hsame.trans hreceived, htrue.2 (.inr (by decide))⟩

/-- A whole pong comes in with the answer, and Core closes. What is missing is all of a header, and
the keep-alive says that it has twelve bytes of twelve. -/
theorem whole_frame_is_reported_as_cut : ∃ es s t u, ∃ trace : Trace,
    run .loopback {} es = some (s, trace) ∧
    step .loopback s (.keepAlive 0) =
      some (t, [.noted (.keepAliveStopped u (.coreClosed (.incomplete .header 12 12)))]) ∧
    trace.received 0 = Served.acceptance ++ [70, 83, 88, 49, 1, 3, 0, 0, 0, 0, 0, 0] ∧
    EndsShort (trace.received 0) (.incomplete .header 12 0) ∧
    ¬ EndsShort (trace.received 0) (.incomplete .header 12 12) := by
  obtain ⟨_, _, a, h, hreceived, hread, hk⟩ :=
    Served.of_handover [70, 83, 88, 49, 1, 3, 0, 0, 0, 0, 0, 0]
  obtain ⟨es, s, t, trace, hr, hsame, -, he⟩ := h.closed_unread hread hk
  have hpong : Frame.IsSentAs ⟨⟨3, 0⟩, []⟩ [70, 83, 88, 49, 1, 3, 0, 0, 0, 0, 0, 0] :=
    ⟨rfl, rfl, rfl⟩
  have hends : EndsShort (trace.received 0) (.incomplete .header 12 0) := by
    rw [hsame, hreceived]
    exact ((EndsShort.of_cutOff (.header (by decide))).behind hpong (by decide)).behind
      Served.acceptance_isSentAs (by decide)
  exact ⟨es, s, t, _, trace, hr, he, hsame.trans hreceived, hends,
    fun hwrong => absurd (hends.unique hwrong) (by decide)⟩

end Manager

end Corelink
