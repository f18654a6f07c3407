import Corelink.Proofs.Session.Fate

/-!
# The fate of a session and the bytes that it was sent

Of a session that is kept and whose connection does not fail, Core's bytes alone decide whether it
lives (`Served`). Once the keep-alive has read, it is no matter how they were cut: the session is
dead if there is a framing error in all of them, and the keep-alive has given that error as its
reason (`Served.fate_of_stream`). What comes in one read with the answer to the login is not looked
at before the next read, so there the cut does show (`Served.error_waits_for_read`).
-/

namespace Corelink

open Wire

namespace Manager

variable {m m' : Manager} {s s' t t' : State} {es es' : List Event} {e : Event}
  {effects : List Effect} {x x' : CallId} {trace trace' before after : Trace} {a a' : Session}
  {f : Frame} {bs : Bytes}

/-! ### Runs that go on -/

theorem run_of_step (he : m.step s e = some (s', effects)) (hr : m.run s' es = some (t, trace)) :
    m.run s (e :: es) = some (t, (e, effects) :: trace) := by
  simp [run, he, hr]

theorem run_append (h : m.run s es = some (s', before)) (h' : m.run s' es' = some (t, after)) :
    m.run s (es ++ es') = some (t, before ++ after) := by
  induction es generalizing s before with
  | nil =>
    cases h
    exact h'
  | cons e es ih =>
    obtain ⟨_, _, _, he, hes, rfl⟩ := run_cons h
    exact run_of_step he (ih hes)

theorem run_concat (hr : m.run s es = some (s', trace)) (he : m.step s' e = some (t, effects)) :
    m.run s (es ++ [e]) = some (t, trace ++ [(e, effects)]) :=
  run_append hr (run_of_step he rfl)

/-! ### Steps on the way -/

/-- A login that is accepted makes a session, which is handed over what has come in behind the
answer. -/
theorem step_answered {u p : String} {g : CallId} {seen : Nat} {r r' : Receiver} {read : ReadResult}
    {login : LoginResponse} (hc : s.calls x = some (.create u p (.awaiting g seen r)))
    (hw : Wait.read m.handshakeTerms r read = .frame f r')
    (hlogin : readLogin (.ok (f, r')) = .ok login) (hok : login.ok = true) :
    m.step s (.read x read) = some ((s.setSession x (newSession x u m login r')).setCall x
      (.create u p (.established g seen)), []) := by
  have hanswer : (replyPayload .loginResponse f >>= fun b => liftFraming (LoginResponse.decode b)) =
      .ok login := hlogin
  simp only [step, hc, heard, hw, answered, hanswer, hok, if_true, go]

theorem step_inbound (ha : t.sessions x = some a) (hk : a.keepAlive = .waiting)
    (hs : a.signalled = false) (first : UInt8) (more : Bytes) :
    m.step t (.inbound x (.bytes first more)) =
      some (t.setSession x (a.take x (first :: more)).1, (a.take x (first :: more)).2) := by
  refine onSession_of_some ha ?_
  unfold Session.inbound
  rw [if_pos ⟨hk, Bool.eq_false_iff.1 hs⟩]

theorem step_failing {why : StopReason} (ha : t.sessions x = some a)
    (hk : a.keepAlive = .failing why) :
    m.step t (.keepAlive x) = some (t.setSession x { a with live := false, keepAlive := .ended },
      [.noted (.keepAliveStopped a.username why)]) := by
  refine onSession_of_some ha ?_
  unfold Session.proceed
  rw [hk]

/-! ### Sessions that have been served -/

/-- A session that is kept, whose connection has not failed, and which has received the answer to
its login and these bytes. Its keep-alive is not just about to give up. -/
structure Served (m : Manager) (x : CallId) (bs : Bytes) (t : State) (trace : Trace) (a : Session) :
    Prop where
  run : ∃ es, m.run {} es = some (t, trace)
  session : t.sessions x = some a
  kept : t.Keeps x
  unbroken : trace.Unbroken x
  received : ∃ (f : Frame) (answer : Bytes), f.IsSentAs answer ∧ trace.received x = answer ++ bs
  settled : ∀ why, a.keepAlive ≠ .failing why

namespace Served

theorem undisturbed (h : Served m x bs t trace a) : ∃ f answer, Handed x a trace f answer bs ∧
    Undisturbed a trace (digest (trace.hasRead x) bs).error := by
  obtain ⟨es, hr⟩ := h.run
  obtain ⟨f, answer, hanswer, hreceived⟩ := h.received
  obtain hpast | ⟨g, front, later, hh, hu⟩ := spared_of_run hr h.unbroken h.session
  · exact absurd h.kept hpast.not_keeps
  obtain ⟨-, -, rfl⟩ := hh.sent.eq_of_append hanswer (hh.received.symm.trans hreceived)
  exact ⟨g, front, hh, hu⟩

theorem fate (h : Served m x bs t trace a) :
    (a.live = true ∧ (digest (trace.hasRead x) bs).error = none) ∨
    (a.live = false ∧ ∃ e, (digest (trace.hasRead x) bs).error = some e ∧
      trace.Noted (.keepAliveStopped a.username (.badFrame e))) := by
  obtain ⟨f, answer, -, hu⟩ := h.undisturbed
  have hfate := hu.fate
  generalize (digest (trace.hasRead x) bs).error = error at hfate ⊢
  cases hfate with
  | going hl => exact .inl ⟨hl, rfl⟩
  | failing _ hk => exact absurd hk (h.settled _)
  | stopped hl _ hn => exact .inr ⟨hl, _, rfl, hn⟩

theorem live_of_unread (h : Served m x bs t trace a) (hread : trace.hasRead x = false) :
    a.live = true := by
  obtain ⟨hl, -⟩ | ⟨-, e, he, -⟩ := h.fate
  · exact hl
  · rw [hread] at he
    cases he

theorem fate_of_read (h : Served m x bs t trace a) (hread : trace.hasRead x = true) :
    (a.live = true ∧ (Parse.run maxPayloadSize bs).error = none) ∨
    (a.live = false ∧ ∃ e, (Parse.run maxPayloadSize bs).error = some e ∧
      trace.Noted (.keepAliveStopped a.username (.badFrame e))) := by
  have hfate := h.fate
  rw [hread] at hfate
  exact hfate

theorem dead_iff (h : Served m x bs t trace a) (hread : trace.hasRead x = true) :
    a.live = false ↔ ∃ e, (Parse.run maxPayloadSize bs).error = some e := by
  obtain ⟨hl, herror⟩ | ⟨hl, e, he, -⟩ := h.fate_of_read hread
  · rw [hl, herror]
    exact ⟨nofun, nofun⟩
  · exact ⟨fun _ => ⟨e, he⟩, fun _ => hl⟩

theorem noted (h : Served m x bs t trace a) (hread : trace.hasRead x = true) {e : FramingError}
    (he : (Parse.run maxPayloadSize bs).error = some e) :
    trace.Noted (.keepAliveStopped a.username (.badFrame e)) := by
  obtain ⟨-, hnone⟩ | ⟨-, e', he', hn⟩ := h.fate_of_read hread
  · rw [he] at hnone
    cases hnone
  · rw [he] at he'
    cases he'
    exact hn

/-! ### How it comes to that -/

/-- The shortest answer that accepts a login. -/
def acceptance : Bytes :=
  [70, 83, 88, 49, 1, 13, 0, 0, 0, 15, 0, 0, 1, 0, 0, 0, 0, 0, 0, 0, 0, 0, 0, 0, 0, 0, 0]

/-- Whatever Core sends may come in together with the answer. Then it is in the hands of the
keep-alive, which makes nothing of it. -/
theorem of_handover (bs : Bytes) : ∃ t trace a, Served .loopback 0 bs t trace a ∧
    trace.received 0 = acceptance ++ bs ∧ trace.hasRead 0 = false ∧ a.keepAlive = .waiting := by
  have hf : Frame.IsSentAs ⟨⟨13, 15⟩, [1, 0, 0, 0, 0, 0, 0, 0, 0, 0, 0, 0, 0, 0, 0]⟩ acceptance :=
    ⟨rfl, rfl, rfl⟩
  have hw : Wait.read (handshakeTerms .loopback) {}
      (.bytes 70 (acceptance.tail ++ bs)) = .frame _ ⟨{}, bs⟩ :=
    Wait.look_sent hf (by decide) bs
  have hsent : Manager.run .loopback {} [.call 0 (.create "u" "p"), .proceed 0,
    .proceed 0, .proceed 0, .proceed 0, .dial 0 .opened, .write 0 .done] = some (_, _) := rfl
  have hread := run_concat hsent
    (step_answered (x := 0) rfl hw (readLogin_eq_ok_iff.2 ⟨_, _, rfl, rfl, rfl⟩) rfl)
  have hsettled := run_concat hread (e := .proceed 0) rfl
  have hleft := run_concat hsettled (e := .proceed 0) rfl
  generalize htrace : (_ ++ [_] ++ [_] ++ [_] : Trace) = trace at hleft
  have hreceived : trace.received 0 = acceptance ++ bs := by
    rw [← htrace]
    simp only [Trace.received_concat]
    exact (List.append_nil _).trans (List.append_nil _)
  have hunbroken : trace.Unbroken 0 := by
    rw [← htrace]
    simp only [Trace.unbroken_concat]
    exact ⟨⟨⟨List.forall_mem_cons.2 ⟨rfl, by decide⟩, rfl⟩, rfl⟩, rfl⟩
  exact ⟨_, trace, _, ⟨⟨_, hleft⟩, rfl, .inl ⟨"u", rfl⟩, hunbroken, ⟨_, _, hf, hreceived⟩, nofun⟩,
    hreceived, htrace ▸ rfl, rfl⟩

theorem read_error (h : Served m x bs t trace a) (hk : a.keepAlive = .waiting) (first : UInt8)
    (more : Bytes) {e : FramingError}
    (he : (Parse.run maxPayloadSize (bs ++ first :: more)).error = some e) :
    ∃ t' trace' a', Served m x (bs ++ first :: more) t' trace' a' ∧
      trace'.received x = trace.received x ++ first :: more ∧ trace'.hasRead x = true ∧
      a'.live = false := by
  obtain ⟨es, hr⟩ := h.run
  obtain ⟨f, answer, hh, hu⟩ := h.undisturbed
  obtain ⟨frames, -, htake⟩ := hh.take_eq (first :: more)
  have herror : (digest true (bs ++ first :: more)).error = some e := he
  rw [herror] at htake
  generalize hb : ({ a with keepAlive := _, receiver := _ } : Session) = b at htake
  have hfailing : b.keepAlive = .failing (.badFrame e) := by
    rw [← hb]
    rfl
  have hread := step_inbound (m := m) h.session hk hu.signalled first more
  rw [htake] at hread
  have hstop : m.step (t.setSession x b) (.keepAlive x) = _ :=
    step_failing (assign_same _ _ _) hfailing
  have hlast := run_concat (run_concat hr hread) hstop
  generalize htrace : trace ++ [_] ++ [_] = trace' at hlast
  have hreceived : trace'.received x = trace.received x ++ first :: more := by
    rw [← htrace, Trace.received_concat, Trace.received_concat, Event.given_bytes]
    exact List.append_nil _
  have hunbroken : trace'.Unbroken x := by
    rw [← htrace, Trace.unbroken_concat, Trace.unbroken_concat]
    exact ⟨⟨h.unbroken, rfl⟩, rfl⟩
  refine ⟨_, trace', _, ⟨⟨_, hlast⟩, assign_same _ _ _, h.kept, hunbroken, ⟨f, answer, hh.sent, ?_⟩,
    nofun⟩, hreceived, ?_, rfl⟩
  · rw [hreceived, hh.received, List.append_assoc]
  · rw [← htrace, Trace.hasRead_concat, Trace.hasRead_concat, Event.feeds_bytes, Bool.or_true]
    rfl

theorem zeros_are_refused :
    (Parse.run maxPayloadSize (List.replicate 12 0)).error = some (.badMagic 0) := by
  rw [Parse.run_eq]
  rfl

/-! ### Two runs -/

/-- **The fate of a session is told by what Core has sent**, and not by how it was cut, once its
keep-alive has read. It is dead just if there is a framing error in the stream, and then its
keep-alive has given that error as its reason. Before its first read the session is live, whatever
has come in together with the answer. -/
theorem fate_of_stream (h : Served m x bs t trace a) (h' : Served m' x' bs t' trace' a') :
    (trace.hasRead x = true → trace'.hasRead x' = true → a.live = a'.live) ∧
    (trace.hasRead x = true →
      (a.live = false ↔ ∃ e, (Parse.run maxPayloadSize bs).error = some e) ∧
      ∀ e, (Parse.run maxPayloadSize bs).error = some e →
        trace.Noted (.keepAliveStopped a.username (.badFrame e))) ∧
    (trace.hasRead x = false → a.live = true) := by
  refine ⟨fun hread hread' => ?_, fun hread => ⟨h.dead_iff hread, fun e => h.noted hread⟩,
    h.live_of_unread⟩
  rw [Bool.eq_iff_iff, ← Bool.not_eq_false, ← Bool.not_eq_false, h.dead_iff hread,
    h'.dead_iff hread']

/-- Twelve bytes that are no header undo a session, read at once or in part with the answer. -/
theorem fate_of_zeros : ∃ t t' a a', ∃ trace trace' : Trace,
    Served .loopback 0 (List.replicate 12 0) t trace a ∧
    Served .loopback 0 (List.replicate 12 0) t' trace' a' ∧
    trace.received 0 = trace'.received 0 ∧
    trace.hasRead 0 = true ∧ trace'.hasRead 0 = true ∧ a.live = a'.live ∧ a.live = false ∧
    trace.Noted (.keepAliveStopped a.username (.badFrame (.badMagic 0))) := by
  obtain ⟨_, _, _, hs, hreceived, -, hk⟩ := of_handover []
  obtain ⟨t, trace, a, h, hmore, hread, -⟩ :=
    hs.read_error hk 0 (List.replicate 11 0) zeros_are_refused
  obtain ⟨_, _, _, hs', hreceived', -, hk'⟩ := of_handover (List.replicate 5 0)
  obtain ⟨t', trace', a', h', hmore', hread', -⟩ :=
    hs'.read_error hk' 0 (List.replicate 6 0) zeros_are_refused
  have hsame : trace.received 0 = trace'.received 0 := by
    rw [hmore, hmore', hreceived, hreceived', List.append_assoc, List.append_assoc]
    rfl
  obtain ⟨hlive, hdead, -⟩ := fate_of_stream h h'
  exact ⟨t, t', a, a', trace, trace', h, h', hsame, hread, hread', hlive hread hread',
    (hdead hread).1.2 ⟨_, zeros_are_refused⟩, (hdead hread).2 _ zeros_are_refused⟩

/-- If the same twelve bytes come in one read with the answer, the session is live and its
keep-alive has nothing to do before the next read. Read behind the answer, they undo it. -/
theorem error_waits_for_read : ∃ t t' a a', ∃ trace trace' : Trace,
    Served .loopback 0 (List.replicate 12 0) t trace a ∧
    Served .loopback 0 (List.replicate 12 0) t' trace' a' ∧
    trace.received 0 = trace'.received 0 ∧
    (Parse.run maxPayloadSize (List.replicate 12 0)).error = some (.badMagic 0) ∧
    a.live = true ∧ a.proceed = none ∧ a'.live = false := by
  obtain ⟨t, trace, a, h, hreceived, hread, hk⟩ := of_handover (List.replicate 12 0)
  obtain ⟨_, _, _, hs, hreceived', -, hk'⟩ := of_handover []
  obtain ⟨t', trace', a', h', hmore, -, hdead⟩ :=
    hs.read_error hk' 0 (List.replicate 11 0) zeros_are_refused
  have hsame : trace.received 0 = trace'.received 0 := by
    rw [hmore, hreceived, hreceived', List.append_nil]
    rfl
  have hidle : a.proceed = none := by
    obtain ⟨f, front, -, hu⟩ := h.undisturbed
    unfold Session.proceed
    rw [hk]
    show (if a.signalled = true then _ else _) = _
    rw [hu.signalled, if_neg Bool.false_ne_true]
  exact ⟨t, t', a, a', trace, trace', h, h', hsame, zeros_are_refused, h.live_of_unread hread, hidle,
    hdead⟩

end Served

end Manager

end Corelink
