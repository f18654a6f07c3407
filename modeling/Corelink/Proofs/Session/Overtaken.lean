import Corelink.Proofs.Session.Shortfall
import Corelink.Proofs.Wire.Framing

/-!
# Pings that are overtaken by closing

A keep-alive looks whether its session is live and then takes hold of the write half, in two steps.
All of closing the session may come between them. Then there is no write half any more, and a close
that somebody asked for is reported as a ping that failed (`close_is_reported`). Of a session whose
connection does not fail, and to which Core sends no bad frame, there is no other report
(`report_of_overtaken`).
-/

namespace Corelink

open Wire

/-- Whether the keep-alive has found its session live for the ping that it is about. -/
def KeepAlive.hasChecked : KeepAlive → Bool
  | sending | writing | failing (.pingFailed _) => true
  | waiting | due | failing _ | ended => false

namespace Manager

variable {m : Manager} {s t : State} {e : Event} {es : List Event} {x : CallId}
  {effects : List Effect} {trace : Trace} {a b : Session} {why : StopReason}

/-! ### Where a keep-alive comes from -/

theorem Moves.hasChecked_from (h : Moves m s x a e effects b)
    (hb : b.keepAlive.hasChecked = true) : a.keepAlive.hasChecked = true ∨
      a.keepAlive = .due ∧ a.live = true ∧ e = .keepAlive x ∧ effects = [] := by
  cases h with
  | still => exact .inl hb
  | closing _ _ _ _ _ hstep => exact .inl (Closing.keepAlive_eq hstep ▸ hb)
  | proceed hp =>
    cases Session.proceeds hp with
    | foundLive hk hl => exact .inr ⟨hk, hl, rfl, rfl⟩
    | writes hk =>
      rw [hk]
      exact .inl rfl
    | overtaken hk =>
      rw [hk]
      exact .inl rfl
    | cancelled | foundDead | stopped => cases hb
  | tick ht =>
    cases Session.ticks ht
    cases hb
  | ping hp =>
    cases Session.pings hp with
    | wrote hk =>
      rw [hk]
      exact .inl rfl
  | inbound hi =>
    cases Session.hears hi with
    | bytes _ _ first more =>
      obtain hnext | ⟨_, hnext⟩ := a.take_keepAlive x (first :: more) <;> rw [hnext] at hb <;>
        cases hb
    | closed | failed => cases hb

/-- A keep-alive that has failed did so before, or its connection has failed, or it has read a bad
frame, or it has found the write half gone. -/
theorem Moves.failing_from (h : Moves m s x a e effects b) (hbreak : e.breaks x = false)
    (hb : b.keepAlive = .failing why) : a.keepAlive = .failing why ∨
      (∃ first more, e = .inbound x (.bytes first more) ∧
        (b, effects) = a.take x (first :: more)) ∨
      why = .pingFailed (.connection .closed) ∧ a.writer = false := by
  cases h with
  | still => exact .inl hb
  | closing _ _ _ _ _ hstep => exact .inl (Closing.keepAlive_eq hstep ▸ hb)
  | proceed hp =>
    cases Session.proceeds hp with
    | overtaken _ hw =>
      cases hb
      exact .inr (.inr ⟨rfl, hw⟩)
    | cancelled | foundLive | foundDead | writes | stopped => cases hb
  | tick ht =>
    cases Session.ticks ht
    cases hb
  | @ping r _ _ hp =>
    have hdone : r = .done := by simpa [Event.breaks] using hbreak
    cases Session.pings hp with
    | wrote _ hnext =>
      obtain ⟨-, rfl⟩ | ⟨hne, -⟩ := hnext
      · cases hb
      · exact absurd hdone hne
  | inbound hi =>
    cases Session.hears hi with
    | bytes _ _ first more => exact .inr (.inl ⟨first, more, rfl, rfl⟩)
    | closed | failed => cases hbreak.symm.trans (beq_self_eq_true x)

theorem Moves.writer_from (h : Moves m s x a e effects b) (hb : b.writer = false) :
    a.writer = false ∨
      ∃ i c, s.calls i = some c ∧ c.closing? i = some (x, .shut) ∧ b.signalled = a.signalled := by
  cases h with
  | still => exact .inl hb
  | @closing _ i c next _ _ _ _ _ _ _ hc hx hstep =>
    cases Closing.does hstep with
    | shut | shutFails => exact .inr ⟨i, c, hc, hx, rfl⟩
    | gone _ hw => exact .inl hw
    | mark | signal | join => exact .inl hb
  | proceed hp => exact .inl ((Session.Kept.of_proceed hp).writer.symm.trans hb)
  | tick ht => exact .inl ((Session.Kept.of_tick ht).writer.symm.trans hb)
  | ping hp => exact .inl ((Session.Kept.of_ping hp).writer.symm.trans hb)
  | inbound hi => exact .inl ((Session.Kept.of_inbound hi).writer.symm.trans hb)

/-! ### Sessions that come to no harm -/

namespace Trace

/-- What Core has sent behind the answer to the login of `x` is well-framed as far as it goes. -/
def WellFramed (x : CallId) (trace : Trace) : Prop :=
  ∀ (f : Frame) answer later, f.IsSentAs answer → trace.received x = answer ++ later →
    (Parse.run maxPayloadSize later).error = none

theorem WellFramed.of_concat (h : WellFramed x (trace ++ [(e, effects)])) : WellFramed x trace := by
  intro f answer later hf hreceived
  cases herror : (Parse.run maxPayloadSize later).error with
  | none => rfl
  | some err =>
    have hall := h f answer (later ++ e.given x) hf (by
      rw [received_concat, hreceived, List.append_assoc])
    have hmore := Decoder.error_append (d := ⟨maxPayloadSize, none⟩) (e.given x) herror
    cases hmore.symm.trans hall

/-- At one moment of the run, the keep-alive of `x` has found its session live. -/
def Checked (m : Manager) (x : CallId) (trace : Trace) : Prop :=
  ∃ es s a, ∃ before after : Trace, m.run {} es = some (s, before) ∧ s.sessions x = some a ∧
    a.keepAlive = .due ∧ a.live = true ∧ trace = before ++ (.keepAlive x, []) :: after

theorem Checked.concat (h : Checked m x trace) : Checked m x (trace ++ [(e, effects)]) := by
  obtain ⟨es, s, a, before, after, hr, ha, hk, hl, rfl⟩ := h
  exact ⟨es, s, a, before, after ++ [(e, effects)], hr, ha, hk, hl, by simp⟩

end Trace

/-- A session to which nothing but closing has happened. -/
structure Unharmed (m : Manager) (x : CallId) (a : Session) (s : State) (trace : Trace) : Prop where
  checked : a.keepAlive.hasChecked = true → trace.Checked m x
  reason : ∀ why, a.keepAlive = .failing why →
    why = .pingFailed (.connection .closed) ∧ a.writer = false
  shut : a.writer = false → a.live = false ∧ a.signalled = true ∧ Past x s

namespace Unharmed

theorem of_made (h : Account x s trace) (hs : m.Reachable s) (he : m.step s e = some (t, effects))
    (hx : s.sessions x = none) (hb : t.sessions x = some b) :
    Unharmed m x b t (trace ++ [(e, effects)]) := by
  obtain ⟨⟨u, login, r, rfl⟩, -⟩ := h.made hs he hx hb
  exact ⟨nofun, nofun, nofun⟩

/-- **Each step leaves such a session unharmed**, if it neither breaks the connection nor brings in
a bad frame. -/
theorem step (h : Unharmed m x a s trace) (hr : m.run {} es = some (s, trace))
    (ha : s.sessions x = some a) (he : m.step s e = some (t, effects))
    (hbreak : e.breaks x = false)
    (hframed : Trace.WellFramed x (trace ++ [(e, effects)])) (hb : t.sessions x = some b) :
    Unharmed m x b t (trace ++ [(e, effects)]) := by
  have hs : m.Reachable s := .run .start hr
  obtain ⟨b', hb', hm⟩ := Moves.of_step hs.custody he ha
  rw [hb] at hb'
  cases hb'
  have haged := hm.aged
  have hgone : a.writer = false → b.writer = false := fun hw =>
    Bool.eq_false_iff.2 fun hbw => Bool.eq_false_iff.1 hw (haged.writer hbw)
  refine ⟨fun hk => ?_, fun why hk => ?_, fun hw => ?_⟩
  · obtain hbefore | ⟨hdue, hlive, rfl, rfl⟩ := hm.hasChecked_from hk
    · exact (h.checked hbefore).concat
    · exact ⟨es, s, a, trace, [], hr, ha, hdue, hlive, rfl⟩
  · obtain hbefore | ⟨first, more, rfl, htake⟩ | ⟨hwhy, hw⟩ := hm.failing_from hbreak hk
    · exact (h.reason why hbefore).imp_right hgone
    · -- a read fails a keep-alive over a bad frame only
      obtain ⟨f, answer, later, hh⟩ := (account_of_run x hr).handed ha
      obtain ⟨frames, -, heq⟩ := hh.take_eq (first :: more)
      have hnone : (digest true (later ++ first :: more)).error = none :=
        hframed f answer _ hh.sent (hh.inbound htake).received
      rw [heq, hnone] at htake
      cases htake
      cases hk
    · exact ⟨hwhy, hgone hw⟩
  · obtain hbefore | ⟨i, c, hc, hx, hsignalled⟩ := hm.writer_from hw
    · obtain ⟨hl, hsig, hpast⟩ := h.shut hbefore
      exact ⟨Bool.eq_false_iff.2 fun hbl => Bool.eq_false_iff.1 hl (haged.live hbl),
        haged.signalled hsig, hpast.shift (.of_step he)⟩
    · have hl := hs.marked hc hx nofun ha
      exact ⟨Bool.eq_false_iff.2 fun hbl => Bool.eq_false_iff.1 hl (haged.live hbl),
        haged.signalled (hs.told hc hx (.inl rfl) ha),
        (hs.past_of_closing hc hx).shift (.of_step he)⟩

end Unharmed

theorem unharmed_of_run (hr : m.run {} es = some (s, trace)) (hunbroken : trace.Unbroken x)
    (hframed : trace.WellFramed x) (ha : s.sessions x = some a) : Unharmed m x a s trace := by
  have key : (∃ es, m.run {} es = some (s, trace)) ∧ (trace.Unbroken x → trace.WellFramed x →
      ∀ a, s.sessions x = some a → Unharmed m x a s trace) := by
    refine run_invariant (P := fun s trace => (∃ es, m.run {} es = some (s, trace)) ∧
      (trace.Unbroken x → trace.WellFramed x →
        ∀ a, s.sessions x = some a → Unharmed m x a s trace)) ⟨⟨[], rfl⟩, ?_⟩ ?_ hr
    · exact fun _ _ _ ha => by cases ha
    · rintro s t e effects trace hs ⟨⟨es, hr⟩, ih⟩ he
      refine ⟨⟨_, run_concat hr he⟩, fun hunbroken hframed b hb => ?_⟩
      obtain ⟨hbefore, hbreak⟩ := Trace.unbroken_concat.1 hunbroken
      cases hx : s.sessions x with
      | none => exact .of_made (account_of_run x hr) hs he hx hb
      | some a => exact (ih hbefore hframed.of_concat a hx).step hr hx he hbreak hframed hb
  exact key.2 hunbroken hframed a ha

/-! ### Reports -/

theorem Reachable.dead_of_run {es : List Event} (hs : m.Reachable s) (ha : s.sessions x = some a)
    (hl : a.live = false) (hr : m.run s es = some (t, trace)) :
    ∃ b, t.sessions x = some b ∧ b.live = false := by
  refine hs.keeps (P := fun s => ∃ b, s.sessions x = some b ∧ b.live = false) ?_ ⟨a, ha, hl⟩ hr
  rintro s t e hs hst ⟨a, ha, hl⟩
  obtain ⟨b, hb, hab⟩ := hs.custody.session_on hst ha
  exact ⟨b, hb, Bool.eq_false_iff.2 fun hbl => Bool.eq_false_iff.1 hl (hab.live hbl)⟩

/-- **What a keep-alive reports of a session that comes to no harm.** It reports in its last step,
which changes nothing but the session, and the session is dead from then on. If the connection has
not failed and Core has sent no bad frame, the reason is that the connection is closed; somebody has
taken the session out of the table for good and closed it; and before that, the keep-alive had found
it live. -/
theorem report_of_overtaken (hr : m.run {} es = some (s, trace)) (ha : s.sessions x = some a)
    (hk : a.keepAlive = .failing why) :
    (∃ b, b.live = false ∧ b.keepAlive = .ended ∧ m.step s (.keepAlive x) =
      some (s.setSession x b, [.noted (.keepAliveStopped a.username why)]) ∧
      ∀ es' t trace', m.run (s.setSession x b) es' = some (t, trace') →
        ∃ b', t.sessions x = some b' ∧ b'.live = false) ∧
    (trace.Unbroken x → trace.WellFramed x →
      why = .pingFailed (.connection .closed) ∧ a.writer = false ∧ a.live = false ∧
        a.signalled = true ∧ Past x s ∧ trace.Checked m x) := by
  have hstop := step_failing (m := m) ha hk
  refine ⟨⟨_, rfl, rfl, hstop, fun es' t trace' hr' => ?_⟩, fun hunbroken hframed => ?_⟩
  · exact (Reachable.step (.run .start hr) hstop).dead_of_run (assign_same _ _ _) rfl hr'
  · have h := unharmed_of_run hr hunbroken hframed ha
    obtain ⟨rfl, hw⟩ := h.reason why hk
    obtain ⟨hl, hsignalled, hpast⟩ := h.shut hw
    exact ⟨rfl, hw, hl, hsignalled, hpast, h.checked (by rw [hk]; rfl)⟩

theorem Trace.wellFramed_of_acceptance (h : trace.received x = Served.acceptance) :
    trace.WellFramed x := by
  intro f answer later hf hreceived
  have hsplit : Served.acceptance ++ [] = answer ++ later := by
    rw [List.append_nil, ← h, hreceived]
  obtain ⟨-, -, rfl⟩ := Frame.IsSentAs.eq_of_append Served.acceptance_isSentAs hf hsplit
  rw [Parse.run_eq]
  rfl

/-- A logout comes between the look at a session and its ping. Core has sent the answer to the login
and nothing else, no operation on the connection has failed, and the keep-alive reports that its
ping has. -/
theorem close_is_reported : ∃ es s t, ∃ trace : Trace,
    run .loopback {} es = some (s, trace) ∧ trace.Unbroken 0 ∧
    trace.received 0 = Served.acceptance ∧ trace.WellFramed 0 ∧
    step .loopback s (.keepAlive 0) =
      some (t, [.noted (.keepAliveStopped "u" (.pingFailed (.connection .closed)))]) ∧
    Past 0 s ∧ trace.Checked .loopback 0 := by
  obtain ⟨s, trace, hr, hreceived, hunbroken, a, ha, hname, hk⟩ : ∃ s, ∃ trace : Trace,
      run .loopback {} [.call 0 (.create "u" "p"), .proceed 0, .proceed 0,
        .proceed 0, .proceed 0, .dial 0 .opened, .write 0 .done,
        .read 0 (.bytes 70 Served.acceptance.tail), .proceed 0, .proceed 0, .tick 0,
        .keepAlive 0, .call 1 (.remove "u"), .proceed 1, .proceed 1, .proceed 1, .proceed 1,
        .proceed 1, .keepAlive 0] = some (s, trace) ∧
      trace.received 0 = Served.acceptance ∧ trace.Unbroken 0 ∧ ∃ a, s.sessions 0 = some a ∧
        a.username = "u" ∧ a.keepAlive = .failing (.pingFailed (.connection .closed)) :=
    ⟨_, _, rfl, rfl, by unfold Trace.Unbroken; decide, _, rfl, rfl, rfl⟩
  have hframed := Trace.wellFramed_of_acceptance hreceived
  obtain ⟨⟨b, -, -, hstop, -⟩, hall⟩ := report_of_overtaken hr ha hk
  obtain ⟨-, -, -, -, hpast, hchecked⟩ := hall hunbroken hframed
  rw [hname] at hstop
  exact ⟨_, s, _, trace, hr, hunbroken, hreceived, hframed, hstop, hpast, hchecked⟩

end Manager

end Corelink
