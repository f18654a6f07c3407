import Corelink.Proofs.Connection.Reply
import Corelink.Proofs.Session.Handshake
import Corelink.Proofs.Session.Intake

/-!
# What becomes of the bytes that Core sends

The bytes of a connection come in while its `create` awaits the answer to the login, and after that
to the keep-alive of the session. Whoever holds the receiver, nothing is lost: the answer is the
first frame of all that has been received, and what came behind it was handed over to the session
(`Account`). This holds at the end of every run, whatever calls and keep-alives do meanwhile
(`account_of_run`).
-/

namespace Corelink

open Wire

/-- Whether the call has not sent its login yet. -/
def CreatePhase.isEarly : CreatePhase → Bool
  | called | queued .. | admitted .. | discarding .. | ready .. | dialling .. | sending .. => true
  | awaiting .. | established .. | undoing .. | leaving .. | returned _ => false

theorem CreatePhase.not_isEarly_of_isAnswered {a : CreatePhase} (h : a.isAnswered = true) :
    a.isEarly = false := by
  cases a <;> first | rfl | cases h

namespace Manager

variable {m : Manager} {s t : State} {e : Event} {es : List Event} {x g : CallId} {u p : String}
  {effects : List Effect} {trace : Trace} {b : Session} {seen : Nat} {r : Receiver}

/-! ### Steps of a connection -/

theorem quiet_of_none (hcu : Custody s) (hx : s.sessions x = none)
    (h : m.step s e = some (t, effects)) : e.session? ≠ some x ∧ takings x effects = [] := by
  cases he : e.session? with
  | some y =>
    obtain ⟨a, _, ha, -, -⟩ := session_event he h
    have hy : y ≠ x := by
      rintro rfl
      rw [hx] at ha
      cases ha
    exact ⟨fun hyx => hy (Option.some.inj hyx), takings_of_session he hy h⟩
  | none =>
    obtain ⟨i, hi⟩ := Event.exists_call he
    exact ⟨nofun, (Acts.of_step hcu hi h).takings x⟩

theorem awaiting_stays (hcu : Custody s)
    (hc : s.calls x = some (.create u p (.awaiting g seen r))) (h : m.step s e = some (t, effects))
    (hr : ∀ read, e ≠ .read x read) : t.calls x = s.calls x := by
  cases he : e.call? with
  | some i =>
    by_cases hi : x = i
    · subst hi
      cases e with
      | read i read =>
        cases he
        exact absurd rfl (hr read)
      | call | proceed | dial | write =>
        cases he
        simp [step, proceed, proceedCreate, hc] at h
      | keepAlive | tick | ping | inbound => cases he
    · exact (Acts.of_step hcu he h).calls x hi
  | none =>
    cases e <;> cases he
    all_goals
      obtain ⟨_, _, -, -, rfl⟩ := onSession_spec h
      rfl

theorem awaiting_of_read {read : ReadResult} (h : m.step s (.read x read) = some (t, effects)) :
    ∃ u p g seen r, s.calls x = some (.create u p (.awaiting g seen r)) := by
  simp only [step] at h
  split at h
  · next hc => exact ⟨_, _, _, _, _, hc⟩
  · cases h

/-- What a read comes to that a login waits for. -/
theorem heard_spec {read : ReadResult}
    (hc : s.calls x = some (.create u p (.awaiting g seen r)))
    (h : m.step s (.read x read) = some (t, effects)) :
    (∃ r', Wait.read m.handshakeTerms r read = .more r' ∧
      t = s.setCall x (.create u p (.awaiting g seen r'))) ∨
    (∃ f r' login, Wait.read m.handshakeTerms r read = .frame f r' ∧
      readLogin (.ok (f, r')) = .ok login ∧ login.ok = true ∧
      t = (s.setSession x (newSession x u m login r')).setCall x
        (.create u p (.established g seen))) ∨
    t = s.setCall x (.create u p (.leaving g none)) := by
  simp only [step, hc, heard, answered, giveUp] at h
  split at h
  · next r' hw =>
    cases h
    exact .inl ⟨r', hw, rfl⟩
  · cases h
    exact .inr (.inr rfl)
  · next f r' hw =>
    split at h
    · cases h
      exact .inr (.inr rfl)
    · next login hlogin =>
      split at h
      · next hok =>
        cases h
        exact .inr (.inl ⟨f, r', login, hw, hlogin, hok, rfl⟩)
      · cases h
        exact .inr (.inr rfl)

/-! ### The account -/

/-- A receiver that has received these bytes, and has found nothing in them yet. -/
structure Awaits (r : Receiver) (bs : Bytes) : Prop where
  unfound : (Parse.run maxPayloadSize bs).first? = none
  holds : r = (Parse.run maxPayloadSize bs).receiver maxPayloadSize

theorem Awaits.nil : Awaits {} [] := by
  refine ⟨?_, ?_⟩ <;> rw [Parse.run_eq] <;> rfl

/-- What has come in on connection `x` is accounted for, whoever it is for. -/
structure Account (x : CallId) (s : State) (trace : Trace) : Prop where
  unread : s.sessions x = none → trace.taken x = [] ∧ trace.hasRead x = false
  early : (∀ u p b, s.calls x = some (.create u p b) → b.isEarly = true) → trace.received x = []
  awaiting : ∀ {u p : String} {g : CallId} {seen : Nat} {r : Receiver},
    s.calls x = some (.create u p (.awaiting g seen r)) → Awaits r (trace.received x)
  handed : ∀ {a : Session}, s.sessions x = some a →
    ∃ f answer later, Handed x a trace f answer later

theorem CreateMove.isEarly {i : CallId} {a b : CreatePhase} (h : CreateMove s t i u a b)
    (hb : b.isEarly = true) : a.isEarly = true := by
  cases h with
  | same => exact hb
  | attempt ha => cases ha <;> first | rfl | cases hb
  | queue | turn | discard | clear | discardOn | discarded => rfl
  | reuse | meet | establish | cancel | yield | insert | undoOn | undone | leave => cases hb

namespace Account

theorem start : Account x {} [] where
  unread _ := ⟨rfl, rfl⟩
  early _ := rfl
  awaiting h := by cases h
  handed h := by cases h

theorem given_eq_nil (hcu : Custody s) (hx : s.sessions x = none)
    (he : m.step s e = some (t, effects)) (hr : ∀ read, e ≠ .read x read) : e.given x = [] := by
  obtain ⟨hne, htakings⟩ := quiet_of_none hcu hx he
  exact (Silent.of_ne hne hr htakings).given

theorem unread_step (hs : m.Reachable s) (h : Account x s trace)
    (he : m.step s e = some (t, effects)) (hx : t.sessions x = none) :
    Trace.taken x (trace ++ [(e, effects)]) = [] ∧
      Trace.hasRead x (trace ++ [(e, effects)]) = false := by
  have hnone : s.sessions x = none := by
    cases ha : s.sessions x with
    | none => rfl
    | some a =>
      obtain ⟨b, hb⟩ := (Shift.of_step he).session_kept ha
      rw [hx] at hb
      cases hb
  obtain ⟨htaken, hread⟩ := h.unread hnone
  obtain ⟨hne, htakings⟩ := quiet_of_none hs.custody hnone he
  rw [Trace.taken_concat, Trace.hasRead_concat, htaken, hread, htakings, Event.feeds_of_ne hne]
  exact ⟨rfl, rfl⟩

theorem early_step (hs : m.Reachable s) (h : Account x s trace)
    (he : m.step s e = some (t, effects))
    (hearly : ∀ u p b, t.calls x = some (.create u p b) → b.isEarly = true) :
    Trace.received x (trace ++ [(e, effects)]) = [] := by
  have hbefore : ∀ u p b, s.calls x = some (.create u p b) → b.isEarly = true := by
    intro u p b hc
    obtain ⟨b', hb', hm⟩ := (Shift.of_step he).create_on hc
    exact hm.isEarly (hearly u p b' hb')
  have hnone : s.sessions x = none := by
    cases ha : s.sessions x with
    | none => rfl
    | some a =>
      obtain ⟨p, b, hc, hans⟩ := hs.custody.made ha
      have hb := CreatePhase.not_isEarly_of_isAnswered hans
      rw [hbefore _ _ _ hc] at hb
      cases hb
  have hr : ∀ read, e ≠ .read x read := by
    rintro read rfl
    obtain ⟨u, p, g, seen, r, hc⟩ := awaiting_of_read he
    cases hbefore u p _ hc
  rw [Trace.received_concat, h.early hbefore, given_eq_nil hs.custody hnone he hr]
  rfl

theorem awaiting_of_more (h : Account x s trace) {read : ReadResult}
    (he : m.step s (.read x read) = some (t, effects))
    (hc : t.calls x = some (.create u p (.awaiting g seen r))) :
    Awaits r (trace.received x ++ read.given) := by
  obtain ⟨u', p', g', seen', r', hc'⟩ := awaiting_of_read he
  obtain ⟨hfirst, rfl⟩ := h.awaiting hc'
  obtain ⟨r'', hw, rfl⟩ | ⟨f, r'', login, -, -, -, rfl⟩ | rfl := heard_spec hc' he
  · rw [State.setCall_calls, assign_same] at hc
    cases hc
    obtain ⟨hunfound, hr⟩ := Wait.read_more hfirst hw
    exact ⟨hunfound, hr⟩
  · rw [State.setCall_calls, assign_same] at hc
    cases hc
  · rw [State.setCall_calls, assign_same] at hc
    cases hc

theorem awaiting_of_still (hs : m.Reachable s) (h : Account x s trace)
    (he : m.step s e = some (t, effects)) (hr : ∀ read, e ≠ .read x read)
    (hc : t.calls x = some (.create u p (.awaiting g seen r))) :
    Awaits r (trace.received x ++ e.given x) := by
  have still : ∀ {r' : Receiver}, s.calls x = some (.create u p (.awaiting g seen r')) →
      Awaits r (trace.received x ++ e.given x) := by
    intro r' hc'
    have hsame := awaiting_stays hs.custody hc' he hr
    rw [hc, hc'] at hsame
    cases hsame
    rw [given_eq_nil hs.custody (hs.custody.sessions_eq_none hc' rfl) he hr, List.append_nil]
    exact h.awaiting hc'
  obtain ⟨-, -, hcalled⟩ | ⟨b, hb, hm⟩ := (Shift.of_step he).create_move hc
  · cases hcalled
  cases hm with
  | same => exact still hb
  | attempt ha =>
    cases ha with
    | heard => exact still hb
    | written =>
      have hreceived : trace.received x = [] := by
        refine h.early fun u' p' b' hb' => ?_
        rw [hb] at hb'
        cases hb'
        rfl
      rw [given_eq_nil hs.custody (hs.custody.sessions_eq_none hb rfl) he hr, hreceived]
      exact .nil

theorem awaiting_step (hs : m.Reachable s) (h : Account x s trace)
    (he : m.step s e = some (t, effects))
    (hc : t.calls x = some (.create u p (.awaiting g seen r))) :
    Awaits r (Trace.received x (trace ++ [(e, effects)])) := by
  rw [Trace.received_concat]
  by_cases hr : ∃ read, e = .read x read
  · obtain ⟨read, rfl⟩ := hr
    rw [Event.given_read]
    exact h.awaiting_of_more he hc
  · exact h.awaiting_of_still hs he (fun read heq => hr ⟨read, heq⟩) hc

/-- A session that has just been made is handed over what came behind the answer. -/
theorem made (hs : m.Reachable s) (h : Account x s trace) (he : m.step s e = some (t, effects))
    (hx : s.sessions x = none) (hb : t.sessions x = some b) :
    (∃ u login r, b = newSession x u m login r) ∧
      Trace.hasRead x (trace ++ [(e, effects)]) = false ∧
      ∃ f answer later, Handed x b (trace ++ [(e, effects)]) f answer later := by
  obtain ⟨a, ha, -⟩ | ⟨u, p, g, seen, r, hc, hc', -⟩ := (Shift.of_step he).session_from hb
  · rw [hx] at ha
    cases ha
  by_cases hr : ∃ read, e = .read x read
  · obtain ⟨read, rfl⟩ := hr
    obtain ⟨hfirst, rfl⟩ := h.awaiting hc
    obtain ⟨r', -, rfl⟩ | ⟨f, r', login, hw, hlogin, hok, rfl⟩ | rfl := heard_spec hc he
    · rw [State.setCall_calls, assign_same] at hc'
      cases hc'
    · obtain ⟨answer, later, hreceived, hsent, hfit, rfl⟩ := Wait.read_frame hfirst hw
      obtain ⟨f', _, hf, htype, hd⟩ := readLogin_eq_ok_iff.1 hlogin
      cases hf
      rw [State.setCall_sessions, State.setSession_sessions, assign_same] at hb
      cases hb
      obtain ⟨htaken, hread⟩ := h.unread hx
      have htakings := (Acts.of_step hs.custody rfl he).takings x
      have hread' : Trace.hasRead x (trace ++ [(.read x read, effects)]) = false := by
        rw [Trace.hasRead_concat, hread]
        rfl
      refine ⟨⟨u, login, _, rfl⟩, hread', f, answer, later, hsent, hfit,
        ⟨htype, login, hd, hok, rfl, rfl⟩, ?_, ?_, ?_⟩
      · rw [Trace.received_concat, Event.given_read, hreceived]
      · rw [Trace.taken_concat, hread', htaken, htakings]
        rfl
      · rw [hread']
        rfl
    · rw [State.setCall_calls, assign_same] at hc'
      cases hc'
  · have hsame := awaiting_stays hs.custody hc he fun read heq => hr ⟨read, heq⟩
    rw [hc, hc'] at hsame
    cases hsame

theorem handed_step (hs : m.Reachable s) (h : Account x s trace)
    (he : m.step s e = some (t, effects)) (hb : t.sessions x = some b) :
    ∃ f answer later, Handed x b (trace ++ [(e, effects)]) f answer later := by
  cases hx : s.sessions x with
  | some a =>
    obtain ⟨f, answer, later, hh⟩ := h.handed hx
    obtain ⟨b', hb', hm⟩ := Moves.of_step hs.custody he hx
    rw [hb] at hb'
    cases hb'
    obtain ⟨later', hh'⟩ := hh.moves hm
    exact ⟨f, answer, later', hh'⟩
  | none => exact (h.made hs he hx hb).2.2

/-- **Every step keeps the account.** -/
theorem step (hs : m.Reachable s) (h : Account x s trace) (he : m.step s e = some (t, effects)) :
    Account x t (trace ++ [(e, effects)]) where
  unread := h.unread_step hs he
  early := h.early_step hs he
  awaiting := h.awaiting_step hs he
  handed := h.handed_step hs he

end Account

/-- **No byte is lost** in any run, whoever takes steps meanwhile. -/
theorem account_of_run (x : CallId) (hr : m.run {} es = some (t, trace)) : Account x t trace :=
  run_invariant .start (fun hs h he => h.step hs he) hr

end Manager

end Corelink
