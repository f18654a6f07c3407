import Corelink.Proofs.Session.Hands
import Corelink.Proofs.Session.Sending
import Corelink.Proofs.Wire.Message

/-!
# Where a session comes from

What a `create` writes before it has a session is its login and nothing else; what is written behind
that are the pings of the session's keep-alive (`Spoken`). What a `create` gives, or is about to
give, is a session of its own user, whoever has made it (`Bestowed`). Together with the account of
what has come in, each session that can be found or is given goes back to a login that was sent on
its connection and that Core has accepted there (`no_session_without_login`).
-/

namespace Corelink

open Wire

/-- Whether these are the bytes of a login of `u` with password `p`. -/
def IsLogin (u p : String) (frame : Bytes) : Prop :=
  ∃ payload, Frame.encode .loginRequest payload = .ok frame ∧
    LoginRequest.decode payload = .ok ⟨u, p⟩

namespace CreatePhase

/-- What a `create` is about to send is a login of its own. -/
def Prepared (u p : String) : CreatePhase → Prop
  | dialling _ _ payload => (LoginRequest.mk u p).encode = .ok payload
  | sending _ _ frame => IsLogin u p frame
  | _ => True

/-- Whether this is the event that takes call `i` on from here. -/
def Expects (i : CallId) (e : Manager.Event) : CreatePhase → Prop
  | dialling .. => ∃ r, e = .dial i r
  | sending .. => ∃ r, e = .write i r
  | awaiting .. => ∃ r, e = .read i r
  | _ => e = .proceed i

/-- The session that a `create` gives, or is to give. -/
def result? : CreatePhase → Option CallId
  | undoing _ _ result | leaving _ result | returned result => result
  | _ => none

end CreatePhase

namespace Manager

variable {m : Manager} {s t : State} {e : Event} {es : List Event} {i x g : CallId} {u p : String}
  {effects : List Effect} {trace : Trace} {a b : Session} {seen : Nat} {frame : Bytes}
  {phase phase' : CreatePhase}

theorem call?_of_changed (hcu : Custody s) (h : m.step s e = some (t, effects))
    (hne : t.calls x ≠ s.calls x) : e.call? = some x := by
  cases he : e.session? with
  | some y =>
    obtain ⟨_, _, -, rfl, -⟩ := session_event he h
    exact absurd rfl hne
  | none =>
    obtain ⟨i, hi⟩ := Event.exists_call he
    by_cases hx : x = i
    · rw [hx, hi]
    · exact absurd ((Acts.of_step hcu hi h).calls x hx) hne

theorem expects_of_changed (hcu : Custody s) (h : m.step s e = some (t, effects))
    (hc : s.calls x = some (.create u p phase)) (hc' : t.calls x = some (.create u p phase'))
    (hne : phase ≠ phase') : phase.Expects x e := by
  have he : e.call? = some x := by
    refine call?_of_changed hcu h ?_
    rw [hc, hc']
    exact fun heq => hne (by cases heq; rfl)
  cases e with
  | call i r =>
    cases he
    simp [step, hc] at h
  | proceed i =>
    cases he
    cases phase with
    | dialling | sending | awaiting => simp [step, proceed, hc, proceedCreate] at h
    | _ => rfl
  | dial i r =>
    cases he
    cases phase with
    | dialling => exact ⟨r, rfl⟩
    | _ => simp [step, hc] at h
  | write i r =>
    cases he
    cases phase with
    | sending => exact ⟨r, rfl⟩
    | _ => simp [step, hc] at h
  | read i r =>
    cases he
    cases phase with
    | awaiting => exact ⟨r, rfl⟩
    | _ => simp [step, hc] at h
  | keepAlive | tick | ping | inbound => cases he

/-! ### What a create sends -/

theorem prepared_of_ready (hcu : Custody s) (h : m.step s e = some (t, effects)) {payload : Bytes}
    (hc : s.calls x = some (.create u p (.ready g seen)))
    (hc' : t.calls x = some (.create u p (.dialling g seen payload))) :
    (LoginRequest.mk u p).encode = .ok payload := by
  obtain rfl : e = .proceed x := expects_of_changed hcu h hc hc' nofun
  simp only [step, proceed, hc, proceedCreate, prepare] at h
  split at h
  · cases h
    simp [go] at hc'
  · next hencode =>
    cases h
    simp only [go, State.setCall_calls, assign_same] at hc'
    cases hc'
    exact hencode

theorem isLogin_of_dialling (hcu : Custody s) (h : m.step s e = some (t, effects)) {payload : Bytes}
    (hp : (LoginRequest.mk u p).encode = .ok payload)
    (hc : s.calls x = some (.create u p (.dialling g seen payload)))
    (hc' : t.calls x = some (.create u p (.sending g seen frame))) : IsLogin u p frame := by
  obtain ⟨r, rfl⟩ : ∃ r, e = .dial x r := expects_of_changed hcu h hc hc' nofun
  simp only [step, hc, dialled, giveUp] at h
  split at h
  · cases h
    simp [go] at hc'
  · split at h
    · cases h
      simp [go] at hc'
    · next hframe =>
      cases h
      simp only [go, State.setCall_calls, assign_same] at hc'
      cases hc'
      exact ⟨payload, hframe, (LoginRequest.takes hp).decode⟩

theorem sendings_of_sending (hcu : Custody s) (h : m.step s e = some (t, effects)) {r : Receiver}
    (hc : s.calls x = some (.create u p (.sending g seen frame)))
    (hc' : t.calls x = some (.create u p (.awaiting g seen r))) :
    sendings x effects = [(frame, .done)] := by
  obtain ⟨written, rfl⟩ : ∃ r, e = .write x r := expects_of_changed hcu h hc hc' nofun
  simp only [step, hc, Manager.written, giveUp] at h
  split at h
  · cases h
    simp [go] at hc'
  · next hwritten =>
    cases written with
    | done =>
      cases h
      simp [Effect.sent]
    | failed | timedOut => cases hwritten

theorem prepared_step (hcu : Custody s) (he : m.step s e = some (t, effects))
    (h : ∀ {u p phase}, s.calls x = some (.create u p phase) → phase.Prepared u p)
    (hc' : t.calls x = some (.create u p phase')) : phase'.Prepared u p := by
  obtain ⟨-, -, rfl⟩ | ⟨phase, hc, hm⟩ := (Shift.of_step he).create_move hc'
  · trivial
  cases hm with
  | same => exact h hc
  | attempt ha =>
    cases ha with
    | prepared => exact prepared_of_ready hcu he hc hc'
    | dialled => exact isLogin_of_dialling hcu he (h hc) hc hc'
    | _ => trivial
  | _ => trivial

/-- What has been written on connection `x` until now. -/
structure Spoken (x : CallId) (s : State) (trace : Trace) : Prop where
  prepared : ∀ {u p : String} {phase : CreatePhase}, s.calls x = some (.create u p phase) →
    phase.Prepared u p
  silent : (∀ u p phase, s.calls x = some (.create u p phase) → phase.isEarly = true) →
    trace.sent x = []
  awaiting : ∀ {u p : String} {g : CallId} {seen : Nat} {r : Receiver},
    s.calls x = some (.create u p (.awaiting g seen r)) →
    ∃ frame, IsLogin u p frame ∧ trace.sent x = [(frame, .done)]
  session : ∀ {a : Session}, s.sessions x = some a → ∃ p phase frame pings,
    s.calls x = some (.create a.username p phase) ∧ IsLogin a.username p frame ∧
      trace.sent x = (frame, .done) :: pings ∧ ∀ w ∈ pings, w.1 = pingFrame

namespace Spoken

theorem start : Spoken x {} [] where
  prepared h := by cases h
  silent _ := rfl
  awaiting h := by cases h
  session h := by cases h

/-- Where there is neither a login to be sent nor a session, nothing is written. -/
theorem sendings_eq_nil (h : m.step s e = some (t, effects)) (hx : s.sessions x = none)
    (hno : ∀ u p g seen frame, s.calls x ≠ some (.create u p (.sending g seen frame))) :
    sendings x effects = [] := by
  have hsends := Sends.of_step (x := x) h
  generalize sendings x effects = out at hsends
  cases hsends with
  | nothing => rfl
  | login hc => exact absurd hc (hno _ _ _ _ _)
  | ping ha =>
    rw [hx] at ha
    cases ha

theorem silent_step (hs : m.Reachable s) (h : Spoken x s trace)
    (he : m.step s e = some (t, effects))
    (hearly : ∀ u p phase, t.calls x = some (.create u p phase) → phase.isEarly = true) :
    Trace.sent x (trace ++ [(e, effects)]) = [] := by
  have hbefore : ∀ u p phase, s.calls x = some (.create u p phase) → phase.isEarly = true := by
    intro u p phase hc
    obtain ⟨phase', hc', hm⟩ := (Shift.of_step he).create_on hc
    exact hm.isEarly (hearly u p phase' hc')
  rw [Trace.sent_concat, h.silent hbefore, List.nil_append]
  have hsends := Sends.of_step (x := x) he
  generalize sendings x effects = out at hsends
  cases hsends with
  | nothing => rfl
  | login hc =>
    -- however the write ends, the call is not early any more
    simp only [step, hc, written, giveUp] at he
    split at he <;> cases he <;> cases hearly _ _ _ (assign_same _ _ _)
  | ping ha =>
    obtain ⟨p, phase, hc, hans⟩ := hs.custody.made ha
    have hlate := CreatePhase.not_isEarly_of_isAnswered hans
    rw [hbefore _ _ _ hc] at hlate
    cases hlate

theorem awaiting_step (hs : m.Reachable s) (h : Spoken x s trace)
    (he : m.step s e = some (t, effects)) {r : Receiver}
    (hc' : t.calls x = some (.create u p (.awaiting g seen r))) :
    ∃ frame, IsLogin u p frame ∧ Trace.sent x (trace ++ [(e, effects)]) = [(frame, .done)] := by
  have waited : ∀ {r : Receiver}, s.calls x = some (.create u p (.awaiting g seen r)) →
      ∃ frame, IsLogin u p frame ∧ Trace.sent x (trace ++ [(e, effects)]) = [(frame, .done)] := by
    intro r hc
    obtain ⟨frame, hlogin, hsent⟩ := h.awaiting hc
    refine ⟨frame, hlogin, ?_⟩
    rw [Trace.sent_concat, hsent, sendings_eq_nil he (hs.custody.sessions_eq_none hc rfl)]
    · rfl
    · intro u' p' g' seen' frame' hc'
      rw [hc] at hc'
      cases hc'
  obtain ⟨-, -, hcalled⟩ | ⟨phase, hc, hm⟩ := (Shift.of_step he).create_move hc'
  · cases hcalled
  cases hm with
  | same => exact waited hc
  | attempt ha =>
    cases ha with
    | heard => exact waited hc
    | @written _ _ frame =>
      refine ⟨frame, h.prepared hc, ?_⟩
      have hsilent : trace.sent x = [] := by
        refine h.silent fun u' p' phase hc' => ?_
        rw [hc] at hc'
        cases hc'
        rfl
      rw [Trace.sent_concat, hsilent, sendings_of_sending hs.custody he hc hc']
      rfl

theorem session_step (hs : m.Reachable s) (h : Spoken x s trace)
    (he : m.step s e = some (t, effects)) (hb : t.sessions x = some b) :
    ∃ p phase frame pings, t.calls x = some (.create b.username p phase) ∧
      IsLogin b.username p frame ∧
      Trace.sent x (trace ++ [(e, effects)]) = (frame, .done) :: pings ∧
      ∀ w ∈ pings, w.1 = pingFrame := by
  obtain ⟨a, ha, hab⟩ | ⟨u, p, g, seen, r, hc, hc', rfl⟩ := (Shift.of_step he).session_from hb
  · obtain ⟨p, phase, frame, pings, hc, hlogin, hsent, hpings⟩ := h.session ha
    obtain ⟨phase', hc', -⟩ := (Shift.of_step he).create_on hc
    have hmore : ∀ w ∈ sendings x effects, w.1 = pingFrame := by
      have hsends := Sends.of_step (x := x) he
      generalize sendings x effects = out at hsends
      cases hsends with
      | nothing => exact nofun
      | login hc =>
        rw [hs.custody.sessions_eq_none hc rfl] at ha
        cases ha
      | ping =>
        intro w hw
        rw [List.mem_singleton.1 hw]
    rw [hab.username]
    refine ⟨p, phase', frame, pings ++ sendings x effects, hc', hlogin, ?_, fun w hw => ?_⟩
    · rw [Trace.sent_concat, hsent, List.cons_append]
    · exact (List.mem_append.1 hw).elim (hpings w) (hmore w)
  · obtain ⟨frame, hlogin, hsent⟩ := h.awaiting hc
    refine ⟨p, _, frame, [], hc', hlogin, ?_, nofun⟩
    rw [Trace.sent_concat, hsent, sendings_eq_nil he (hs.custody.sessions_eq_none hc rfl)]
    · rfl
    · intro u' p' g' seen' frame' hc'
      rw [hc] at hc'
      cases hc'

theorem step (hs : m.Reachable s) (h : Spoken x s trace) (he : m.step s e = some (t, effects)) :
    Spoken x t (trace ++ [(e, effects)]) where
  prepared hc := prepared_step hs.custody he (fun hc => h.prepared hc) hc
  silent := h.silent_step hs he
  awaiting := h.awaiting_step hs he
  session := h.session_step hs he

end Spoken

theorem spoken_of_run (x : CallId) (hr : m.run {} es = some (t, trace)) : Spoken x t trace :=
  run_invariant .start (fun hs h he => h.step hs he) hr

/-! ### What a create gives -/

/-- What a `create` gives, or is to give, is a session of its user. -/
def Bestowed (s : State) : Prop :=
  ∀ {i x : CallId} {u p : String} {phase : CreatePhase}, s.calls i = some (.create u p phase) →
    phase.result? = some x → ∃ a, s.sessions x = some a ∧ a.username = u

theorem State.get?_of_liveSession? (h : s.liveSession? u = some x) : s.table.get? u = some x :=
  (Option.filter_eq_some_iff.1 h).1

theorem Bestowed.shift (h : Bestowed s) (hs : m.Reachable s) (hst : Shift s e t) : Bestowed t := by
  intro i x u p phase' hc' hx
  have on : ∀ {a : Session}, s.sessions x = some a → a.username = u →
      ∃ b, t.sessions x = some b ∧ b.username = u := by
    intro a ha hu
    obtain ⟨b, hb, hab⟩ := hs.custody.session_on hst ha
    exact ⟨b, hb, hab.username.trans hu⟩
  have found : s.liveSession? u = some x → ∃ b, t.sessions x = some b ∧ b.username = u := by
    intro hlive
    obtain ⟨a, ha, hu⟩ := hs.custody.listed (State.get?_of_liveSession? hlive)
    exact on ha hu
  obtain ⟨-, -, rfl⟩ | ⟨phase, hc, hm⟩ := hst.create_move hc'
  · cases hx
  have kept : phase.result? = some x → ∃ b, t.sessions x = some b ∧ b.username = u := by
    intro hresult
    obtain ⟨a, ha, hu⟩ := h hc hresult
    exact on ha hu
  cases hm with
  | same => exact kept hx
  | undoOn | undone | leave => exact kept hx
  | reuse hlive | meet hlive | yield hlive =>
    cases hx
    exact found hlive
  | insert =>
    cases hx
    obtain ⟨a, ha, hu⟩ := hs.custody.owned hc (List.mem_singleton_self _)
    exact on ha (hu u rfl)
  | attempt ha => cases ha <;> cases hx
  | queue | turn | discard | clear | discardOn | discarded | establish | cancel => cases hx

theorem Reachable.bestowed (h : m.Reachable s) : Bestowed s := by
  induction h with
  | start => exact fun h => by cases h
  | step hs he ih => exact fun hc hx => ih.shift hs (.of_step he) hc hx

/-! ### Every session has been accepted -/

/-- Session `a` of user `u` came of a login that was sent on connection `x`, once, and that Core has
accepted there. -/
structure Vouched (x : CallId) (u : String) (a : Session) (t : State) (trace : Trace) : Prop where
  username : a.username = u
  asked : ∃ p phase frame pings, t.calls x = some (.create u p phase) ∧ IsLogin u p frame ∧
    trace.sent x = (frame, .done) :: pings ∧ ∀ w ∈ pings, w.1 = pingFrame
  answered : ∃ f login, (Parse.run maxPayloadSize (trace.received x)).first? = some (.ok f) ∧
    f.header.type = MessageType.loginResponse.code ∧
    LoginResponse.decode f.payload = .ok login ∧ login.ok = true ∧
    a.token = login.token ∧ a.userId = login.userId

theorem vouched_of_run (hr : m.run {} es = some (t, trace)) (ha : t.sessions x = some a) :
    Vouched x a.username a t trace where
  username := rfl
  asked := (spoken_of_run x hr).session ha
  answered := by
    obtain ⟨f, answer, later, hh⟩ := (account_of_run x hr).handed ha
    obtain ⟨htype, login, hd, hok, htoken, hid⟩ := hh.accepted
    refine ⟨f, login, ?_, htype, hd, hok, htoken, hid⟩
    rw [hh.received]
    exact Parse.first?_of_sent hh.sent hh.fits later

/-- **No session without an accepted login.** Whatever Core sends and however calls overlap, at the
end of every run each session in the table under `u`, and each that a `create` of `u` has given, is
one of `u`. It was made by a `create` of `u` that has sent its login on the session's connection,
once and nothing but pings behind it; and the first frame that came in there accepted the login,
with the token and the user id that the session has. A session that is not live never is again. -/
theorem no_session_without_login (hr : m.run {} es = some (t, trace)) :
    (∀ u x, t.table.get? u = some x ∨
        (∃ i p, t.calls i = some (.create u p (.returned (some x)))) →
      ∃ a, t.sessions x = some a ∧ Vouched x u a t trace) ∧
    ∀ x a es' t' trace', t.sessions x = some a → a.live = false →
      m.run t es' = some (t', trace') → ∃ a', t'.sessions x = some a' ∧ a'.live = false := by
  have hs : m.Reachable t := .run .start hr
  refine ⟨fun u x hx => ?_, fun x a es' t' trace' ha hl hr' => ?_⟩
  · obtain ⟨a, ha, rfl⟩ : ∃ a, t.sessions x = some a ∧ a.username = u := by
      obtain hlisted | ⟨i, p, hi⟩ := hx
      · exact hs.custody.listed hlisted
      · exact hs.bestowed hi rfl
    exact ⟨a, ha, vouched_of_run hr ha⟩
  · refine hs.keeps (P := fun s => ∃ a, s.sessions x = some a ∧ a.live = false) ?_ ⟨a, ha, hl⟩ hr'
    rintro s t e hs hst ⟨a, ha, hl⟩
    obtain ⟨b, hb, hab⟩ := hs.custody.session_on hst ha
    exact ⟨b, hb, Bool.eq_false_iff.2 fun hlive => Bool.eq_false_iff.1 hl (hab.live hlive)⟩

/-- A session that a `create` has given, and the login that it goes back to. -/
theorem given_session_was_accepted : ∃ es t a trace,
    run .loopback {} es = some (t, trace) ∧
    t.calls 0 = some (.create "u" "p" (.returned (some 0))) ∧ t.sessions 0 = some a ∧
    Vouched 0 "u" a t trace := by
  have hr : run .loopback {} [.call 0 (.create "u" "p"), .proceed 0, .proceed 0,
      .proceed 0, .proceed 0, .dial 0 .opened, .write 0 .done, .read 0 (.bytes 70 [83, 88, 49, 1,
        13, 0, 0, 0, 15, 0, 0, 1, 0, 0, 0, 0, 0, 0, 0, 0, 0, 0, 0, 0, 0, 0]), .proceed 0,
      .proceed 0] = some (_, _) := rfl
  obtain ⟨a, ha, hvouched⟩ := (no_session_without_login hr).1 "u" 0 (.inr ⟨0, "p", rfl⟩)
  exact ⟨_, _, a, _, hr, rfl, ha, hvouched⟩

end Manager

end Corelink
