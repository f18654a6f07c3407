import Corelink.Proofs.Session.Actions
import Corelink.Proofs.Session.Withheld

/-!
# What a create does on the network

The phase of a `create` without a session tells what it has done (`Trod`), and the write half of its
session what has been done since (`Session.HasDone`); every step keeps both (`Trodden.step`). So
until it has a session a `create` does no more than a one-shot request, and without the session no
connection is left open (`one_attempt_per_request`).
-/

namespace Corelink

open Wire

/-- The login of `u` with password `p` as it goes out. -/
def loginFrame (u p : String) : Except ValidationError Bytes :=
  (LoginRequest.mk u p).encode >>= Frame.encode .loginRequest

namespace Manager

variable {m : Manager} {s t : State} {e : Event} {es : List Event} {i x g : CallId} {u p : String}
  {effects : List Effect} {trace : Trace} {seen : Nat} {phase phase' : CreatePhase}

/-! ### What has been done in each phase -/

/-- The `create` has tried to connect, with this outcome. -/
def Tried (m : Manager) (x : CallId) (trace : Trace) (d : DialResult) : Prop :=
  ∃ r effects, (.dial x r, effects) ∈ trace ∧ m.handshakeTerms.attempt r = d

/-- The ways for a `create` to end without ever having had a session, or having found one. -/
inductive Failed (m : Manager) (x : CallId) (u p : String) (trace : Trace) : Prop where
  | refused {e : ValidationError} {effects : List Effect} :
    (LoginRequest.mk u p).encode = .error e → (.proceed x, effects) ∈ trace →
    .noted (.handshakeFailed u (.validation e)) ∈ effects → trace.actions m x = [] →
    Failed m x u p trace
  | tried {payload : Bytes} {d : DialResult} : (LoginRequest.mk u p).encode = .ok payload →
    Tried m x trace d → Footprint d (trace.actions m x) → Failed m x u p trace

/-- What a `create` without a session has done. -/
def Trod (m : Manager) (x : CallId) (u p : String) (trace : Trace) : CreatePhase → Prop
  | .dialling _ _ payload =>
    (LoginRequest.mk u p).encode = .ok payload ∧ trace.actions m x = []
  | .sending _ _ frame => loginFrame u p = .ok frame ∧ Tried m x trace .opened ∧
    trace.actions m x = [.dialled .opened]
  | .awaiting .. => ∃ frame, loginFrame u p = .ok frame ∧ Tried m x trace .opened ∧
    trace.actions m x = [.dialled .opened, .wrote frame .done]
  | .leaving _ none | .returned none => Failed m x u p trace
  | .established .. | .undoing .. => False
  | .called | .queued .. | .admitted .. | .discarding .. | .ready .. | .leaving _ (some _)
  | .returned (some _) => trace.actions m x = []

section
variable {d : DialResult}

theorem Tried.concat (h : Tried m x trace d) (e : Event) (effects : List Effect) :
    Tried m x (trace ++ [(e, effects)]) d := by
  obtain ⟨r, dialled, hmem, hd⟩ := h
  exact ⟨r, dialled, List.mem_append_left _ hmem, hd⟩

theorem Failed.concat (h : Failed m x u p trace) (hnil : e.actions m x effects = []) :
    Failed m x u p (trace ++ [(e, effects)]) := by
  have hsame : Trace.actions m x (trace ++ [(e, effects)]) = trace.actions m x := by
    rw [Trace.actions_concat, hnil, List.append_nil]
  cases h with
  | refused hencode hmem hnoted hacts =>
    exact .refused hencode (List.mem_append_left _ hmem) hnoted (hsame.trans hacts)
  | tried hencode htried hfoot => exact .tried hencode (htried.concat e effects) (hsame ▸ hfoot)

theorem Trod.concat (h : Trod m x u p trace phase) (hnil : e.actions m x effects = []) :
    Trod m x u p (trace ++ [(e, effects)]) phase := by
  have hsame : Trace.actions m x (trace ++ [(e, effects)]) = trace.actions m x := by
    rw [Trace.actions_concat, hnil, List.append_nil]
  cases phase with
  | dialling => exact ⟨h.1, hsame.trans h.2⟩
  | sending => exact ⟨h.1, h.2.1.concat e effects, hsame.trans h.2.2⟩
  | awaiting =>
    obtain ⟨frame, hframe, htried, hacts⟩ := h
    exact ⟨frame, hframe, htried.concat e effects, hsame.trans hacts⟩
  | leaving g result | returned result =>
    cases result with
    | none => exact Failed.concat h hnil
    | some => exact hsame.trans h
  | established | undoing => exact h
  | called | queued | admitted | discarding | ready => exact hsame.trans h

end

theorem Trod.heard {g : CallId} {r r' : Receiver} (h : Trod m x u p trace (.awaiting g seen r))
    (hnil : e.actions m x effects = []) :
    Trod m x u p (trace ++ [(e, effects)]) (.awaiting g seen r') :=
  h.concat hnil

theorem refused_of_ready (hcu : Custody s) (h : m.step s e = some (t, effects))
    (hc : s.calls x = some (.create u p (.ready g seen)))
    (hc' : t.calls x = some (.create u p (.leaving g none))) :
    e = .proceed x ∧ ∃ err, (LoginRequest.mk u p).encode = .error err ∧
      .noted (.handshakeFailed u (.validation err)) ∈ effects := by
  obtain rfl : e = .proceed x := expects_of_changed hcu h hc hc' nofun
  simp only [step, proceed, hc, proceedCreate, prepare] at h
  split at h
  · next err hencode =>
    cases h
    exact ⟨rfl, err, hencode, List.mem_singleton_self _⟩
  · cases h
    simp [go] at hc'

/-- Beside the dial, the write and the read a `create` goes from phase to phase without doing
anything on its connection. -/
theorem Trod.step_nothing (hs : m.Reachable s) (he : m.step s e = some (t, effects))
    (hc : s.calls x = some (.create u p phase)) (hc' : t.calls x = some (.create u p phase'))
    (h : Trod m x u p trace phase) (hnil : e.actions m x effects = [])
    (hdial : ∀ r, e ≠ .dial x r) (hwrite : ∀ r, e ≠ .write x r) (hread : ∀ r, e ≠ .read x r) :
    Trod m x u p (trace ++ [(e, effects)]) phase' := by
  have hcu := hs.custody
  have h' : Trod m x u p (trace ++ [(e, effects)]) phase := h.concat hnil
  obtain ⟨b, hb, hm⟩ := (Shift.of_step he).create_on hc
  rw [hc'] at hb
  cases hb
  have network : phase ≠ phase' → phase.Expects x e := expects_of_changed hcu he hc hc'
  cases hm with
  | same => exact h'
  | reuse | queue | turn | meet | discard | clear | discardOn | discarded => exact h'
  | attempt ha =>
    cases ha with
    | prepared => exact ⟨prepared_of_ready hcu he hc hc', h'⟩
    | unprepared =>
      obtain ⟨rfl, err, hencode, hnoted⟩ := refused_of_ready hcu he hc hc'
      exact .refused hencode (List.mem_append_right _ (List.mem_singleton_self _)) hnoted h'
    | dialled | undialled =>
      obtain ⟨r, hr⟩ := network nofun
      exact absurd hr (hdial r)
    | written | unwritten =>
      obtain ⟨r, hr⟩ := network nofun
      exact absurd hr (hwrite r)
    | heard => exact h'
    | refused =>
      obtain ⟨r, hr⟩ := network nofun
      exact absurd hr (hread r)
  | establish =>
    obtain ⟨r, hr⟩ := network nofun
    exact absurd hr (hread r)
  | cancel | yield | insert | undoOn | undone => exact h.elim
  | @leave g result =>
    cases result with
    | none => exact h'
    | some => exact h'

/-- **A `create` has done what its phase tells**, as long as it has no session. -/
theorem Trod.step (hs : m.Reachable s) (he : m.step s e = some (t, effects))
    (hc : s.calls x = some (.create u p phase)) (hc' : t.calls x = some (.create u p phase'))
    (hnone : t.sessions x = none) (h : Trod m x u p trace phase) :
    Trod m x u p (trace ++ [(e, effects)]) phase' := by
  have hnone' := (Shift.of_step he).sessions_eq_none hnone
  have htries := Tries.of_step hnone' hc hc' he
  have hlast : (e, effects) ∈ trace ++ [(e, effects)] :=
    List.mem_append_right _ (List.mem_singleton_self _)
  have hall := Trace.actions_concat m x trace e effects
  generalize hacts : e.actions m x effects = acts at htries hall
  cases htries with
  | nothing hdial hwrite hread => exact h.step_nothing hs he hc hc' hacts hdial hwrite hread
  | @undialled _ _ _ _ r hfoot =>
    obtain ⟨hencode, hnil⟩ := h
    rw [hnil, List.nil_append] at hall
    exact .tried hencode ⟨r, effects, hlast, rfl⟩ (hall ▸ hfoot)
  | @dialled _ _ _ _ r hopened hframe =>
    obtain ⟨hencode, hnil⟩ := h
    rw [hnil, List.nil_append] at hall
    exact ⟨bind_eq_ok_iff.2 ⟨_, hencode, hframe⟩, ⟨r, effects, hlast, hopened⟩, hall⟩
  | unwritten =>
    obtain ⟨hlogin, htried, hdone⟩ := h
    obtain ⟨payload, hencode, hframe⟩ := bind_eq_ok_iff.1 hlogin
    rw [hdone] at hall
    exact .tried hencode (htried.concat _ effects) (hall ▸ Footprint.sent _ rfl hframe)
  | written =>
    obtain ⟨hlogin, htried, hdone⟩ := h
    rw [hdone] at hall
    exact ⟨_, hlogin, htried.concat _ effects, hall⟩
  | refused =>
    obtain ⟨frame, hlogin, htried, hdone⟩ := h
    obtain ⟨payload, hencode, hframe⟩ := bind_eq_ok_iff.1 hlogin
    rw [hdone] at hall
    exact .tried hencode (htried.concat _ effects) (hall ▸ Footprint.sent _ rfl hframe)
  | heard => exact h.heard hacts
  | accepted hsession =>
    rw [hnone] at hsession
    cases hsession

/-- What has been done on connection `x`. -/
structure Trodden (m : Manager) (x : CallId) (s : State) (trace : Trace) : Prop where
  idle : (∀ u p phase, s.calls x ≠ some (.create u p phase)) → trace.actions m x = []
  trod : ∀ {u p : String} {phase : CreatePhase}, s.calls x = some (.create u p phase) →
    s.sessions x = none → Trod m x u p trace phase
  session : ∀ {a : Session}, s.sessions x = some a → ∃ p phase frame,
    s.calls x = some (.create a.username p phase) ∧ loginFrame a.username p = .ok frame ∧
      a.HoldsWriter ∧ a.HasDone frame (trace.actions m x)

namespace Trodden

theorem start : Trodden m x {} [] where
  idle _ := rfl
  trod h := by cases h
  session h := by cases h

theorem step (hs : m.Reachable s) (h : Trodden m x s trace) (he : m.step s e = some (t, effects)) :
    Trodden m x t (trace ++ [(e, effects)]) where
  idle hidle := by
    have hcreate : ∀ u p phase, s.calls x ≠ some (.create u p phase) := by
      intro u p phase hc
      obtain ⟨phase', hc', -⟩ := (Shift.of_step he).create_on hc
      exact hidle u p phase' hc'
    have hnone : s.sessions x = none := by
      cases hsession : s.sessions x with
      | none => rfl
      | some a =>
        obtain ⟨p, phase, hc, -⟩ := hs.custody.made hsession
        exact absurd hc (hcreate _ p phase)
    rw [Trace.actions_concat, h.idle hcreate, actions_eq_nil_of_none hnone he]
    · rfl
    all_goals
      rintro r rfl
      simp only [Manager.step] at he
      split at he
      · rename_i hc
        exact hcreate _ _ _ hc
      · cases he
  trod {u p phase'} hc' hnone' := by
    have hnone := (Shift.of_step he).sessions_eq_none hnone'
    obtain ⟨rfl, hnew, rfl⟩ | ⟨phase, hc, -⟩ := (Shift.of_step he).create_move hc'
    · show Trace.actions m x (trace ++ [(.call x (.create u p), effects)]) = []
      have hidle := h.idle fun u p phase hc => by
        rw [hnew] at hc
        cases hc
      rw [Trace.actions_concat, hidle, actions_eq_nil he fun h => by cases h]
      rfl
    · exact (h.trod hc hnone).step hs he hc hc' hnone'
  session {b} hb := by
    obtain ⟨a, ha, -⟩ | ⟨u, p, g, seen, r, hc, hc', rfl⟩ := (Shift.of_step he).session_from hb
    · obtain ⟨p, phase, frame, hc, hlogin, hwriter, hdone⟩ := h.session ha
      obtain ⟨phase', hc', -⟩ := (Shift.of_step he).create_on hc
      obtain ⟨b', hb', hab⟩ := hs.custody.session_on (.of_step he) ha
      obtain ⟨b'', hb'', hturns⟩ := Turns.of_step hs.custody ha he
      rw [hb] at hb' hb''
      cases hb'
      cases hb''
      obtain ⟨hwriter', hdone'⟩ := hturns.hasDone hwriter hdone
      rw [← Trace.actions_concat] at hdone'
      exact ⟨p, phase', frame, hab.username ▸ hc', hab.username ▸ hlogin, hwriter', hdone'⟩
    · have hnone := hs.custody.sessions_eq_none hc rfl
      obtain ⟨frame, hlogin, -, hdone⟩ := h.trod hc hnone
      have htries := Tries.of_step hnone hc hc' he
      have hall := Trace.actions_concat m x trace e effects
      generalize e.actions m x effects = acts at htries hall
      cases htries with
      | nothing _ _ hread =>
        obtain ⟨read, hr⟩ : ∃ r, e = .read x r :=
          expects_of_changed hs.custody he hc hc' fun h => by cases h
        exact absurd hr (hread read)
      | accepted hsession hwriter =>
        rw [hb] at hsession
        cases hsession
        refine ⟨p, _, frame, hc', hlogin, fun _ => hwriter, [], ?_⟩
        rw [hall, hdone, hwriter]
        rfl

end Trodden

theorem trodden_of_run (x : CallId) (hr : m.run {} es = some (t, trace)) : Trodden m x t trace :=
  run_invariant .start (fun hs h he => h.step hs he) hr

/-! ### What a create leaves behind -/

theorem eq_of_own_action (h : m.step s e = some (t, effects)) (hi : e.call? = some i)
    {f : Effect} (hf : f ∈ effects) (hquiet : f.isQuiet = false) {y : CallId}
    (hy : f.action y ≠ []) : y = i := by
  have hconnection : s.connection? e = some y := by
    refine Decidable.byContradiction fun hne => hy ?_
    have hnil := (List.append_eq_nil_iff.1 (actions_eq_nil h hne)).2
    exact List.flatMap_eq_nil_iff.1 hnil f hf
  cases e with
  | call => cases hconnection
  | proceed j =>
    rw [quiet_of_proceed h f hf] at hquiet
    cases hquiet
  | dial | write | read =>
    cases hi
    cases hconnection
    rfl
  | keepAlive | tick | ping | inbound => cases hi

theorem step_of_mem (hr : m.run s es = some (t, trace)) (hmem : (e, effects) ∈ trace) :
    ∃ s' t', m.step s' e = some (t', effects) := by
  induction es generalizing s trace with
  | nil =>
    cases hr
    cases hmem
  | cons e' es ih =>
    obtain ⟨s', effects', rest, he, hes, rfl⟩ := run_cons hr
    obtain hhead | hmem := List.mem_cons.1 hmem
    · cases hhead
      exact ⟨s, s', he⟩
    · exact ih hes hmem

/-- Whatever a `create` without a session has done, a one-shot request does it too. -/
theorem Trod.footprint (h : Trod m x u p trace phase) :
    ∃ d rest, Footprint d (trace.actions m x ++ rest) := by
  have idle : trace.actions m x = [] → ∃ d rest, Footprint d (trace.actions m x ++ rest) := by
    intro hnil
    rw [hnil]
    exact ⟨.timedOut, _, .unopened nofun⟩
  have failed : Failed m x u p trace → ∃ d rest, Footprint d (trace.actions m x ++ rest) := by
    rintro (⟨-, -, -, hnil⟩ | @⟨-, d, -, -, hfoot⟩)
    · exact idle hnil
    · exact ⟨d, [], by rwa [List.append_nil]⟩
  cases phase with
  | dialling => exact idle h.2
  | sending =>
    obtain ⟨hlogin, -, hdone⟩ := h
    obtain ⟨payload, -, hframe⟩ := bind_eq_ok_iff.1 hlogin
    rw [hdone]
    exact ⟨.opened, _, .sent .done rfl hframe⟩
  | awaiting =>
    obtain ⟨frame, hlogin, -, hdone⟩ := h
    obtain ⟨payload, -, hframe⟩ := bind_eq_ok_iff.1 hlogin
    rw [hdone]
    exact ⟨.opened, _, .sent .done rfl hframe⟩
  | leaving g result | returned result =>
    cases result with
    | none => exact failed h
    | some => exact idle h
  | established | undoing => exact h.elim
  | called | queued | admitted | discarding | ready => exact idle h

theorem Trod.refused {err : ValidationError} (h : Trod m x u p trace phase)
    (hencode : (LoginRequest.mk u p).encode = .error err) :
    trace.actions m x = [] ∧ (phase = .returned none → ∃ effects, (.proceed x, effects) ∈ trace ∧
      .noted (.handshakeFailed u (.validation err)) ∈ effects) := by
  have hlogin : ∀ {frame}, loginFrame u p ≠ .ok frame := by
    intro frame hframe
    obtain ⟨payload, hpayload, -⟩ := bind_eq_ok_iff.1 hframe
    rw [hencode] at hpayload
    cases hpayload
  have failed : Failed m x u p trace → trace.actions m x = [] ∧ ∃ effects,
      (.proceed x, effects) ∈ trace ∧ .noted (.handshakeFailed u (.validation err)) ∈ effects := by
    rintro (⟨hencode', hmem, hnoted, hnil⟩ | ⟨hencode', -, -⟩)
    · rw [hencode] at hencode'
      cases hencode'
      exact ⟨hnil, _, hmem, hnoted⟩
    · rw [hencode] at hencode'
      cases hencode'
  cases phase with
  | dialling => exact ⟨h.2, nofun⟩
  | sending => exact absurd h.1 hlogin
  | awaiting =>
    obtain ⟨frame, hframe, -⟩ := h
    exact absurd hframe hlogin
  | leaving g result | returned result =>
    cases result with
    | none => exact (failed h).imp_right fun hnoted _ => hnoted
    | some => exact ⟨h, nofun⟩
  | established | undoing => exact h.elim
  | called | queued | admitted | discarding | ready => exact ⟨h, nofun⟩

/-- What a `create` has done on the network at the end of a run, and what has become of it. -/
structure LeavesFootprint (m : Manager) (i : CallId) (u p : String) (phase : CreatePhase)
    (es : List Event) (t : State) (trace : Trace) : Prop where
  /-- It opens no connection and writes on none but its own. -/
  own : ∀ e effects y, (e, effects) ∈ trace → e.call? = some i →
    (.opened y ∈ effects → y = i) ∧ ∀ frame r, .wrote y frame r ∈ effects → y = i
  /-- Until it has a session it does what a one-shot request does. -/
  once : t.sessions i = none → ∃ d rest, Footprint d (trace.actions m i ++ rest)
  /-- A session that it has found was live in the table, and nothing has been done. -/
  found : ∀ x, phase.result? = some x → x ≠ i → trace.actions m i = [] ∧
    ∃ before after s seen, es = before ++ after ∧ m.run {} before = some (s, seen) ∧
      s.liveSession? u = some x
  /-- A field that is too long makes it end with nothing done. -/
  refused : ∀ e, overlong (LoginRequest.mk u p).fields = some e →
    t.sessions i = none ∧ trace.actions m i = [] ∧
      (phase = .returned none → ∃ effects, (.proceed i, effects) ∈ trace ∧
        .noted (.handshakeFailed u (.validation e)) ∈ effects)
  /-- Without that, who ends with nothing has made one attempt to connect. -/
  attempted : overlong (LoginRequest.mk u p).fields = none → phase = .returned none →
    t.sessions i = none → ∃ r effects, (.dial i r, effects) ∈ trace ∧
      Footprint (m.handshakeTerms.attempt r) (trace.actions m i)
  /-- On the connection of its session its login has been sent and, behind that, pings. -/
  session : ∀ a, t.sessions i = some a →
    ∃ frame, loginFrame u p = .ok frame ∧ a.HasDone frame (trace.actions m i)
  /-- A connection that has not become the session that is given has been closed. -/
  closed : ∀ result, phase = .returned result → result ≠ some i →
    ∀ a, t.sessions i = some a → a.writer = false
  /-- What is given is a session. -/
  given : ∀ x, phase = .returned (some x) → ∃ a, t.sessions x = some a ∧ a.username = u
  /-- It can be brought to its return. -/
  returns : ∃ es' t' trace' result, (∀ j r, .call j r ∉ es') ∧ m.run t es' = some (t', trace') ∧
    t'.calls i = some (.create u p (.returned result))

theorem LeavesFootprint.of_run (hr : m.run {} es = some (t, trace))
    (hi : t.calls i = some (.create u p phase)) : LeavesFootprint m i u p phase es t trace := by
  have ht : m.Reachable t := .run .start hr
  have htrodden := trodden_of_run i hr
  have hfields := (LoginRequest.mk u p).encodesFields
  -- who has a session has sent its login
  have hsent : ∀ a, t.sessions i = some a →
      ∃ frame, loginFrame u p = .ok frame ∧ a.HasDone frame (trace.actions m i) := by
    intro a ha
    obtain ⟨q, phase', frame, hq, hlogin, -, hdone⟩ := htrodden.session ha
    rw [hi] at hq
    cases hq
    exact ⟨frame, hlogin, hdone⟩
  constructor
  case own =>
    intro e effects y hmem hcall
    obtain ⟨s', t', he⟩ := step_of_mem hr hmem
    refine ⟨fun hf => eq_of_own_action he hcall hf rfl ?_,
      fun frame r hf => eq_of_own_action he hcall hf rfl ?_⟩
    all_goals simp [Effect.action]
  case once => exact fun hnone => (htrodden.trod hi hnone).footprint
  case found =>
    intro x hx hne
    have hdone := htrodden.trod hi (ht.guest hi hx hne)
    cases phase with
    | undoing => exact hdone.elim
    | leaving | returned =>
      cases hx
      exact ⟨hdone, found_of_run hr hi rfl hne⟩
    | _ => cases hx
  case refused =>
    intro err hlong
    have hencode := hfields.refused err hlong
    have hnone : t.sessions i = none := by
      cases hsession : t.sessions i with
      | none => rfl
      | some a =>
        obtain ⟨frame, hlogin, -⟩ := hsent a hsession
        obtain ⟨payload, hpayload, -⟩ := bind_eq_ok_iff.1 hlogin
        rw [hencode] at hpayload
        cases hpayload
    exact ⟨hnone, (htrodden.trod hi hnone).refused hencode⟩
  case attempted =>
    rintro hshort rfl hnone
    obtain ⟨payload, hpayload⟩ := hfields.encoded hshort
    obtain ⟨hencode, -⟩ | ⟨-, ⟨r, effects, hmem, rfl⟩, hfoot⟩ :
      Failed m i u p trace := htrodden.trod hi hnone
    · rw [hencode] at hpayload
      cases hpayload
    · exact ⟨r, effects, hmem, hfoot⟩
  case session => exact hsent
  case closed =>
    rintro result rfl hresult a ha
    exact (shut_of_returned hr hi hresult ha).2.1
  case given =>
    rintro x rfl
    exact ht.bestowed hi rfl
  case returns => exact ht.can_return hi

end Manager

/-- **Whatever Core does, a request makes one attempt and leaves no connection behind.** A one-shot
request is refused before anything is done, for the first of its fields in wire order that is too
long or for a type without an answer; otherwise it makes one attempt to connect, and on a connection
that opens writes one frame at most and closes it. A `create` that finds a live session at a look at
the table gives that session and does nothing. Any other does what a one-shot login does, up to the
answer that gives it a session; and if it returns without that session the connection is closed. -/
theorem one_attempt_per_request :
    (∀ (c : Client) timeout type payload peer,
      OneShot (Client.unanswerable type) (Terms.attempt ⟨c.address, timeout⟩ peer.dial)
        (c.request timeout type payload peer)) ∧
    (∀ (c : Client) timeout (r : RegisterRequest) peer,
      OneShot ((overlong r.fields).map .validation) (Terms.attempt ⟨c.address, timeout⟩ peer.dial)
        (c.register timeout r peer)) ∧
    (∀ (c : Client) timeout (r : LoginRequest) peer,
      OneShot ((overlong r.fields).map .validation) (Terms.attempt ⟨c.address, timeout⟩ peer.dial)
        (c.login timeout r peer)) ∧
    (∀ (c : Client) timeout peer,
      OneShot none (Terms.attempt ⟨c.address, timeout⟩ peer.dial) (c.onlineList timeout peer)) ∧
    (∀ (g : Gateway) timeout (r : RegisterRequest) peer,
      OneShot ((overlong r.fields).map .validation)
        (Terms.attempt ⟨g.client.address, timeout⟩ peer.dial) (g.register timeout r peer).1) ∧
    (∀ (m : Manager) s i u p phase x, m.Reachable s → s.calls i = some (.create u p phase) →
      (phase = .called ∨ ∃ g seen, phase = .admitted g seen) → s.liveSession? u = some x →
      ∃ t, m.step s (.proceed i) = some (t, []) ∧ m.Gives t i u p (some x)) ∧
    ∀ (m : Manager) es t trace i u p phase, m.run {} es = some (t, trace) →
      t.calls i = some (.create u p phase) → m.LeavesFootprint i u p phase es t trace := by
  refine ⟨fun c timeout type payload peer => c.oneShot_request timeout type payload peer,
    fun c timeout r peer => ?_, fun c timeout r peer => ?_, fun c timeout peer => ?_,
    fun g timeout r peer => ?_, fun m s i u p phase x hs hi hlook hlive => ?_,
    fun m es t trace i u p phase hr hi => .of_run hr hi⟩
  · exact c.oneShot_ask timeout .registerRequest peer _ r.encodesFields rfl
  · exact c.oneShot_ask timeout .loginRequest peer _ r.encodesFields rfl
  · exact (c.oneShot_ask timeout .onlineListRequest peer _ (.nil []) rfl).andThen _
  · exact g.client.oneShot_ask timeout .registerRequest peer _ r.encodesFields rfl
  · exact hs.gives_found hi hlook hlive

/-- A login that Core never accepts a connection for. -/
theorem unanswered_dial_is_all : ∃ es t trace,
    Manager.run .loopback {} es = some (t, trace) ∧
    t.calls 0 = some (.create "u" "p" (.returned none)) ∧
    Footprint .timedOut (Manager.Trace.actions .loopback 0 trace) := by
  have hr : Manager.run .loopback {} [.call 0 (.create "u" "p"), .proceed 0,
      .proceed 0, .proceed 0, .proceed 0, .dial 0 .timedOut, .proceed 0] = some (_, _) := rfl
  obtain ⟨-, -, -, -, -, -, hcreate⟩ := one_attempt_per_request
  obtain ⟨r, effects, hmem, hfoot⟩ := (hcreate _ _ _ _ 0 "u" "p" _ hr rfl).attempted rfl rfl rfl
  obtain ⟨rfl, -⟩ : r = .timedOut ∧ effects = _ := by simpa using hmem
  exact ⟨_, _, _, hr, rfl, hfoot⟩

end Corelink
