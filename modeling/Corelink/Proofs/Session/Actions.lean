import Corelink.Proofs.Connection.Footprint
import Corelink.Proofs.Session.Hands
import Corelink.Proofs.Session.Origin

/-!
# What is done on a connection

All that is done on a connection is read off the run (`Trace.actions`). An event does something on
one connection at most (`actions_eq_nil`): as long as there is no session, it is a step of the
`create` that opens the connection (`Tries`), and behind that a ping or the close with which the
write half goes (`Turns`).
-/

namespace Corelink

open Wire

/-- What is done on connection `x`, if it is that. -/
def Effect.action (x : CallId) : Effect → List Action
  | .opened y => if y = x then [.dialled .opened] else []
  | .wrote y frame r => if y = x then [.wrote frame r] else []
  | .closed y => if y = x then [.closed] else []
  | .took .. | .noted _ => []

/-- What is done on connection `x`. -/
def actionsOn (x : CallId) (effects : List Effect) : List Action :=
  effects.flatMap (Effect.action x)

@[simp] theorem actionsOn_nil (x : CallId) : actionsOn x [] = [] := rfl

@[simp] theorem actionsOn_cons (x : CallId) (f : Effect) (effects : List Effect) :
    actionsOn x (f :: effects) = f.action x ++ actionsOn x effects := rfl

@[simp] theorem actionsOn_append (x : CallId) (effects more : List Effect) :
    actionsOn x (effects ++ more) = actionsOn x effects ++ actionsOn x more :=
  List.flatMap_append

theorem actionsOn_of_notes {effects : List Effect} (h : ∀ f ∈ effects, f.isNote = true)
    (x : CallId) : actionsOn x effects = [] := by
  refine List.flatMap_eq_nil_iff.2 fun f hf => ?_
  have hnote := h f hf
  cases f with
  | noted => rfl
  | _ => cases hnote

theorem Closing.actionsOn_of_ne {x y : CallId} {a b : Session} {next : Closing}
    {next' : Option Closing} {effects : List Effect}
    (h : next.step y a = some ⟨b, next', effects⟩) (hy : y ≠ x) : actionsOn x effects = [] := by
  cases does h with
  | shut | shutFails => simp [Effect.action, hy]
  | mark | signal | gone | join => rfl

/-- Who writes a ping has the write half. -/
def Session.HoldsWriter (a : Session) : Prop :=
  a.keepAlive = .writing → a.writer = true

/-- What has been done on the connection of a session: it was opened and the login sent, then came
pings, and if the write half is gone a close. -/
def Session.HasDone (a : Session) (login : Bytes) (acts : List Action) : Prop :=
  ∃ pings : List WriteResult, acts = .dialled .opened :: .wrote login .done ::
    (pings.map (Action.wrote pingFrame) ++ if a.writer then [] else [.closed])

namespace Manager

variable {m : Manager} {s t : State} {e : Event} {i x : CallId} {u p : String}
  {effects : List Effect} {trace : Trace} {a b : Session} {phase phase' : CreatePhase}

/-! ### Actions -/

/-- The attempt to connect that has failed. -/
def Event.failedDial (m : Manager) (x : CallId) : Event → List Action
  | .dial y r =>
    if y = x ∧ m.handshakeTerms.attempt r ≠ .opened then [.dialled (m.handshakeTerms.attempt r)]
    else []
  | _ => []

/-- What an event with these effects does on connection `x`. -/
def Event.actions (m : Manager) (x : CallId) (e : Event) (effects : List Effect) : List Action :=
  e.failedDial m x ++ actionsOn x effects

/-- All that is done on connection `x`. -/
def Trace.actions (m : Manager) (x : CallId) (trace : Trace) : List Action :=
  trace.flatMap fun e => e.1.actions m x e.2

@[simp] theorem Trace.actions_concat (m : Manager) (x : CallId) (trace : Trace) (e : Event)
    (effects : List Effect) :
    Trace.actions m x (trace ++ [(e, effects)]) = trace.actions m x ++ e.actions m x effects := by
  simp [actions]

/-- The connection on which an event may do something. -/
def State.connection? (s : State) : Event → Option CallId
  | .dial x _ | .write x _ | .read x _ => some x
  | .keepAlive x | .tick x | .ping x _ | .inbound x _ => some x
  | .proceed i => ((s.calls i).bind (Call.closing? i)).map Prod.fst
  | .call .. => none

theorem State.connection?_proceed :
    s.connection? (.proceed i) = some x ↔
      ∃ c next, s.calls i = some c ∧ c.closing? i = some (x, next) := by
  simp only [connection?, Option.map_eq_some_iff, Option.bind_eq_some_iff, Prod.exists,
    exists_and_right, exists_eq_right]
  exact ⟨fun ⟨next, c, h⟩ => ⟨c, next, h⟩, fun ⟨c, next, h⟩ => ⟨next, c, h⟩⟩

/-- **An event does nothing on any other connection.** -/
theorem actions_eq_nil (h : m.step s e = some (t, effects)) (hx : s.connection? e ≠ some x) :
    e.actions m x effects = [] := by
  have hne : ∀ {y : CallId}, s.connection? e = some y → y ≠ x := by
    rintro y hy rfl
    exact hx hy
  cases e with
  | call i r =>
    simp only [step] at h
    split at h <;> cases h
    rfl
  | proceed i =>
    show actionsOn x effects = []
    cases Tells.of_proceed h with
    | notes _ hnotes => exact actionsOn_of_notes hnotes x
    | @closing c y next a pr notes hc hy ha hstep hnotes =>
      have hyx : y ≠ x := hne (State.connection?_proceed.2 ⟨c, next, hc, hy⟩)
      rw [actionsOn_append, Closing.actionsOn_of_ne hstep hyx, actionsOn_of_notes hnotes x]
      rfl
  | dial i r =>
    have hix : i ≠ x := hne rfl
    simp only [step] at h
    split at h
    · simp only [dialled, giveUp] at h
      split at h
      · cases h
        simp [Event.actions, Event.failedDial, Effect.action, hix]
      · split at h <;> cases h <;>
          simp [Event.actions, Event.failedDial, Effect.action, hix]
    · cases h
  | write i r =>
    have hix : i ≠ x := hne rfl
    simp only [step] at h
    split at h
    · simp only [written, giveUp] at h
      split at h <;> cases h <;> simp [Event.actions, Event.failedDial, Effect.action, hix]
    · cases h
  | read i r =>
    have hix : i ≠ x := hne rfl
    simp only [step] at h
    split at h
    · simp only [heard, answered, giveUp] at h
      split at h
      · cases h
        rfl
      · cases h
        simp [Event.actions, Event.failedDial, Effect.action, hix]
      · split at h
        · cases h
          simp [Event.actions, Event.failedDial, Effect.action, hix]
        · split at h <;> cases h <;>
            simp [Event.actions, Event.failedDial, Effect.action, hix]
    · cases h
  | keepAlive y =>
    obtain ⟨_, _, -, hf, -⟩ := onSession_spec h
    exact actionsOn_of_notes (Session.notes_of_proceed hf) x
  | tick y =>
    obtain ⟨_, _, -, hf, -⟩ := onSession_spec h
    cases Session.ticks hf
    rfl
  | ping y r =>
    have hyx : y ≠ x := hne rfl
    obtain ⟨_, _, -, hf, -⟩ := onSession_spec h
    cases Session.pings hf
    simp [Event.actions, Event.failedDial, Effect.action, hyx]
  | inbound y r =>
    obtain ⟨a, _, -, hf, -⟩ := onSession_spec h
    cases Session.hears hf with
    | bytes _ _ first more =>
      obtain ⟨frames, htook⟩ := a.take_effects y (first :: more)
      rw [htook]
      rfl
    | closed | failed => rfl

/-! ### Before there is a session -/

theorem Shift.sessions_eq_none (hst : Shift s e t) (hnone : t.sessions x = none) :
    s.sessions x = none := by
  cases hsession : s.sessions x with
  | none => rfl
  | some a =>
    obtain ⟨b, hb⟩ := hst.session_kept hsession
    rw [hnone] at hb
    cases hb

/-- What the manager does on connection `x` beside its sessions are the attempts of call `x`. -/
theorem actions_eq_nil_of_none (hnone : s.sessions x = none) (h : m.step s e = some (t, effects))
    (hdial : ∀ r, e ≠ .dial x r) (hwrite : ∀ r, e ≠ .write x r) (hread : ∀ r, e ≠ .read x r) :
    e.actions m x effects = [] := by
  by_cases hx : s.connection? e = some x
  · cases e with
    | call => cases hx
    | proceed i =>
      show actionsOn x effects = []
      cases Tells.of_proceed h with
      | notes _ hnotes => exact actionsOn_of_notes hnotes x
      | closing hc hy ha =>
        obtain ⟨c', next', hc', hx'⟩ := State.connection?_proceed.1 hx
        rw [hc] at hc'
        cases hc'
        rw [hy] at hx'
        cases hx'
        rw [hnone] at ha
        cases ha
    | dial y r =>
      cases hx
      exact absurd rfl (hdial r)
    | write y r =>
      cases hx
      exact absurd rfl (hwrite r)
    | read y r =>
      cases hx
      exact absurd rfl (hread r)
    | keepAlive | tick | ping | inbound =>
      cases hx
      obtain ⟨a, -, ha, -⟩ := session_event rfl h
      rw [hnone] at ha
      cases ha
  · exact actions_eq_nil h hx

/-- The ways of `create` `x` from one phase to the next while it has no session, and what is done on
its connection. -/
inductive Tries (m : Manager) (t : State) (x : CallId) :
    CreatePhase → Event → List Action → CreatePhase → Prop where
  | nothing {a b : CreatePhase} {e : Event} : (∀ r, e ≠ .dial x r) → (∀ r, e ≠ .write x r) →
    (∀ r, e ≠ .read x r) → Tries m t x a e [] b
  | undialled {g : CallId} {seen : Nat} {payload : Bytes} {acts : List Action} {r : DialResult} :
    Footprint (m.handshakeTerms.attempt r) acts →
    Tries m t x (.dialling g seen payload) (.dial x r) acts (.leaving g none)
  | dialled {g : CallId} {seen : Nat} {payload frame : Bytes} {r : DialResult} :
    m.handshakeTerms.attempt r = .opened → Frame.encode .loginRequest payload = .ok frame →
    Tries m t x (.dialling g seen payload) (.dial x r) [.dialled .opened] (.sending g seen frame)
  | unwritten {g : CallId} {seen : Nat} {frame : Bytes} {r : WriteResult} :
    Tries m t x (.sending g seen frame) (.write x r) [.wrote frame r, .closed] (.leaving g none)
  | written {g : CallId} {seen : Nat} {frame : Bytes} :
    Tries m t x (.sending g seen frame) (.write x .done) [.wrote frame .done]
      (.awaiting g seen {})
  | refused {g : CallId} {seen : Nat} {r : Receiver} {read : ReadResult} :
    Tries m t x (.awaiting g seen r) (.read x read) [.closed] (.leaving g none)
  | heard {g : CallId} {seen : Nat} {r r' : Receiver} {read : ReadResult} :
    Tries m t x (.awaiting g seen r) (.read x read) [] (.awaiting g seen r')
  | accepted {g : CallId} {seen : Nat} {r : Receiver} {read : ReadResult} {a : Session} :
    t.sessions x = some a → a.writer = true →
    Tries m t x (.awaiting g seen r) (.read x read) [] (.established g seen)

namespace Tries

theorem phase_eq (hc' : (go s x u p phase).calls x = some (.create u p phase')) :
    phase = phase' := by
  rw [go, State.setCall_calls, assign_same] at hc'
  cases hc'
  rfl

theorem of_dial {r : DialResult} (hc : s.calls x = some (.create u p phase))
    (hc' : t.calls x = some (.create u p phase'))
    (h : m.step s (.dial x r) = some (t, effects)) :
    Tries m t x phase (.dial x r) ((Event.dial x r).actions m x effects) phase' := by
  simp only [step, hc] at h
  cases phase with
  | dialling g seen payload =>
    simp only [Manager.dialled, giveUp] at h
    cases hd : m.handshakeTerms.attempt r with
    | opened =>
      simp only [hd, Terms.dialled] at h
      split at h
      · cases h
        obtain rfl := phase_eq hc'
        refine .undialled ?_
        rw [hd]
        simpa [Event.actions, Event.failedDial, Effect.action, hd] using Footprint.unsent rfl
      · next frame hframe =>
        cases h
        obtain rfl := phase_eq hc'
        simpa [Event.actions, Event.failedDial, Effect.action, hd] using Tries.dialled hd hframe
    | failed | timedOut =>
      simp only [hd, Terms.dialled] at h
      cases h
      obtain rfl := phase_eq hc'
      have hne : m.handshakeTerms.attempt r ≠ .opened := by
        rw [hd]
        exact fun h => by cases h
      have hfoot := Footprint.unopened hne
      exact .undialled (by
        simpa [Event.actions, Event.failedDial, Effect.action, hne] using hfoot)
  | _ => cases h

theorem of_write {r : WriteResult} (hc : s.calls x = some (.create u p phase))
    (hc' : t.calls x = some (.create u p phase'))
    (h : m.step s (.write x r) = some (t, effects)) :
    Tries m t x phase (.write x r) ((Event.write x r).actions m x effects) phase' := by
  simp only [step, hc] at h
  cases phase with
  | sending g seen frame =>
    cases r with
    | done =>
      cases h
      obtain rfl := phase_eq hc'
      simpa [Event.actions, Event.failedDial, Effect.action] using Tries.written
    | failed | timedOut =>
      simp only [Manager.written, Terms.written, giveUp] at h
      cases h
      obtain rfl := phase_eq hc'
      simpa [Event.actions, Event.failedDial, Effect.action] using Tries.unwritten
  | _ => cases h

theorem of_read {r : ReadResult} (hc : s.calls x = some (.create u p phase))
    (hc' : t.calls x = some (.create u p phase'))
    (h : m.step s (.read x r) = some (t, effects)) :
    Tries m t x phase (.read x r) ((Event.read x r).actions m x effects) phase' := by
  simp only [step, hc] at h
  cases phase with
  | awaiting g seen receiver =>
    simp only [Manager.heard, answered, giveUp] at h
    have refused : phase' = .leaving g none → actionsOn x effects = [.closed] →
        Tries m t x (.awaiting g seen receiver) (.read x r)
          ((Event.read x r).actions m x effects) phase' := by
      rintro rfl hacts
      show Tries m t x _ _ (actionsOn x effects) _
      rw [hacts]
      exact .refused
    split at h
    · cases h
      obtain rfl := phase_eq hc'
      exact .heard
    · cases h
      exact refused (phase_eq hc').symm (by simp [Effect.action])
    · split at h
      · cases h
        exact refused (phase_eq hc').symm (by simp [Effect.action])
      · split at h
        · cases h
          obtain rfl := phase_eq hc'
          exact .accepted (assign_same _ _ _) rfl
        · cases h
          exact refused (phase_eq hc').symm (by simp [Effect.action])
  | _ => cases h

/-- **There are no other ways.** -/
theorem of_step (hnone : s.sessions x = none) (hc : s.calls x = some (.create u p phase))
    (hc' : t.calls x = some (.create u p phase')) (h : m.step s e = some (t, effects)) :
    Tries m t x phase e (e.actions m x effects) phase' := by
  by_cases hdial : ∃ r, e = .dial x r
  · obtain ⟨r, rfl⟩ := hdial
    exact of_dial hc hc' h
  by_cases hwrite : ∃ r, e = .write x r
  · obtain ⟨r, rfl⟩ := hwrite
    exact of_write hc hc' h
  by_cases hread : ∃ r, e = .read x r
  · obtain ⟨r, rfl⟩ := hread
    exact of_read hc hc' h
  have hdial' := not_exists.1 hdial
  have hwrite' := not_exists.1 hwrite
  have hread' := not_exists.1 hread
  rw [actions_eq_nil_of_none hnone h hdial' hwrite' hread']
  exact .nothing hdial' hwrite' hread'

end Tries

/-! ### Behind that -/

/-- What becomes of a session in a step that does this on its connection. -/
inductive Turns (a b : Session) : List Action → Prop where
  | nothing : b.writer = a.writer →
    (b.keepAlive = .writing → a.keepAlive = .writing ∨ a.writer = true) → Turns a b []
  | ping {r : WriteResult} : a.keepAlive = .writing → b.writer = a.writer →
    b.keepAlive ≠ .writing → Turns a b [.wrote pingFrame r]
  | shut : a.writer = true → b.writer = false → b.keepAlive ≠ .writing → Turns a b [.closed]

namespace Turns

theorem of_closing {next : Closing} {next' : Option Closing} {done : List Effect}
    (h : next.step x a = some ⟨b, next', done⟩) : Turns a b (actionsOn x done) := by
  cases Closing.does h with
  | shut hk hw | shutFails hk hw =>
    simp only [if_true, actionsOn_cons, Effect.action, actionsOn_nil, List.append_nil]
    exact .shut hw rfl hk
  | gone _ hw => exact .nothing hw.symm .inl
  | mark | signal | join => exact .nothing rfl .inl

theorem of_proceed (h : a.proceed = some (b, effects)) : Turns a b (actionsOn x effects) := by
  rw [actionsOn_of_notes (Session.notes_of_proceed h)]
  refine .nothing (Session.Kept.of_proceed h).writer fun hb => ?_
  cases Session.proceeds h with
  | writes _ hw => exact .inr hw
  | cancelled | foundLive | foundDead | overtaken | stopped => cases hb

theorem of_tick (h : a.tick = some (b, effects)) : Turns a b (actionsOn x effects) := by
  cases Session.ticks h
  exact .nothing rfl nofun

theorem of_ping {terms : Terms} {r : WriteResult} (h : a.ping terms x r = some (b, effects)) :
    Turns a b (actionsOn x effects) := by
  cases Session.pings h with
  | wrote hk hnext =>
    simp only [actionsOn_cons, Effect.action, actionsOn_nil, List.append_nil, if_true]
    refine .ping hk rfl ?_
    obtain ⟨-, rfl⟩ | ⟨-, _, rfl⟩ := hnext <;> exact nofun

theorem of_inbound {r : ReadResult} (h : a.inbound x r = some (b, effects)) :
    Turns a b (actionsOn x effects) := by
  cases Session.hears h with
  | bytes _ _ first more =>
    obtain ⟨frames, htook⟩ := a.take_effects x (first :: more)
    rw [htook]
    refine .nothing rfl fun hb => ?_
    obtain hnext | ⟨_, hnext⟩ := a.take_keepAlive x (first :: more) <;> cases hnext.symm.trans hb
  | closed | failed => exact .nothing rfl nofun

end Turns

/-- **What is done on the connection of a session are pings, and a close with which the write half
goes.** -/
theorem Turns.of_step (hcu : Custody s) (ha : s.sessions x = some a)
    (h : m.step s e = some (t, effects)) :
    ∃ b, t.sessions x = some b ∧ Turns a b (e.actions m x effects) := by
  by_cases hx : s.connection? e = some x
  · have own : e.session? = some x → ∃ b, t.sessions x = some b ∧
        Turns a b (e.actions m x effects) := by
      intro hsession
      obtain ⟨b, rfl, hm⟩ := Moves.of_own hsession h ha
      refine ⟨b, assign_same _ _ _, ?_⟩
      cases hm with
      | still hne => exact absurd hsession hne
      | closing hne => exact absurd hsession hne
      | proceed hp => exact .of_proceed hp
      | tick ht => exact .of_tick ht
      | ping hp => exact .of_ping hp
      | inbound hi => exact .of_inbound hi
    cases e with
    | call => cases hx
    | proceed i =>
      obtain ⟨c, next, hc, hy⟩ := State.connection?_proceed.1 hx
      obtain ⟨b, next', done, hstep, hb, -⟩ := closing_spec hc hy ha h
      refine ⟨b, hb, ?_⟩
      show Turns a b (actionsOn x effects)
      cases Tells.of_proceed h with
      | notes hnone =>
        rw [hnone c x next hc hy] at ha
        cases ha
      | closing hc' hy' ha' hstep' hnotes =>
        rw [hc] at hc'
        cases hc'
        rw [hy] at hy'
        cases hy'
        rw [ha] at ha'
        cases ha'
        rw [hstep] at hstep'
        cases hstep'
        rw [actionsOn_append, actionsOn_of_notes hnotes, List.append_nil]
        exact .of_closing hstep
    | dial | write | read =>
      cases hx
      simp only [step] at h
      split at h
      · rename_i hc
        rw [hcu.sessions_eq_none hc rfl] at ha
        cases ha
      · cases h
    | keepAlive | tick | ping | inbound => exact own hx
  · rw [actions_eq_nil h hx]
    refine ⟨a, session_stays hcu ha h (fun hsession => hx ?_) ?_, .nothing rfl .inl⟩
    · cases e <;> cases hsession <;> rfl
    · rintro i c next hc hy rfl
      exact hx (State.connection?_proceed.2 ⟨c, next, hc, hy⟩)

theorem Turns.hasDone {login : Bytes} {acts more : List Action} (h : Turns a b more)
    (hw : a.HoldsWriter) (ha : a.HasDone login acts) :
    b.HoldsWriter ∧ b.HasDone login (acts ++ more) := by
  obtain ⟨pings, rfl⟩ := ha
  cases h with
  | nothing hsame hwriting =>
    refine ⟨fun hb => ?_, pings, by rw [List.append_nil, hsame]⟩
    rw [hsame]
    exact (hwriting hb).elim hw id
  | @ping r hk hsame hb =>
    refine ⟨fun hb' => absurd hb' hb, pings ++ [r], ?_⟩
    simp [hsame, hw hk]
  | shut ha hwriter hb =>
    refine ⟨fun hb' => absurd hb' hb, pings, ?_⟩
    simp [ha, hwriter]

end Manager

end Corelink
