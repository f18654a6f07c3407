import Corelink.Proofs.Session.History

/-!
# What becomes of a session in one step

An event is one of a call or one of a session. A step of a call touches no other call, takes in no
frames, and changes a session only if the call is closing it (`Acts`). So a session stays as it is,
takes a step of being closed, or has an event of its own, and there are no other ways
(`Moves.of_step`).
-/

namespace Corelink

open Wire

/-- The frames that the keep-alive of `x` took in, if that is what was done. -/
def Effect.taken (x : CallId) : Effect → List Frame
  | .took y frames => if y = x then frames else []
  | _ => []

/-- The frames that the keep-alive of `x` took in. -/
def takings (x : CallId) (effects : List Effect) : List Frame :=
  effects.flatMap (Effect.taken x)

@[simp] theorem takings_nil (x : CallId) : takings x [] = [] := rfl

@[simp] theorem takings_cons (x : CallId) (e : Effect) (effects : List Effect) :
    takings x (e :: effects) = e.taken x ++ takings x effects := rfl

@[simp] theorem takings_append (x : CallId) (a b : List Effect) :
    takings x (a ++ b) = takings x a ++ takings x b :=
  List.flatMap_append

theorem Closing.takings_eq_nil {x y : CallId} {a b : Session} {next : Closing}
    {next' : Option Closing} {effects : List Effect}
    (h : next.step x a = some ⟨b, next', effects⟩) : takings y effects = [] := by
  cases does h <;> rfl

namespace Session

variable {a b : Session} {x y : CallId} {effects : List Effect}

theorem takings_of_proceed (h : a.proceed = some (b, effects)) : takings x effects = [] := by
  cases proceeds h <;> rfl

theorem takings_of_tick (h : a.tick = some (b, effects)) : takings x effects = [] := by
  cases ticks h
  rfl

theorem takings_of_ping {t : Terms} {r : WriteResult} (h : a.ping t y r = some (b, effects)) :
    takings x effects = [] := by
  cases pings h
  rfl

theorem takings_of_inbound {r : ReadResult} (h : a.inbound y r = some (b, effects)) (hy : y ≠ x) :
    takings x effects = [] := by
  cases hears h with
  | bytes _ _ first more =>
    obtain ⟨frames, htook⟩ := a.take_effects y (first :: more)
    rw [htook]
    simp [Effect.taken, hy]
  | closed | failed => rfl

end Session

namespace Manager

/-- The call whose event it is. -/
def Event.call? : Event → Option CallId
  | .call i _ | .proceed i | .dial i _ | .write i _ | .read i _ => some i
  | .keepAlive _ | .tick _ | .ping .. | .inbound .. => none

variable {m : Manager} {s t : State} {e : Event} {i x : CallId} {c : Call} {u p : String}
  {effects : List Effect} {a : Session}

/-! ### Steps of calls -/

/-- A step of call `i`, as other calls and all sessions see it. -/
structure Acts (s t : State) (i : CallId) (effects : List Effect) : Prop where
  calls : ∀ j, j ≠ i → t.calls j = s.calls j
  takings : ∀ x, takings x effects = []
  sessions : ∀ {x : CallId} {a : Session}, s.sessions x = some a → t.sessions x = some a ∨
    ∃ c next b next' done, s.calls i = some c ∧ c.closing? i = some (x, next) ∧
      next.step x a = some ⟨b, next', done⟩ ∧ t.sessions x = some b

namespace Acts

theorem of_setCall {r : State} {c' : Call} (hc : r.calls = s.calls) (hs : r.sessions = s.sessions)
    (he : ∀ x, Corelink.takings x effects = []) : Acts s (r.setCall i c') i effects where
  calls j hj := by rw [State.setCall_calls, assign_ne _ _ hj, hc]
  takings := he
  sessions ha := .inl (by rw [State.setCall_sessions, hs, ha])

theorem of_setSession {b : Session} {c' : Call} (hnone : s.sessions i = none) :
    Acts s ((s.setSession i b).setCall i c') i [] where
  calls j hj := by rw [State.setCall_calls, State.setSession_calls, assign_ne _ _ hj]
  takings _ := rfl
  sessions {x a} ha := by
    refine .inl ?_
    rw [State.setCall_sessions, State.setSession_sessions, assign_ne]
    · exact ha
    · rintro rfl
      rw [hnone] at ha
      cases ha

theorem of_close {y : CallId} {next : Closing} {goOn : Closing → State → State}
    {done : State → State × List Effect} (hc : s.calls i = some c)
    (hy : c.closing? i = some (y, next))
    (hgoOn : ∀ next' r, ∃ c', goOn next' r = r.setCall i c')
    (hdone : ∀ r, (∃ c', (done r).1 = r.setCall i c') ∧ ∀ x, Corelink.takings x (done r).2 = [])
    (h : close s y next goOn done = some (t, effects)) : Acts s t i effects := by
  unfold close at h
  split at h
  · obtain ⟨⟨c', hr⟩, htakings⟩ := hdone s
    rw [Option.some.inj h] at hr htakings
    obtain rfl : t = s.setCall i c' := hr
    exact of_setCall rfl rfl htakings
  · rename_i b hb
    rw [Option.map_eq_some_iff] at h
    obtain ⟨⟨b', next', effects'⟩, hstep, h⟩ := h
    -- whatever the call does next, its session is as the step of closing left it
    have acts : ∀ {c' : Call} {more : List Effect}, (∀ x, Corelink.takings x more = []) →
        Acts s ((s.setSession y b').setCall i c') i (effects' ++ more) := by
      intro c' more hmore
      refine ⟨fun j hj => ?_, fun x => ?_, fun {x a} ha => ?_⟩
      · rw [State.setCall_calls, State.setSession_calls, assign_ne _ _ hj]
      · rw [takings_append, Closing.takings_eq_nil hstep, hmore, List.nil_append]
      · rw [State.setCall_sessions, State.setSession_sessions, assign_apply]
        split
        · next e =>
          subst e
          rw [hb] at ha
          cases ha
          exact .inr ⟨c, next, b', next', effects', hc, hy, hstep, rfl⟩
        · exact .inl ha
    cases next' with
    | some next' =>
      cases h
      obtain ⟨c', hr⟩ := hgoOn next' (s.setSession y b')
      rw [hr, ← List.append_nil effects']
      exact acts fun _ => rfl
    | none =>
      obtain ⟨⟨c', hr⟩, htakings⟩ := hdone (s.setSession y b')
      cases h
      rw [hr]
      exact acts htakings

theorem of_proceedCreate {phase : CreatePhase} (hc : s.calls i = some (.create u p phase))
    (h : proceedCreate s i u p phase = some (t, effects)) : Acts s t i effects := by
  cases phase with
  | called =>
    simp only [proceedCreate, enter] at h
    split at h
    · cases h
      exact of_setCall rfl rfl fun _ => rfl
    · cases h
      obtain ⟨-, hsessions, hcalls, -⟩ := holdGate_spec (rfl : holdGate s i u = (_, _, _))
      exact of_setCall hcalls hsessions fun _ => rfl
  | queued g seen =>
    simp only [proceedCreate, takeTurn] at h
    split at h
    · cases h
    · cases h
      exact of_setCall rfl rfl fun _ => rfl
  | admitted g seen =>
    simp only [proceedCreate, reconcile] at h
    split at h
    · cases h
      exact of_setCall rfl rfl fun _ => rfl
    · split at h <;> cases h <;> exact of_setCall rfl rfl fun _ => rfl
  | discarding g seen y next =>
    simp only [proceedCreate] at h
    refine of_close hc rfl ?_ ?_ h
    · exact fun _ _ => ⟨_, rfl⟩
    · exact fun _ => ⟨⟨_, rfl⟩, fun _ => rfl⟩
  | ready g seen =>
    simp only [proceedCreate, prepare] at h
    split at h <;> cases h <;> exact of_setCall rfl rfl fun _ => rfl
  | established g seen =>
    simp only [proceedCreate, settle] at h
    split at h
    · cases h
      exact of_setCall rfl rfl fun _ => rfl
    · split at h <;> cases h <;> exact of_setCall rfl rfl fun _ => rfl
  | undoing g next result =>
    simp only [proceedCreate] at h
    refine of_close hc rfl ?_ ?_ h
    · exact fun _ _ => ⟨_, rfl⟩
    · exact fun _ => ⟨⟨_, rfl⟩, fun _ => rfl⟩
  | leaving g result =>
    cases h
    exact of_setCall (releaseGate_calls _ _ _) (releaseGate_sessions _ _ _) fun _ => rfl
  | dialling | sending | awaiting | returned => cases h

theorem of_proceedRemove {phase : RemovePhase} (hc : s.calls i = some (.remove u phase))
    (h : proceedRemove s i u phase = some (t, effects)) : Acts s t i effects := by
  cases phase with
  | called =>
    simp only [proceedRemove, Manager.takeOut] at h
    split at h <;> cases h <;>
      exact of_setCall (passGate_calls _ _) (passGate_sessions _ _) fun _ => rfl
  | found y remaining =>
    cases h
    exact of_setCall rfl rfl fun _ => rfl
  | closing y next wasLive remaining =>
    simp only [proceedRemove] at h
    refine of_close hc rfl ?_ ?_ h
    · exact fun _ _ => ⟨_, rfl⟩
    · exact fun _ => ⟨⟨_, rfl⟩, fun _ => rfl⟩
  | returned => cases h

theorem of_proceedShutdown {phase : ShutdownPhase} (hc : s.calls i = some (.shutdown phase))
    (h : proceedShutdown s i phase = some (t, effects)) : Acts s t i effects := by
  cases phase with
  | called =>
    cases h
    exact of_setCall rfl rfl fun _ => rfl
  | closing total ys next =>
    cases ys with
    | nil =>
      cases h
      exact of_setCall rfl rfl fun _ => rfl
    | cons y rest =>
      simp only [proceedShutdown] at h
      refine of_close hc rfl ?_ ?_ h
      · exact fun _ _ => ⟨_, rfl⟩
      · exact fun _ => ⟨⟨_, rfl⟩, fun _ => rfl⟩
  | returned => cases h

/-- **Every step of a call is of this kind.** -/
theorem of_step (hcu : Custody s) (he : e.call? = some i) (h : m.step s e = some (t, effects)) :
    Acts s t i effects := by
  cases e with
  | call j r =>
    cases he
    simp only [step] at h
    split at h
    · cases h
      exact of_setCall rfl rfl fun _ => rfl
    · cases h
  | proceed j =>
    cases he
    simp only [step, proceed] at h
    split at h
    · exact of_proceedCreate ‹_› h
    · exact of_proceedRemove ‹_› h
    · exact of_proceedShutdown ‹_› h
    · cases h
  | dial j r =>
    cases he
    simp only [step] at h
    split at h
    · simp only [dialled, giveUp] at h
      split at h
      · cases h
        exact of_setCall rfl rfl fun _ => rfl
      · split at h <;> cases h <;> exact of_setCall rfl rfl fun _ => rfl
    · cases h
  | write j r =>
    cases he
    simp only [step] at h
    split at h
    · simp only [written, giveUp] at h
      split at h <;> cases h <;> exact of_setCall rfl rfl fun _ => rfl
    · cases h
  | read j r =>
    cases he
    simp only [step] at h
    split at h
    · rename_i hc
      simp only [heard, answered, giveUp] at h
      split at h
      · cases h
        exact of_setCall rfl rfl fun _ => rfl
      · cases h
        exact of_setCall rfl rfl fun _ => rfl
      · split at h
        · cases h
          exact of_setCall rfl rfl fun _ => rfl
        · split at h
          · cases h
            exact of_setSession (hcu.sessions_eq_none hc rfl)
          · cases h
            exact of_setCall rfl rfl fun _ => rfl
    · cases h
  | keepAlive | tick | ping | inbound => cases he

end Acts

/-! ### Sessions -/

/-- The ways of a session in a step. -/
inductive Moves (m : Manager) (s : State) (x : CallId) (a : Session) :
    Event → List Effect → Session → Prop where
  | still {e : Event} {effects : List Effect} : e.session? ≠ some x → (∀ r, e ≠ .read x r) →
    takings x effects = [] → Moves m s x a e effects a
  | closing {e : Event} {i : CallId} {c : Call} {next : Closing} {b : Session}
      {next' : Option Closing} {done effects : List Effect} : e.session? ≠ some x →
    (∀ r, e ≠ .read x r) → takings x effects = [] → s.calls i = some c →
    c.closing? i = some (x, next) → next.step x a = some ⟨b, next', done⟩ →
    Moves m s x a e effects b
  | proceed {b : Session} {effects : List Effect} : a.proceed = some (b, effects) →
    Moves m s x a (.keepAlive x) effects b
  | tick {b : Session} {effects : List Effect} : a.tick = some (b, effects) →
    Moves m s x a (.tick x) effects b
  | ping {r : WriteResult} {b : Session} {effects : List Effect} :
    a.ping m.pingTerms x r = some (b, effects) → Moves m s x a (.ping x r) effects b
  | inbound {r : ReadResult} {b : Session} {effects : List Effect} :
    a.inbound x r = some (b, effects) → Moves m s x a (.inbound x r) effects b

theorem takings_of_session {y : CallId} (he : e.session? = some y) (hy : y ≠ x)
    (h : m.step s e = some (t, effects)) : takings x effects = [] := by
  cases e with
  | keepAlive z =>
    obtain ⟨_, _, -, hf, -⟩ := onSession_spec h
    exact Session.takings_of_proceed hf
  | tick z =>
    obtain ⟨_, _, -, hf, -⟩ := onSession_spec h
    exact Session.takings_of_tick hf
  | ping z r =>
    obtain ⟨_, _, -, hf, -⟩ := onSession_spec h
    exact Session.takings_of_ping hf
  | inbound z r =>
    cases he
    obtain ⟨_, _, -, hf, -⟩ := onSession_spec h
    exact Session.takings_of_inbound hf hy
  | call | proceed | dial | write | read => cases he

theorem Event.exists_call (he : e.session? = none) : ∃ i, e.call? = some i := by
  cases e with
  | call | proceed | dial | write | read => exact ⟨_, rfl⟩
  | keepAlive | tick | ping | inbound => cases he

theorem Moves.of_own (he : e.session? = some x) (h : m.step s e = some (t, effects))
    (ha : s.sessions x = some a) :
    ∃ b, t = s.setSession x b ∧ Moves m s x a e effects b := by
  -- the session that the event finds is this one
  have own : ∀ {f : Session → Session.Step}, onSession s x f = some (t, effects) →
      ∃ b, f a = some (b, effects) ∧ t = s.setSession x b := by
    intro f hf
    obtain ⟨a', b, ha', hb, ht⟩ := onSession_spec hf
    rw [ha] at ha'
    cases ha'
    exact ⟨b, hb, ht⟩
  cases e with
  | keepAlive z =>
    cases he
    obtain ⟨b, hb, ht⟩ := own h
    exact ⟨b, ht, .proceed hb⟩
  | tick z =>
    cases he
    obtain ⟨b, hb, ht⟩ := own h
    exact ⟨b, ht, .tick hb⟩
  | ping z r =>
    cases he
    obtain ⟨b, hb, ht⟩ := own h
    exact ⟨b, ht, .ping hb⟩
  | inbound z r =>
    cases he
    obtain ⟨b, hb, ht⟩ := own h
    exact ⟨b, ht, .inbound hb⟩
  | call | proceed | dial | write | read => cases he

theorem not_read_of_session (hcu : Custody s) (ha : s.sessions x = some a)
    (h : m.step s e = some (t, effects)) (r : ReadResult) : e ≠ .read x r := by
  rintro rfl
  simp only [step] at h
  split at h
  · rename_i hc
    rw [hcu.sessions_eq_none hc rfl] at ha
    cases ha
  · cases h

/-- **There are no other ways.** -/
theorem Moves.of_step (hcu : Custody s) (h : m.step s e = some (t, effects))
    (ha : s.sessions x = some a) : ∃ b, t.sessions x = some b ∧ Moves m s x a e effects b := by
  have hread := not_read_of_session hcu ha h
  cases he : e.session? with
  | some y =>
    by_cases hy : y = x
    · subst hy
      obtain ⟨b, rfl, hb⟩ := Moves.of_own he h ha
      exact ⟨b, assign_same _ _ _, hb⟩
    · obtain ⟨_, _, -, rfl, -⟩ := session_event he h
      refine ⟨a, ?_, .still ?_ hread (takings_of_session he hy h)⟩
      · rw [State.setSession_sessions, assign_ne _ _ (Ne.symm hy), ha]
      · rw [he]
        exact fun hyx => hy (Option.some.inj hyx)
  | none =>
    obtain ⟨i, hi⟩ := Event.exists_call he
    have hacts := Acts.of_step hcu hi h
    have hne : e.session? ≠ some x := by
      rw [he]
      exact nofun
    obtain hsame | ⟨c, next, b, next', done, hc, hx, hstep, hb⟩ := hacts.sessions ha
    · exact ⟨a, hsame, .still hne hread (hacts.takings x)⟩
    · exact ⟨b, hb, .closing hne hread (hacts.takings x) hc hx hstep⟩

end Manager

end Corelink
