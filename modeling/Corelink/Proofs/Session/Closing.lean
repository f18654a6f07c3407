import Corelink.Proofs.Session.Countdown
import Corelink.Proofs.Session.Ledger
import Corelink.Proofs.Session.Shutdown

/-!
# Closing a session inside a call

`create`, `remove` and `shutdown` close sessions by the same steps. `Closes` says what such a step
does to the state around it, whoever takes it, and `closingEvent_happens` that one of two things is
always next: a step of closing, or an event of the keep-alive that brings it nearer to its end.
-/

namespace Corelink

namespace Session

variable {a : Session}

theorem proceed_countdown_lt (hl : a.live = false) (hs : a.signalled = true)
    (hw : a.writer = false) (hk : a.keepAlive ≠ .writing) (he : a.keepAlive ≠ .ended) :
    ∃ b effects, a.proceed = some (b, effects) ∧
      b.keepAlive.countdown < a.keepAlive.countdown := by
  unfold proceed
  cases hka : a.keepAlive with
  | waiting => exact ⟨_, _, if_pos hs, Nat.lt_succ_self 0⟩
  | due =>
    rw [hl]
    exact ⟨_, _, rfl, Nat.lt_succ_self 0⟩
  | sending =>
    rw [hw]
    exact ⟨_, _, rfl, Nat.lt_succ_self 1⟩
  | failing => exact ⟨_, _, rfl, Nat.lt_succ_self 0⟩
  | writing => exact absurd hka hk
  | ended => exact absurd hka he

end Session

theorem Closing.openings_eq_nil {x : CallId} {a b : Session} {next : Closing}
    {next' : Option Closing} {effects : List Effect}
    (h : next.step x a = some ⟨b, next', effects⟩) : openings effects = [] := by
  cases does h <;> rfl

theorem Call.closeOn_self {i x : CallId} {c : Call} {next : Closing}
    (hx : c.closing? i = some (x, next)) : c.closeOn next = c := by
  rcases c with ⟨u, p, phase⟩ | ⟨u, phase⟩ | phase
  · cases phase <;> cases hx <;> rfl
  · cases phase <;> cases hx
    rfl
  · rcases phase with _ | ⟨total, _ | _, next⟩ | _ <;> cases hx
    rfl

namespace Manager

/-- The session whose event it is. -/
def Event.session? : Event → Option CallId
  | .keepAlive x | .tick x | .ping x _ | .inbound x _ => some x
  | .call .. | .proceed _ | .dial .. | .write .. | .read .. => none

variable {m : Manager} {peer : Peer} {s t : State} {e : Event} {i x : CallId} {c : Call}
  {next : Closing} {reads : List ReadResult} {effects : List Effect} {a b : Session}

theorem onSession_spec {f : Session → Session.Step} (h : onSession s x f = some (t, effects)) :
    ∃ a b, s.sessions x = some a ∧ f a = some (b, effects) ∧ t = s.setSession x b := by
  simp only [onSession, bind, pure, Option.bind_eq_some_iff] at h
  obtain ⟨a, ha, ⟨b, effects'⟩, hb, h⟩ := h
  cases h
  exact ⟨a, b, ha, hb, rfl⟩

theorem onSession_of_some {f : Session → Session.Step} (ha : s.sessions x = some a)
    (hf : f a = some (b, effects)) : onSession s x f = some (s.setSession x b, effects) := by
  simp [onSession, ha, hf]

/-! ### Steps of closing -/

/-- A step of closing session `x` inside call `i`, which comes nearer to its return. -/
structure Closes (s t : State) (i x : CallId) (c : Call) (effects : List Effect) : Prop where
  calls : ∃ c', t.calls = assign s.calls i (some c') ∧
    (c' = c.closed ∨ ∃ next, c' = c.closeOn next) ∧
    ∀ peer reads, t.toReturn peer reads i c' < s.toReturn peer reads i c
  table : t.table = s.table
  gates : t.gates = s.gates
  sessions : ∀ y, y ≠ x → t.sessions y = s.sessions y
  openings : openings effects = []

theorem step_of_closing (m : Manager) (hc : s.calls i = some c)
    (hx : c.closing? i = some (x, next)) :
    ∃ goOn done, m.step s (.proceed i) = close s x next goOn done ∧
      (∀ next' r, goOn next' r = r.setCall i (c.closeOn next')) ∧
      ∀ r, (done r).1 = r.setCall i c.closed ∧ openings (done r).2 = [] := by
  rcases c with ⟨u, p, phase⟩ | ⟨u, phase⟩ | phase
  · cases phase <;> cases hx <;> simp only [step, proceed, hc, proceedCreate] <;>
      exact ⟨_, _, rfl, fun _ _ => rfl, fun _ => ⟨rfl, rfl⟩⟩
  · cases phase <;> cases hx
    simp only [step, proceed, hc, proceedRemove]
    exact ⟨_, _, rfl, fun _ _ => rfl, fun _ => ⟨rfl, rfl⟩⟩
  · rcases phase with _ | ⟨total, _ | _, next⟩ | _ <;> cases hx
    simp only [step, proceed, hc, proceedShutdown]
    exact ⟨_, _, rfl, fun _ _ => rfl, fun _ => ⟨rfl, rfl⟩⟩

theorem Closes.of_step (hc : s.calls i = some c) (hx : c.closing? i = some (x, next))
    (h : m.step s (.proceed i) = some (t, effects)) : Closes s t i x c effects := by
  obtain ⟨goOn, done, hstep, hgoOn, hdone⟩ := step_of_closing m hc hx
  -- the call has closed the session, in the state `r`
  have closed : ∀ {r : State}, t = r.setCall i c.closed → r.calls = s.calls → r.table = s.table →
      r.gates = s.gates → (∀ y, y ≠ x → r.sessions y = s.sessions y) →
      Corelink.openings effects = [] → Closes s t i x c effects := by
    rintro r rfl hcalls htable hgates hsessions hopen
    refine ⟨⟨_, ?_, .inl rfl, fun _ _ => State.toReturn_closed hx⟩, htable, hgates, hsessions,
      hopen⟩
    rw [State.setCall_calls, hcalls]
  rw [hstep] at h
  unfold close at h
  split at h
  · obtain ⟨ht, ho⟩ := hdone s
    rw [Option.some.inj h] at ht ho
    exact closed ht rfl rfl rfl (fun _ _ => rfl) ho
  · rename_i a ha
    rw [Option.map_eq_some_iff] at h
    obtain ⟨⟨b, next', effects'⟩, hclosing, h⟩ := h
    have hopen := Closing.openings_eq_nil hclosing
    cases next' with
    | some next' =>
      cases h
      rw [hgoOn]
      refine ⟨⟨_, rfl, .inr ⟨next', rfl⟩, fun peer reads => State.toReturn_closeOn hx ?_⟩, rfl, rfl,
        fun y hy => assign_ne _ _ hy, hopen⟩
      obtain ⟨hlt, hk⟩ := Closing.countdown_lt hclosing
      simp only [State.toClose, State.setCall_sessions, State.setSession_sessions, assign_same, ha,
        hk, Option.map_some]
      omega
    | none =>
      obtain ⟨ht, ho⟩ := hdone (s.setSession x b)
      cases h
      refine closed ht rfl rfl rfl (fun y hy => assign_ne _ _ hy) ?_
      rw [openings_append, hopen, ho]
      rfl

/-- Closing a session that is not in the table does not show in the ledger. -/
theorem Closes.ledger (h : Closes s t i x c effects) (hx : ∀ v, s.table.get? v ≠ some x) :
    t.ledger = s.ledger :=
  State.ledger_of_not_listed h.table h.sessions hx

/-! ### Waiting for a keep-alive -/

/-- Who has told a keep-alive to stop has told it. -/
def Told (s : State) : Prop :=
  ∀ {i x : CallId} {c : Call} {next : Closing} {a : Session}, s.calls i = some c →
    c.closing? i = some (x, next) → next = .shut ∨ next = .join → s.sessions x = some a →
    a.signalled = true

theorem Told.shift (h : Told s) (hcu : Custody s) (hst : Shift s e t) : Told t := by
  intro i x d next b hi hx hnext hb
  refine hcu.closing_shift hst (P := fun next a => next = .shut ∨ next = .join → a.signalled = true)
    ?_ ?_ ?_ (fun hc hx ha hnext => h hc hx hnext ha) hi hx hb hnext
  · rintro a (h | h) <;> cases h
  · exact fun ha hab hnext => hab.signalled (ha hnext)
  · intro y next next' a b effects ha hstep hnext'
    cases next with
    | mark =>
      cases hstep
      obtain h | h := hnext' <;> cases h
    | signal =>
      cases hstep
      rfl
    | shut => exact (Session.Aged.of_closing hstep).signalled (ha (.inl rfl))
    | join => exact (Session.Aged.of_closing hstep).signalled (ha (.inr rfl))

theorem Reachable.told (h : m.Reachable s) : Told s := by
  induction h with
  | start => exact fun hi => by cases hi
  | step hs he ih => exact ih.shift hs.custody (.of_step he)

/-- The keep-alive of a session comes nearer to its end, if that is what holds up the next step of
closing the session. -/
theorem keepAliveEvent_happens (hs : m.Reachable s) (hc : s.calls i = some c)
    (hx : c.closing? i = some (x, next)) (ha : s.sessions x = some a)
    (hwait : next.step x a = none) :
    ∃ b effects, m.step s (keepAliveEvent s x) = some (s.setSession x b, effects) ∧
      b.keepAlive.countdown < a.keepAlive.countdown := by
  simp only [keepAliveEvent, ha]
  by_cases hk : a.keepAlive = .writing
  · rw [if_pos hk]
    have hping : a.ping m.pingTerms x .done =
        some ({ a with keepAlive := .waiting }, [.wrote x pingFrame .done]) := if_pos hk
    refine ⟨_, _, onSession_of_some ha hping, ?_⟩
    rw [hk]
    exact Nat.lt_succ_self 1
  · rw [if_neg hk]
    cases next with
    | mark | signal => cases hwait
    | shut =>
      simp only [Closing.step, if_neg hk] at hwait
      cases hwait
    | join =>
      have hended : a.keepAlive ≠ .ended := fun h => by
        simp only [Closing.step, if_pos h] at hwait
        cases hwait
      have hlive := hs.marked hc hx (by decide) ha
      have hsignalled := hs.told hc hx (.inr rfl) ha
      have hwriter := hs.custody.shut hc hx ha
      obtain ⟨b, effects, hb, hlt⟩ :=
        Session.proceed_countdown_lt hlive hsignalled hwriter hk hended
      exact ⟨b, effects, onSession_of_some ha hb, hlt⟩

theorem session?_keepAliveEvent (s : State) (x : CallId) :
    (keepAliveEvent s x).session? = some x := by
  unfold keepAliveEvent
  split
  · split <;> rfl
  · rfl

theorem readsAfter_keepAliveEvent (peer : Peer) (reads : List ReadResult) (s : State) (x : CallId) :
    readsAfter peer reads s (keepAliveEvent s x) = reads := by
  unfold keepAliveEvent
  split
  · split <;> rfl
  · rfl

theorem eq_proceed_of_closingEvent (h : closingEvent s i x next = e) (he : e.session? = none) :
    e = .proceed i := by
  subst h
  unfold closingEvent at he ⊢
  split
  · rename_i b hb
    simp only [hb] at he
    split
    · rfl
    · rename_i hstep
      rw [if_neg hstep, session?_keepAliveEvent] at he
      cases he
  · rfl

theorem nextEvent_of_closing (hc : s.calls i = some c) (hx : c.closing? i = some (x, next)) :
    nextEvent peer s reads i = some (closingEvent s i x next) := by
  unfold nextEvent
  rcases c with ⟨u, p, phase⟩ | ⟨u, phase⟩ | phase
  · cases phase <;> cases hx <;> rw [hc]
  · cases phase <;> cases hx
    rw [hc]
  · rcases phase with _ | ⟨total, _ | _, next⟩ | _ <;> cases hx
    rw [hc]

/-- **Closing is never stuck**: the call takes its next step of closing, or the keep-alive that it
waits for comes nearer to its end. -/
theorem closingEvent_happens (hs : m.Reachable s) (hc : s.calls i = some c)
    (hx : c.closing? i = some (x, next)) :
    closingEvent s i x next = .proceed i ∧ (m.step s (.proceed i)).isSome = true ∨
      ∃ b effects, closingEvent s i x next = keepAliveEvent s x ∧
        m.step s (keepAliveEvent s x) = some (s.setSession x b, effects) ∧
        ∀ peer reads, (s.setSession x b).toReturn peer reads i c < s.toReturn peer reads i c := by
  obtain ⟨goOn, done, hstep, -, -⟩ := step_of_closing m hc hx
  rw [hstep]
  unfold closingEvent close
  cases ha : s.sessions x with
  | none => exact .inl ⟨rfl, rfl⟩
  | some a =>
    simp only
    cases hb : next.step x a with
    | some p => exact .inl ⟨if_pos rfl, rfl⟩
    | none =>
      obtain ⟨b, effects, he, hlt⟩ := keepAliveEvent_happens hs hc hx ha hb
      refine .inr ⟨b, effects, if_neg Bool.false_ne_true, he, fun peer reads => ?_⟩
      have hclose : (s.setSession x b).toClose x next < s.toClose x next := by
        simp only [State.toClose, State.setSession_sessions, assign_same, ha, Option.map_some,
          Option.getD_some]
        omega
      have hreturn : (s.setSession x b).toReturn peer reads i (c.closeOn next) <
          s.toReturn peer reads i c := State.toReturn_closeOn hx hclose
      rwa [Call.closeOn_self hx] at hreturn

end Manager

end Corelink
