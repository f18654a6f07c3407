import Corelink.Proofs.Session.Closing
import Corelink.Proofs.Session.Handshake

/-!
# Histories

Calls that do not overlap, each with its connection treated as a `Peer` says, and between and
beside them the events of sessions: that is a history (`History`). What is noticed of it is a list
of entries, a call standing where it had its first look at the table, and a session where its
keep-alive reports that it has given up (`session_event`).
-/

namespace Corelink

open Wire

/-- Whether a keep-alive has reported that it gave up. -/
def Effect.isStop : Effect → Bool
  | .noted (.keepAliveStopped ..) => true
  | _ => false

namespace Manager

/-- The session that has failed in an event of `x` with these effects. -/
def failures (x : CallId) (effects : List Effect) : List CallId :=
  if effects.any Effect.isStop then [x] else []

/-- From one state to another with events of sessions only, in which `failed` have failed. -/
inductive Rests (m : Manager) : State → List CallId → State → Prop where
  | done {s : State} : Rests m s [] s
  | event {s s' t : State} {e : Event} {x : CallId} {effects : List Effect}
      {failed : List CallId} :
    e.session? = some x → m.step s e = some (s', effects) → Rests m s' failed t →
    Rests m s (failures x effects ++ failed) t

/-- Call `i` goes on until it has returned, with these reads to come on its connection; events of
sessions may come between its own. `failed` have failed meanwhile, and `opened` been opened. -/
inductive Lasts (m : Manager) (peer : Peer) (i : CallId) :
    State → List ReadResult → List CallId → List CallId → State → Prop where
  | returned {s : State} {reads : List ReadResult} {c : Call} :
    s.calls i = some c → c.hasReturned = true → Lasts m peer i s reads [] [] s
  | event {s s' t : State} {reads : List ReadResult} {e : Event} {x : CallId}
      {effects : List Effect} {failed opened : List CallId} :
    e.session? = some x → m.step s e = some (s', effects) →
    Lasts m peer i s' reads failed opened t →
    Lasts m peer i s reads (failures x effects ++ failed) opened t
  | own {s s' t : State} {reads : List ReadResult} {e : Event} {effects : List Effect}
      {failed opened : List CallId} :
    nextEvent peer s reads i = some e → e.session? = none → m.step s e = some (s', effects) →
    Lasts m peer i s' (readsAfter peer reads s e) failed opened t →
    Lasts m peer i s reads failed (openings effects ++ opened) t

/-- What is noticed from the empty table on, when no call is made before the last has returned. -/
inductive History (m : Manager) : List Ledger.Entry → State → Prop where
  | start : History m [] {}
  | rest {h : List Ledger.Entry} {s t : State} {failed : List CallId} :
    History m h s → Rests m s failed t → History m (h ++ failed.map .failure) t
  | call {h : List Ledger.Entry} {i : CallId} {r : Request} {peer : Peer} {s s₀ s₁ s₂ t : State}
      {effects₀ effects : List Effect} {before meanwhile opened : List CallId} :
    History m h s → m.step s (.call i r) = some (s₀, effects₀) → Rests m s₀ before s₁ →
    m.step s₁ (.proceed i) = some (s₂, effects) → Lasts m peer i s₂ [] meanwhile opened t →
    History m (h ++ before.map .failure ++
      .call i r peer (t.result? i) (openings effects ++ opened) :: meanwhile.map .failure) t

/-! ### Events of sessions -/

variable {m : Manager} {s t : State} {e : Event} {i x : CallId} {effects : List Effect}
  {a b : Session}

/-- A session fails when its keep-alive reports that it has given up, and in no other way. -/
structure Reports (a b : Session) (effects : List Effect) : Prop where
  live : b.live = (a.live && !effects.any Effect.isStop)
  openings : openings effects = []

theorem Reports.of_live (h : b.live = a.live) (he : effects.any Effect.isStop = false)
    (ho : Corelink.openings effects = []) : Reports a b effects where
  live := by rw [h, he, Bool.not_false, Bool.and_true]
  openings := ho

theorem Reports.of_proceed (h : a.proceed = some (b, effects)) : Reports a b effects := by
  cases Session.proceeds h with
  | stopped => exact ⟨by simp [Effect.isStop], rfl⟩
  | cancelled | foundLive | foundDead | writes | overtaken => exact .of_live rfl rfl rfl

theorem Reports.of_tick (h : a.tick = some (b, effects)) : Reports a b effects := by
  cases Session.ticks h
  exact .of_live rfl rfl rfl

theorem Reports.of_ping {terms : Terms} {r : WriteResult}
    (h : a.ping terms x r = some (b, effects)) : Reports a b effects := by
  cases Session.pings h
  exact .of_live rfl rfl rfl

theorem Reports.of_inbound {r : ReadResult} (h : a.inbound x r = some (b, effects)) :
    Reports a b effects := by
  cases Session.hears h <;> exact .of_live rfl rfl rfl

theorem session_event (he : e.session? = some x) (h : m.step s e = some (t, effects)) :
    ∃ a b, s.sessions x = some a ∧ t = s.setSession x b ∧ Reports a b effects := by
  cases e with
  | keepAlive y =>
    cases he
    obtain ⟨a, b, ha, hf, ht⟩ := onSession_spec h
    exact ⟨a, b, ha, ht, .of_proceed hf⟩
  | tick y =>
    cases he
    obtain ⟨a, b, ha, hf, ht⟩ := onSession_spec h
    exact ⟨a, b, ha, ht, .of_tick hf⟩
  | ping y r =>
    cases he
    obtain ⟨a, b, ha, hf, ht⟩ := onSession_spec h
    exact ⟨a, b, ha, ht, .of_ping hf⟩
  | inbound y r =>
    cases he
    obtain ⟨a, b, ha, hf, ht⟩ := onSession_spec h
    exact ⟨a, b, ha, ht, .of_inbound hf⟩
  | call | proceed | dial | write | read => cases he

theorem Reports.isLive (h : Reports a b effects) (ha : s.sessions x = some a) (y : CallId) :
    (s.setSession x b).isLive y =
      if y = x then s.isLive x && !effects.any Effect.isStop else s.isLive y := by
  simp only [State.isLive, State.setSession_sessions, assign_apply]
  split
  · rw [ha, Option.any_some, Option.any_some, h.live]
  · rfl

theorem Reports.ledger (h : Reports a b effects) (ha : s.sessions x = some a) :
    (s.setSession x b).ledger = s.ledger.failAll (failures x effects) := by
  funext v
  simp only [State.ledger, State.setSession_table, h.isLive ha]
  cases hv : s.table.get? v with
  | none =>
    unfold failures
    split <;> simp [Ledger.fail, State.ledger, hv]
  | some y =>
    unfold failures
    split <;> rename_i hstop
    · by_cases hy : y = x <;> simp [Ledger.fail, State.ledger, hv, hy, hstop]
    · by_cases hy : y = x <;> simp [State.ledger, hv, hy, hstop]

end Manager

end Corelink
