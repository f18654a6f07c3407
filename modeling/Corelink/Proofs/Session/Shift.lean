import Corelink.Proofs.Session.KeepAlive

/-!
# What one event does to the manager

`Shift s e t` lists the ways an event can lead from `s` to `t`, one constructor for each
place of the program that touches the shared state; `Shift.of_step` says that there is no
other way. Closing a session is the same four steps in whoever's hands it is, so it is
described once, by what a call is closing (`Call.closing?`) and how it goes on.
-/

namespace Corelink

open Wire

/-! ### Keep-alives and closing -/

/-- What no step takes back: who a session belongs to stays, and what has ended is over. -/
structure Session.Aged (a b : Session) : Prop where
  username : b.username = a.username
  token : b.token = a.token
  userId : b.userId = a.userId
  live : b.live = true → a.live = true
  writer : b.writer = true → a.writer = true
  signalled : a.signalled = true → b.signalled = true

/-- What the steps of a keep-alive leave alone. -/
structure Session.Kept (a b : Session) : Prop where
  username : b.username = a.username
  token : b.token = a.token
  userId : b.userId = a.userId
  writer : b.writer = a.writer
  signalled : b.signalled = a.signalled
  live : b.live = true → a.live = true

namespace Session

variable {a b : Session} {effects : List Effect}

theorem Aged.refl (a : Session) : a.Aged a :=
  ⟨rfl, rfl, rfl, id, id, id⟩

theorem Kept.aged (h : a.Kept b) : a.Aged b where
  username := h.username
  token := h.token
  userId := h.userId
  live := h.live
  writer hw := h.writer ▸ hw
  signalled hs := h.signalled.symm ▸ hs

theorem Aged.of_closing {x : CallId} {next : Closing} {next' : Option Closing}
    (h : next.step x a = some ⟨b, next', effects⟩) : a.Aged b := by
  cases Closing.does h with
  | mark => exact { Aged.refl a with live := fun hl => by cases hl }
  | signal => exact { Aged.refl a with signalled := fun _ => rfl }
  | shut | shutFails | gone => exact { Aged.refl a with writer := fun hw => by cases hw }
  | join => exact .refl a

theorem Kept.of_proceed (h : a.proceed = some (b, effects)) : a.Kept b := by
  cases proceeds h with
  | stopped => exact ⟨rfl, rfl, rfl, rfl, rfl, fun hl => by cases hl⟩
  | cancelled | foundLive | foundDead | writes | overtaken => exact ⟨rfl, rfl, rfl, rfl, rfl, id⟩

theorem Kept.of_tick (h : a.tick = some (b, effects)) : a.Kept b := by
  cases ticks h
  exact ⟨rfl, rfl, rfl, rfl, rfl, id⟩

theorem Kept.of_ping {t : Terms} {i : CallId} {r : WriteResult}
    (h : a.ping t i r = some (b, effects)) : a.Kept b := by
  cases pings h
  exact ⟨rfl, rfl, rfl, rfl, rfl, id⟩

theorem Kept.of_inbound {i : CallId} {r : ReadResult} (h : a.inbound i r = some (b, effects)) :
    a.Kept b := by
  cases hears h <;> exact ⟨rfl, rfl, rfl, rfl, rfl, id⟩

end Session

namespace Call

/-- What the call was asked to do. -/
def request : Call → Request
  | create u p _ => .create u p
  | remove u _ => .remove u
  | shutdown _ => .shutdown

/-- The session that call `i` is closing, and the next step of closing it. -/
def closing? (i : CallId) : Call → Option (CallId × Closing)
  | create _ _ (.discarding _ _ x next) => some (x, next)
  | create _ _ (.undoing _ next _) => some (i, next)
  | remove _ (.closing x next _ _) => some (x, next)
  | shutdown (.closing _ (x :: _) next) => some (x, next)
  | _ => none

/-- The call with another step of closing before it. -/
def closeOn (next : Closing) : Call → Call
  | create u p (.discarding g seen x _) => create u p (.discarding g seen x next)
  | create u p (.undoing g _ result) => create u p (.undoing g next result)
  | remove u (.closing x _ wasLive remaining) => remove u (.closing x next wasLive remaining)
  | shutdown (.closing total xs _) => shutdown (.closing total xs next)
  | c => c

/-- The call with its session closed. -/
def closed : Call → Call
  | create u p (.discarding g seen _ _) => create u p (.ready g seen)
  | create u p (.undoing g _ result) => create u p (.leaving g result)
  | remove u (.closing ..) => remove u .returned
  | shutdown (.closing total (_ :: xs) _) => shutdown (.closing total xs .mark)
  | c => c

theorem create_of_request {c : Call} {u p : String} (h : c.request = .create u p) :
    ∃ a, c = .create u p a := by
  cases c with
  | create =>
    cases h
    exact ⟨_, rfl⟩
  | remove | shutdown => cases h

@[simp] theorem request_start (r : Request) : r.start.request = r := by
  cases r <;> rfl

@[simp] theorem request_closeOn (next : Closing) (c : Call) :
    (c.closeOn next).request = c.request := by
  rcases c with ⟨u, p, phase⟩ | ⟨u, phase⟩ | phase <;> cases phase <;> rfl

@[simp] theorem request_closed (c : Call) : c.closed.request = c.request := by
  rcases c with ⟨u, p, phase⟩ | ⟨u, phase⟩ | phase
  · cases phase <;> rfl
  · cases phase <;> rfl
  · rcases phase with _ | ⟨total, _ | _, next⟩ | _ <;> rfl

end Call

/-- The steps of a login attempt, from the encoding of the login to the last read that does
not bring an accepted answer. -/
inductive CreatePhase.Attempt : CreatePhase → CreatePhase → Prop where
  | prepared {g : CallId} {seen : Nat} {payload : Bytes} :
    Attempt (.ready g seen) (.dialling g seen payload)
  | dialled {g : CallId} {seen : Nat} {payload frame : Bytes} :
    Attempt (.dialling g seen payload) (.sending g seen frame)
  | written {g : CallId} {seen : Nat} {frame : Bytes} :
    Attempt (.sending g seen frame) (.awaiting g seen {})
  | heard {g : CallId} {seen : Nat} {r r' : Receiver} :
    Attempt (.awaiting g seen r) (.awaiting g seen r')
  | unprepared {g : CallId} {seen : Nat} : Attempt (.ready g seen) (.leaving g none)
  | undialled {g : CallId} {seen : Nat} {payload : Bytes} :
    Attempt (.dialling g seen payload) (.leaving g none)
  | unwritten {g : CallId} {seen : Nat} {frame : Bytes} :
    Attempt (.sending g seen frame) (.leaving g none)
  | refused {g : CallId} {seen : Nat} {r : Receiver} : Attempt (.awaiting g seen r) (.leaving g none)

namespace Manager

/-! ### Shifts -/

/-- The ways from a state to the next one. -/
inductive Shift (s : State) : Event → State → Prop where
  | call {i : CallId} {r : Request} : s.calls i = none → Shift s (.call i r) (s.setCall i r.start)
  | keepAlive {e : Event} {x : CallId} {a b : Session} :
    s.sessions x = some a → a.Kept b → Shift s e (s.setSession x b)
  | closeOn {e : Event} {i x : CallId} {c : Call} {a b : Session} {next next' : Closing}
      {effects : List Effect} :
    s.calls i = some c → c.closing? i = some (x, next) → s.sessions x = some a →
    next.step x a = some ⟨b, some next', effects⟩ →
    Shift s e ((s.setSession x b).setCall i (c.closeOn next'))
  | closed {e : Event} {i x : CallId} {c : Call} {a b : Session} {next : Closing}
      {effects : List Effect} :
    s.calls i = some c → c.closing? i = some (x, next) → s.sessions x = some a →
    next.step x a = some ⟨b, none, effects⟩ →
    Shift s e ((s.setSession x b).setCall i c.closed)
  /-- There is no session to close. -/
  | unmade {e : Event} {i x : CallId} {c : Call} {next : Closing} :
    s.calls i = some c → c.closing? i = some (x, next) → s.sessions x = none →
    Shift s e (s.setCall i c.closed)
  | reuse {e : Event} {i x : CallId} {u p : String} :
    s.calls i = some (.create u p .called) → s.liveSession? u = some x →
    Shift s e (s.setCall i (.create u p (.returned (some x))))
  | queue {e : Event} {i g : CallId} {u p : String} {seen : Nat} {t : State} :
    s.calls i = some (.create u p .called) → s.liveSession? u = none →
    holdGate s i u = (g, seen, t) → Shift s e (t.setCall i (.create u p (.queued g seen)))
  | turn {e : Event} {i g : CallId} {u p : String} {seen : Nat} :
    s.calls i = some (.create u p (.queued g seen)) → (s.gates g).owner = none →
    Shift s e ((s.setGate g { s.gates g with owner := some i }).setCall i
      (.create u p (.admitted g seen)))
  | meet {e : Event} {i g x : CallId} {u p : String} {seen : Nat} :
    s.calls i = some (.create u p (.admitted g seen)) → s.liveSession? u = some x →
    Shift s e (s.setCall i (.create u p (.leaving g (some x))))
  | clear {e : Event} {i g : CallId} {u p : String} {seen : Nat} :
    s.calls i = some (.create u p (.admitted g seen)) → s.liveSession? u = none →
    Shift s e ({ s with table := s.table.erase u }.setCall i (.create u p
      (match s.table.get? u with
        | some x => .discarding g seen x .mark
        | none => .ready g seen)))
  | attempt {e : Event} {i : CallId} {u p : String} {a b : CreatePhase} :
    s.calls i = some (.create u p a) → a.Attempt b → Shift s e (s.setCall i (.create u p b))
  | establish {m : Manager} {e : Event} {i g : CallId} {u p : String} {seen : Nat}
      {r r' : Receiver} {login : LoginResponse} :
    s.calls i = some (.create u p (.awaiting g seen r)) →
    Shift s e ((s.setSession i (newSession i u m login r')).setCall i
      (.create u p (.established g seen)))
  | cancel {e : Event} {i g : CallId} {u p : String} {seen : Nat} :
    s.calls i = some (.create u p (.established g seen)) → (s.gates g).removals ≠ seen →
    Shift s e (s.setCall i (.create u p (.undoing g .mark none)))
  | yield {e : Event} {i g x : CallId} {u p : String} {seen : Nat} :
    s.calls i = some (.create u p (.established g seen)) → s.liveSession? u = some x →
    Shift s e (s.setCall i (.create u p (.undoing g .mark (some x))))
  | insert {e : Event} {i g : CallId} {u p : String} {seen : Nat} :
    s.calls i = some (.create u p (.established g seen)) → (s.gates g).removals = seen →
    s.liveSession? u = none →
    Shift s e ({ s with table := s.table.insert u i }.setCall i
      (.create u p (.leaving g (some i))))
  | leave {e : Event} {i g : CallId} {u p : String} {result : Option CallId} :
    s.calls i = some (.create u p (.leaving g result)) →
    Shift s e ((releaseGate s u g).setCall i (.create u p (.returned result)))
  | takeOut {e : Event} {i : CallId} {u : String} :
    s.calls i = some (.remove u .called) →
    Shift s e ({ passGate s u with table := s.table.erase u }.setCall i (.remove u
      (match s.table.get? u with
        | some x => .found x (s.table.erase u).size
        | none => .returned)))
  | startClosing {e : Event} {i x : CallId} {u : String} {remaining : Nat} :
    s.calls i = some (.remove u (.found x remaining)) →
    Shift s e (s.setCall i (.remove u (.closing x .mark (s.isLive x) remaining)))
  | drain {e : Event} {i : CallId} :
    s.calls i = some (.shutdown .called) →
    Shift s e ({ s with table := .empty }.setCall i
      (.shutdown (.closing s.table.entries.length (s.table.entries.map Prod.snd) .mark)))
  | finish {e : Event} {i : CallId} {total : Nat} {next : Closing} :
    s.calls i = some (.shutdown (.closing total [] next)) →
    Shift s e (s.setCall i (.shutdown .returned))

variable {s t : State} {effects : List Effect}

@[simp] theorem passGate_table (s : State) (u : String) : (passGate s u).table = s.table := by
  unfold passGate
  split <;> rfl

@[simp] theorem passGate_logins (s : State) (u : String) : (passGate s u).logins = s.logins := by
  unfold passGate
  split <;> rfl

@[simp] theorem passGate_sessions (s : State) (u : String) :
    (passGate s u).sessions = s.sessions := by
  unfold passGate
  split <;> rfl

@[simp] theorem passGate_calls (s : State) (u : String) : (passGate s u).calls = s.calls := by
  unfold passGate
  split <;> rfl

@[simp] theorem releaseGate_table (s : State) (u : String) (g : CallId) :
    (releaseGate s u g).table = s.table := by
  simp only [releaseGate]
  split <;> rfl

@[simp] theorem releaseGate_sessions (s : State) (u : String) (g : CallId) :
    (releaseGate s u g).sessions = s.sessions := by
  simp only [releaseGate]
  split <;> rfl

@[simp] theorem releaseGate_calls (s : State) (u : String) (g : CallId) :
    (releaseGate s u g).calls = s.calls := by
  simp only [releaseGate]
  split <;> rfl

theorem holdGate_spec {r : State} {i g : CallId} {u : String} {seen : Nat}
    (h : holdGate s i u = (g, seen, r)) :
    r.table = s.table ∧ r.sessions = s.sessions ∧ r.calls = s.calls ∧
      seen = (r.gates g).removals := by
  unfold holdGate at h
  split at h
  · cases h
    exact ⟨rfl, rfl, rfl, by rw [State.setGate_gates, assign_same]⟩
  · cases h
    exact ⟨rfl, rfl, rfl, by rw [State.setGate_gates, assign_same]⟩

/-- Closing inside a call, whatever the call says about how it goes on. -/
theorem Shift.of_close {e : Event} {i x : CallId} {c : Call} {next : Closing}
    {goOn : Closing → State → State} {done : State → State × List Effect}
    (hc : s.calls i = some c) (hx : c.closing? i = some (x, next))
    (hgoOn : ∀ next' s, goOn next' s = s.setCall i (c.closeOn next'))
    (hdone : ∀ s, (done s).1 = s.setCall i c.closed)
    (h : close s x next goOn done = some (t, effects)) : Shift s e t := by
  unfold close at h
  split at h
  · rename_i hs
    have ht : t = s.setCall i c.closed := by
      rw [← hdone s, Option.some.inj h]
    rw [ht]
    exact .unmade hc hx hs
  · rename_i a hs
    rw [Option.map_eq_some_iff] at h
    obtain ⟨⟨b, next', effects'⟩, hb, h⟩ := h
    cases next' with
    | some next' =>
      cases h
      rw [hgoOn]
      exact .closeOn hc hx hs hb
    | none =>
      have ht : t = (s.setSession x b).setCall i c.closed := by
        rw [← hdone (s.setSession x b)]
        exact congrArg Prod.fst h.symm
      rw [ht]
      exact .closed hc hx hs hb

theorem Shift.of_proceedCreate {e : Event} {i : CallId} {u p : String} {phase : CreatePhase}
    (hc : s.calls i = some (.create u p phase))
    (h : proceedCreate s i u p phase = some (t, effects)) : Shift s e t := by
  cases phase with
  | called =>
    simp only [proceedCreate, enter] at h
    split at h
    · cases h
      exact .reuse hc ‹_›
    · cases h
      exact .queue hc ‹_› rfl
  | queued g seen =>
    simp only [proceedCreate, takeTurn] at h
    split at h
    · cases h
    · cases h
      exact .turn hc ‹_›
  | admitted g seen =>
    simp only [proceedCreate, reconcile] at h
    split at h
    · cases h
      exact .meet hc ‹_›
    · have hs : Shift s e (go { s with table := s.table.erase u } i u p _) := .clear hc ‹_›
      split at h <;> rename_i hx <;> cases h <;> simpa only [hx] using hs
  | discarding g seen x next =>
    simp only [proceedCreate] at h
    refine .of_close hc rfl ?_ ?_ h
    · exact fun _ _ => rfl
    · exact fun _ => rfl
  | ready g seen =>
    simp only [proceedCreate, prepare] at h
    split at h
    · cases h
      exact .attempt hc .unprepared
    · cases h
      exact .attempt hc .prepared
  | established g seen =>
    simp only [proceedCreate, settle] at h
    split at h
    · cases h
      exact .cancel hc ‹_›
    · rename_i hr
      split at h
      · cases h
        exact .yield hc ‹_›
      · cases h
        exact .insert hc (Decidable.not_not.1 hr) ‹_›
  | undoing g next result =>
    simp only [proceedCreate] at h
    refine .of_close hc rfl ?_ ?_ h
    · exact fun _ _ => rfl
    · exact fun _ => rfl
  | leaving g result =>
    cases h
    exact .leave hc
  | dialling | sending | awaiting | returned => cases h

theorem Shift.of_proceedRemove {e : Event} {i : CallId} {u : String} {phase : RemovePhase}
    (hc : s.calls i = some (.remove u phase))
    (h : proceedRemove s i u phase = some (t, effects)) : Shift s e t := by
  cases phase with
  | called =>
    have hs := Shift.takeOut (e := e) hc
    simp only [proceedRemove, Manager.takeOut, passGate_table] at h
    split at h <;> rename_i hx <;> cases h <;> simpa only [hx] using hs
  | found x remaining =>
    cases h
    exact .startClosing hc
  | closing x next wasLive remaining =>
    simp only [proceedRemove] at h
    refine .of_close hc rfl ?_ ?_ h
    · exact fun _ _ => rfl
    · exact fun _ => rfl
  | returned => cases h

theorem Shift.of_proceedShutdown {e : Event} {i : CallId} {phase : ShutdownPhase}
    (hc : s.calls i = some (.shutdown phase))
    (h : proceedShutdown s i phase = some (t, effects)) : Shift s e t := by
  cases phase with
  | called =>
    simp only [proceedShutdown, List.length_map] at h
    cases h
    exact .drain hc
  | closing total xs next =>
    cases xs with
    | nil =>
      cases h
      exact .finish hc
    | cons x rest =>
      simp only [proceedShutdown] at h
      refine .of_close hc rfl ?_ ?_ h
      · exact fun _ _ => rfl
      · exact fun _ => rfl
  | returned => cases h

theorem Shift.of_onSession {e : Event} {x : CallId} {f : Session → Session.Step}
    (hf : ∀ {a b effects}, f a = some (b, effects) → a.Kept b)
    (h : onSession s x f = some (t, effects)) : Shift s e t := by
  simp only [onSession, bind, pure, Option.bind_eq_some_iff] at h
  obtain ⟨a, ha, ⟨b, effects'⟩, hb, h⟩ := h
  cases h
  exact .keepAlive ha (hf hb)

/-- **There are no other ways.** -/
theorem Shift.of_step {m : Manager} {e : Event} (h : m.step s e = some (t, effects)) :
    Shift s e t := by
  cases e with
  | call i r =>
    simp only [step] at h
    split at h
    · cases h
      exact .call ‹_›
    · cases h
  | proceed i =>
    simp only [step, proceed] at h
    split at h
    · exact .of_proceedCreate ‹_› h
    · exact .of_proceedRemove ‹_› h
    · exact .of_proceedShutdown ‹_› h
    · cases h
  | dial i r =>
    simp only [step] at h
    split at h
    · rename_i hc
      simp only [dialled, giveUp] at h
      split at h
      · cases h
        exact .attempt hc .undialled
      · split at h
        · cases h
          exact .attempt hc .undialled
        · cases h
          exact .attempt hc .dialled
    · cases h
  | write i r =>
    simp only [step] at h
    split at h
    · rename_i hc
      simp only [written, giveUp] at h
      split at h
      · cases h
        exact .attempt hc .unwritten
      · cases h
        exact .attempt hc .written
    · cases h
  | read i r =>
    simp only [step] at h
    split at h
    · rename_i hc
      simp only [heard, answered, giveUp] at h
      split at h
      · cases h
        exact .attempt hc .heard
      · cases h
        exact .attempt hc .refused
      · split at h
        · cases h
          exact .attempt hc .refused
        · split at h
          · cases h
            exact .establish hc
          · cases h
            exact .attempt hc .refused
    · cases h
  | keepAlive x => exact .of_onSession .of_proceed h
  | tick x => exact .of_onSession .of_tick h
  | ping x r => exact .of_onSession .of_ping h
  | inbound x r => exact .of_onSession .of_inbound h

/-- What every shift keeps is kept by a run. -/
theorem Reachable.keeps {m : Manager} {P : State → Prop} {es : List Event}
    {trace : List (Event × List Effect)} (hs : m.Reachable s)
    (hP : ∀ {s t : State} {e : Event}, m.Reachable s → Shift s e t → P s → P t) (h : P s)
    (hr : m.run s es = some (t, trace)) : P t := by
  induction es generalizing s trace with
  | nil =>
    cases hr
    exact h
  | cons e es ih =>
    obtain ⟨s', effects, rest, he, hes, -⟩ := run_cons hr
    exact ih (.step hs he) (hP hs (.of_step he) h) hes

/-! ### Calls and sessions stay -/

theorem Shift.calls_eq {e : Event} (h : Shift s e t) :
    t.calls = s.calls ∨
      (∃ i r, e = .call i r ∧ s.calls i = none ∧ t.calls = assign s.calls i (some r.start)) ∨
      ∃ i c c', s.calls i = some c ∧ c'.request = c.request ∧
        t.calls = assign s.calls i (some c') := by
  have goes : ∀ {r : State} {j : CallId} {d d' : Call}, s.calls j = some d →
      d'.request = d.request → r.calls = s.calls →
      ∃ i c c', s.calls i = some c ∧ c'.request = c.request ∧
        (r.setCall j d').calls = assign s.calls i (some c') := by
    intro r j d d' hj hd hr
    exact ⟨j, d, d', hj, hd, by rw [State.setCall_calls, hr]⟩
  cases h with
  | @call i r hi => exact .inr (.inl ⟨i, r, rfl, hi, rfl⟩)
  | keepAlive => exact .inl rfl
  | closeOn hi => exact .inr (.inr (goes hi (Call.request_closeOn _ _) rfl))
  | closed hi => exact .inr (.inr (goes hi (Call.request_closed _) rfl))
  | unmade hi => exact .inr (.inr (goes hi (Call.request_closed _) rfl))
  | queue hi _ hg => exact .inr (.inr (goes hi rfl (holdGate_spec hg).2.2.1))
  | leave hi => exact .inr (.inr (goes hi rfl (releaseGate_calls _ _ _)))
  | takeOut hi => exact .inr (.inr (goes hi rfl (passGate_calls _ _)))
  | reuse hi | turn hi | meet hi | clear hi | attempt hi | establish hi | cancel hi | yield hi
  | insert hi | startClosing hi | drain hi | finish hi => exact .inr (.inr (goes hi rfl rfl))

theorem Shift.request_kept {e : Event} (h : Shift s e t) {i : CallId} {c : Call}
    (hi : s.calls i = some c) : ∃ c', t.calls i = some c' ∧ c'.request = c.request := by
  obtain ht | ⟨j, r, -, hj, ht⟩ | ⟨j, d, d', hj, hd, ht⟩ := h.calls_eq
  · exact ⟨c, by rw [ht, hi], rfl⟩
  · refine ⟨c, ?_, rfl⟩
    rw [ht, assign_ne]
    · exact hi
    · rintro rfl
      rw [hj] at hi
      cases hi
  · rw [ht, assign_apply]
    split
    · next e =>
      subst e
      rw [hj] at hi
      cases hi
      exact ⟨d', rfl, hd⟩
    · exact ⟨c, hi, rfl⟩

theorem Shift.call_from {e : Event} (h : Shift s e t) {i : CallId} {c' : Call}
    (hi : t.calls i = some c') :
    (∃ r, e = .call i r ∧ c' = r.start) ∨ ∃ c, s.calls i = some c := by
  obtain ht | ⟨j, r, he, hj, ht⟩ | ⟨j, d, d', hj, -, ht⟩ := h.calls_eq
  · exact .inr ⟨c', by rw [← ht, hi]⟩
  · rw [ht, assign_apply] at hi
    split at hi
    · next e =>
      subst e
      exact .inl ⟨r, he, (Option.some.inj hi).symm⟩
    · exact .inr ⟨c', hi⟩
  · rw [ht, assign_apply] at hi
    split at hi
    · next e =>
      subst e
      exact .inr ⟨d, hj⟩
    · exact .inr ⟨c', hi⟩

theorem Shift.session_kept {e : Event} (h : Shift s e t) {x : CallId} {a : Session}
    (hx : s.sessions x = some a) : ∃ b, t.sessions x = some b := by
  have change : ∀ {r : State} {y : CallId} {b : Session}, r.sessions = assign s.sessions y (some b) →
      ∃ b, r.sessions x = some b := by
    intro r y b hr
    rw [hr, assign_apply]
    split
    · exact ⟨b, rfl⟩
    · exact ⟨a, hx⟩
  cases h with
  | keepAlive | closeOn | closed | establish => exact change rfl
  | queue _ _ hg => exact ⟨a, by rw [State.setCall_sessions, (holdGate_spec hg).2.1, hx]⟩
  | leave => exact ⟨a, by rw [State.setCall_sessions, releaseGate_sessions, hx]⟩
  | takeOut => exact ⟨a, by rw [State.setCall_sessions, passGate_sessions, hx]⟩
  | _ => exact ⟨a, hx⟩

/-- A session was there before, or a login has just made it. -/
theorem Shift.session_from {e : Event} (h : Shift s e t) {x : CallId} {b : Session}
    (hx : t.sessions x = some b) :
    (∃ a, s.sessions x = some a ∧ a.Aged b) ∨
      ∃ u p g seen r, s.calls x = some (.create u p (.awaiting g seen r)) ∧
        t.calls x = some (.create u p (.established g seen)) ∧ b.username = u := by
  have change : ∀ {r : State} {y : CallId} {a c : Session}, s.sessions y = some a → a.Aged c →
      r.sessions = assign s.sessions y (some c) → r.sessions x = some b →
      ∃ a, s.sessions x = some a ∧ a.Aged b := by
    intro r y a c hy hac hr hb
    rw [hr, assign_apply] at hb
    split at hb
    · next e =>
      cases hb
      exact ⟨a, e ▸ hy, hac⟩
    · exact ⟨b, hb, .refl b⟩
  cases h with
  | keepAlive ha hk => exact .inl (change ha hk.aged rfl hx)
  | closeOn _ _ ha hb => exact .inl (change ha (.of_closing hb) rfl hx)
  | closed _ _ ha hb => exact .inl (change ha (.of_closing hb) rfl hx)
  | @establish _ _ i g u p seen r r' login hi =>
    rw [State.setCall_sessions, State.setSession_sessions, assign_apply] at hx
    split at hx
    · next e =>
      subst e
      cases hx
      exact .inr ⟨u, p, g, seen, r, hi, assign_same _ _ _, rfl⟩
    · exact .inl ⟨b, hx, .refl b⟩
  | queue _ _ hg =>
    rw [State.setCall_sessions, (holdGate_spec hg).2.1] at hx
    exact .inl ⟨b, hx, .refl b⟩
  | leave =>
    rw [State.setCall_sessions, releaseGate_sessions] at hx
    exact .inl ⟨b, hx, .refl b⟩
  | takeOut =>
    rw [State.setCall_sessions, passGate_sessions] at hx
    exact .inl ⟨b, hx, .refl b⟩
  | _ => exact .inl ⟨b, hx, .refl b⟩

/-! ### What becomes of one create -/

/-- The ways of a `create` of `u` with number `i` from one phase to the next, as the states
`s` and `t` around the step allow them. -/
inductive CreateMove (s t : State) (i : CallId) (u : String) : CreatePhase → CreatePhase → Prop where
  | same {a : CreatePhase} : CreateMove s t i u a a
  | reuse {x : CallId} : s.liveSession? u = some x → CreateMove s t i u .called (.returned (some x))
  | queue {g : CallId} {seen : Nat} : seen = (t.gates g).removals →
    CreateMove s t i u .called (.queued g seen)
  | turn {g : CallId} {seen : Nat} : CreateMove s t i u (.queued g seen) (.admitted g seen)
  | meet {g x : CallId} {seen : Nat} : s.liveSession? u = some x →
    CreateMove s t i u (.admitted g seen) (.leaving g (some x))
  | discard {g x : CallId} {seen : Nat} : s.table.get? u = some x → t.table = s.table.erase u →
    CreateMove s t i u (.admitted g seen) (.discarding g seen x .mark)
  | clear {g : CallId} {seen : Nat} : t.table = s.table.erase u →
    CreateMove s t i u (.admitted g seen) (.ready g seen)
  | discardOn {g x : CallId} {seen : Nat} {next next' : Closing} :
    CreateMove s t i u (.discarding g seen x next) (.discarding g seen x next')
  | discarded {g x : CallId} {seen : Nat} {next : Closing} :
    CreateMove s t i u (.discarding g seen x next) (.ready g seen)
  | attempt {a b : CreatePhase} : a.Attempt b → CreateMove s t i u a b
  | establish {g : CallId} {seen : Nat} {r : Receiver} :
    CreateMove s t i u (.awaiting g seen r) (.established g seen)
  | cancel {g : CallId} {seen : Nat} : (s.gates g).removals ≠ seen →
    CreateMove s t i u (.established g seen) (.undoing g .mark none)
  | yield {g x : CallId} {seen : Nat} : s.liveSession? u = some x →
    CreateMove s t i u (.established g seen) (.undoing g .mark (some x))
  | insert {g : CallId} {seen : Nat} : (s.gates g).removals = seen → s.liveSession? u = none →
    t.table = s.table.insert u i → CreateMove s t i u (.established g seen) (.leaving g (some i))
  | undoOn {g : CallId} {next next' : Closing} {result : Option CallId} :
    CreateMove s t i u (.undoing g next result) (.undoing g next' result)
  | undone {g : CallId} {next : Closing} {result : Option CallId} :
    CreateMove s t i u (.undoing g next result) (.leaving g result)
  | leave {g : CallId} {result : Option CallId} :
    CreateMove s t i u (.leaving g result) (.returned result)

variable {r : State} {i j : CallId} {u p : String} {b : CreatePhase}

theorem CreateMove.of_setCall {c c' : Call} (hr : r.calls = s.calls) (hj : s.calls j = some c)
    (hi : (r.setCall j c').calls i = some (.create u p b))
    (own : c' = .create u p b → ∃ a, c = .create u p a ∧ CreateMove s t j u a b) :
    ∃ a, s.calls i = some (.create u p a) ∧ CreateMove s t i u a b := by
  rw [State.setCall_calls, assign_apply, hr] at hi
  split at hi
  · next e =>
    subst e
    obtain ⟨a, ha, hm⟩ := own (Option.some.inj hi)
    exact ⟨a, by rw [hj, ha], hm⟩
  · exact ⟨b, hi, .same⟩

theorem CreateMove.of_create {v q : String} {a b' : CreatePhase} (hr : r.calls = s.calls)
    (hj : s.calls j = some (.create v q a)) (hm : CreateMove s t j v a b')
    (hi : (r.setCall j (.create v q b')).calls i = some (.create u p b)) :
    ∃ a, s.calls i = some (.create u p a) ∧ CreateMove s t i u a b := by
  refine of_setCall hr hj hi fun h => ?_
  cases h
  exact ⟨a, rfl, hm⟩

theorem CreateMove.of_closeOn {c : Call} {next : Closing} (h : c.closeOn next = .create u p b) :
    ∃ a, c = .create u p a ∧ CreateMove s t i u a b := by
  rcases c with ⟨v, q, phase⟩ | ⟨v, phase⟩ | phase
  · cases phase <;> cases h
    case create.discarding.refl => exact ⟨_, rfl, .discardOn⟩
    case create.undoing.refl => exact ⟨_, rfl, .undoOn⟩
    all_goals exact ⟨_, rfl, .same⟩
  · cases phase <;> cases h
  · cases phase <;> cases h

theorem CreateMove.of_closed {c : Call} (h : c.closed = .create u p b) :
    ∃ a, c = .create u p a ∧ CreateMove s t i u a b := by
  rcases c with ⟨v, q, phase⟩ | ⟨v, phase⟩ | phase
  · cases phase <;> cases h
    case create.discarding.refl => exact ⟨_, rfl, .discarded⟩
    case create.undoing.refl => exact ⟨_, rfl, .undone⟩
    all_goals exact ⟨_, rfl, .same⟩
  · cases phase <;> cases h
  · rcases phase with _ | ⟨total, _ | _, next⟩ | _ <;> cases h

theorem Shift.create_move {e : Event} (h : Shift s e t) (hi : t.calls i = some (.create u p b)) :
    (e = .call i (.create u p) ∧ s.calls i = none ∧ b = .called) ∨
      ∃ a, s.calls i = some (.create u p a) ∧ CreateMove s t i u a b := by
  cases h with
  | @call j r hj =>
    rw [State.setCall_calls, assign_apply] at hi
    split at hi
    · next e =>
      subst e
      cases r <;> cases hi
      exact .inl ⟨rfl, hj, rfl⟩
    · exact .inr ⟨b, hi, .same⟩
  | keepAlive => exact .inr ⟨b, hi, .same⟩
  | closeOn hj => exact .inr (CreateMove.of_setCall rfl hj hi CreateMove.of_closeOn)
  | closed hj => exact .inr (CreateMove.of_setCall rfl hj hi CreateMove.of_closed)
  | unmade hj => exact .inr (CreateMove.of_setCall rfl hj hi CreateMove.of_closed)
  | reuse hj hx => exact .inr (CreateMove.of_create rfl hj (.reuse hx) hi)
  | queue hj _ hg =>
    obtain ⟨-, -, hr, hseen⟩ := holdGate_spec hg
    exact .inr (CreateMove.of_create hr hj (.queue hseen) hi)
  | turn hj => exact .inr (CreateMove.of_create rfl hj .turn hi)
  | meet hj hx => exact .inr (CreateMove.of_create rfl hj (.meet hx) hi)
  | clear hj =>
    refine .inr (CreateMove.of_create rfl hj ?_ hi)
    split
    · exact .discard ‹_› rfl
    · exact .clear rfl
  | attempt hj ha => exact .inr (CreateMove.of_create rfl hj (.attempt ha) hi)
  | establish hj => exact .inr (CreateMove.of_create rfl hj .establish hi)
  | cancel hj hr => exact .inr (CreateMove.of_create rfl hj (.cancel hr) hi)
  | yield hj hx => exact .inr (CreateMove.of_create rfl hj (.yield hx) hi)
  | insert hj hr hx => exact .inr (CreateMove.of_create rfl hj (.insert hr hx rfl) hi)
  | leave hj => exact .inr (CreateMove.of_create (releaseGate_calls _ _ _) hj .leave hi)
  | takeOut hj => exact .inr (CreateMove.of_setCall (passGate_calls _ _) hj hi fun h => by cases h)
  | startClosing hj => exact .inr (CreateMove.of_setCall rfl hj hi fun h => by cases h)
  | drain hj => exact .inr (CreateMove.of_setCall rfl hj hi fun h => by cases h)
  | finish hj => exact .inr (CreateMove.of_setCall rfl hj hi fun h => by cases h)

theorem Shift.create_on {e : Event} {a : CreatePhase} (h : Shift s e t)
    (hi : s.calls i = some (.create u p a)) :
    ∃ b, t.calls i = some (.create u p b) ∧ CreateMove s t i u a b := by
  obtain ⟨c, hc, hreq⟩ := h.request_kept hi
  obtain ⟨b, rfl⟩ := Call.create_of_request hreq
  obtain ⟨-, hnone, -⟩ | ⟨a', ha', hm⟩ := h.create_move hc
  · rw [hi] at hnone
    cases hnone
  · rw [hi] at ha'
    cases ha'
    exact ⟨b, hc, hm⟩

/-- A shift puts nothing into the table but the session of a `create` that settles. -/
theorem Shift.table_get? {e : Event} (h : Shift s e t) (u : String) :
    t.table.get? u = s.table.get? u ∨ t.table.get? u = none ∨
      ∃ i p g seen, s.calls i = some (.create u p (.established g seen)) ∧
        (s.gates g).removals = seen ∧ t.calls i = some (.create u p (.leaving g (some i))) ∧
        t.table.get? u = some i := by
  cases h with
  | clear | takeOut =>
    simp only [State.setCall_table, Directory.get?_erase]
    split
    · exact .inr (.inl rfl)
    · exact .inl rfl
  | drain => exact .inr (.inl rfl)
  | @insert _ i g v p seen hc hr _ =>
    simp only [State.setCall_table, State.setCall_calls, Directory.get?_insert]
    split
    · next e =>
      subst e
      exact .inr (.inr ⟨i, p, g, seen, hc, hr, assign_same _ _ _, rfl⟩)
    · exact .inl rfl
  | queue _ _ hg =>
    obtain ⟨ht, -⟩ := holdGate_spec hg
    exact .inl (by rw [State.setCall_table, ht])
  | leave => exact .inl (by rw [State.setCall_table, releaseGate_table])
  | _ => exact .inl rfl

end Manager

end Corelink
