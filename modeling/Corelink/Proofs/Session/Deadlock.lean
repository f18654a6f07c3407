import Corelink.Proofs.Session.Locks
import Mathlib.Logic.Relation

/-!
# No deadlock

Whoever holds a lock can take a step (`canStep_of_holds`), and so waits for nobody. A keep-alive
whose end is awaited waits for nobody either: the lock that it may need belongs to the call that
awaits it, and that call has given it back. Whose turn it is at a gate is past the gate, and does
not wait for its turn. So a chain of waiting has two links at most (`no_third`): to whose turn it
is, and from there to the holder of a lock or to a keep-alive. At its end somebody can take a step.
-/

namespace Corelink

namespace Manager

variable {m : Manager} {s t : State} {e : Event} {i j x g : CallId} {c : Call} {a : Session}
  {u p : String} {seen : Nat} {effects : List Effect}

/-! ### What a call can do -/

theorem look_happens (m : Manager) (hc : s.calls i = some c) (hl : c.lock? i = some .table) :
    (m.step s (.proceed i)).isSome = true := by
  simp only [step, proceed, hc]
  rcases c with ⟨u, p, phase⟩ | ⟨u, phase⟩ | phase
  · cases phase with
    | called | admitted | established | leaving => rfl
    | discarding _ _ _ next | undoing _ next => cases next <;> cases hl
    | _ => cases hl
  · cases phase with
    | called => rfl
    | closing _ next => cases next <;> cases hl
    | _ => cases hl
  · rcases phase with _ | ⟨total, _ | _, _ | _ | _ | _⟩ | _ <;> first | rfl | cases hl

theorem closing_happens (m : Manager) (hc : s.calls i = some c)
    {next : Closing} (hx : c.closing? i = some (x, next))
    (h : ∀ a, s.sessions x = some a → (next.step x a).isSome = true) :
    (m.step s (.proceed i)).isSome = true := by
  obtain ⟨goOn, done, hstep, -, -⟩ := step_of_closing m hc hx
  rw [hstep, close]
  split
  · rfl
  · next a ha => rw [Option.isSome_map, h a ha]

/-- A call that needs no lock can take a step, or it waits for its turn or for the end of a
keep-alive. -/
theorem free_step (m : Manager) (hc : s.calls i = some c) (hret : c.hasReturned = false)
    (hl : c.lock? i = none) :
    (∃ e, e.party? = some (.call i) ∧ (m.step s e).isSome = true) ∨
      (∃ u p g seen j, c = .create u p (.queued g seen) ∧ (s.gates g).owner = some j) ∨
      ∃ x a, c.awaited? i = some x ∧ s.sessions x = some a ∧ a.keepAlive ≠ .ended := by
  cases hx : c.closing? i with
  | some xn =>
    obtain ⟨x, next⟩ := xn
    rw [Call.lock?_of_closing hx] at hl
    by_cases hwait : ∃ a, s.sessions x = some a ∧ next.step x a = none
    · obtain ⟨a, ha, hnone⟩ := hwait
      cases next with
      | mark | signal => cases hnone
      | shut => cases hl
      | join =>
        refine .inr (.inr ⟨x, a, Call.awaited?_of_closing hx, ha, fun hended => ?_⟩)
        rw [Closing.step, if_pos hended] at hnone
        cases hnone
    · refine .inl ⟨.proceed i, rfl, closing_happens m hc hx fun a ha => ?_⟩
      exact Option.isSome_iff_ne_none.2 fun hnone => hwait ⟨a, ha, hnone⟩
  | none =>
    rcases c with ⟨u, p, phase⟩ | ⟨u, phase⟩ | phase
    · cases phase with
      | queued g seen =>
        cases ho : (s.gates g).owner with
        | none =>
          exact .inl ⟨.proceed i, rfl, by simp [step, proceed, hc, proceedCreate, takeTurn, ho]⟩
        | some j => exact .inr (.inl ⟨u, p, g, seen, j, rfl, ho⟩)
      | ready => exact .inl ⟨.proceed i, rfl, by simp [step, proceed, hc, proceedCreate]⟩
      -- what is left to the network may fail at any time
      | dialling => exact .inl ⟨.dial i .timedOut, rfl, by simp [step, hc]⟩
      | sending => exact .inl ⟨.write i .timedOut, rfl, by simp [step, hc]⟩
      | awaiting => exact .inl ⟨.read i .timedOut, rfl, by simp [step, hc]⟩
      | returned => cases hret
      | discarding | undoing => cases hx
      | called | admitted | established | leaving => cases hl
    · cases phase with
      | found => exact .inl ⟨.proceed i, rfl, by simp [step, proceed, hc, proceedRemove]⟩
      | closing => cases hx
      | called => cases hl
      | returned => cases hret
    · rcases phase with _ | ⟨total, _ | _, next⟩ | _
      · cases hl
      · exact .inl ⟨.proceed i, rfl, by simp [step, proceed, hc, proceedShutdown]⟩
      · cases hx
      · cases hret

theorem State.exists_create_of_inside (h : (s.standing i).inside = true) :
    ∃ u p b, s.calls i = some (.create u p b) ∧ b.isInside = true := by
  cases hc : s.calls i with
  | none => simp [standing, hc] at h
  | some c =>
    rw [standing_of_calls hc] at h
    rcases c with ⟨u, p, b⟩ | ⟨u, b⟩ | b
    · cases b with
      | called | queued | returned => cases h
      | _ => exact ⟨u, p, _, rfl, rfl⟩
    · cases h
    · cases h

namespace Locked

variable {s t : Locked} {p q r o : Party} {l : Lock} {d : Bool}

theorem canStep_of_isSome (hr : s.IsReady p) (hl : s.lock? p = none) (hparty : e.party? = some p)
    (he : (m.step s.base e).isSome = true) : CanStep m s p := by
  obtain ⟨⟨t, effects⟩, he⟩ := Option.isSome_iff_exists.1 he
  exact ⟨_, .go hr hl hparty he⟩

/-! ### Who holds a lock -/

theorem canWork (hs : Reachable m s) (hp : s.locks l = some ⟨p, false⟩) : CanStep m s p := by
  have hlock := hs.guarded.inside hp
  have work : ∀ {e : Event}, e.party? = some p → (m.step s.base e).isSome = true →
      CanStep m s p := by
    intro e hparty he
    obtain ⟨⟨t, effects⟩, he⟩ := Option.isSome_iff_exists.1 he
    exact ⟨_, .work hp hparty he⟩
  cases p with
  | call i =>
    obtain ⟨c, hc, hl⟩ := Option.bind_eq_some_iff.1 hlock
    cases l with
    | table => exact work rfl (look_happens m hc hl)
    | writer x =>
      have hx := Call.closing?_of_lock? hl
      refine work (e := .proceed i) rfl (closing_happens m hc hx fun a ha => ?_)
      -- a ping would be written under the same lock
      have hw : a.keepAlive ≠ .writing := by
        intro hw
        rw [hs.guarded.writing ha hw] at hp
        cases hp
      rw [Closing.step, if_neg hw]
      rfl
  | query k =>
    obtain ⟨a, ha, hl⟩ := Option.bind_eq_some_iff.1 hlock
    cases a with
    | asked =>
      cases hl
      exact ⟨_, .answer hp ha⟩
    | answered => cases hl
  | keepAlive x =>
    obtain ⟨-, a, ha, hk | hk⟩ := lock?_keepAlive hlock
    · refine work (e := .keepAlive x) rfl ?_
      simp [step, onSession, ha, Session.proceed, hk]
    · refine work (e := .ping x .timedOut) rfl ?_
      simp [step, onSession, ha, Session.ping, hk]

/-- **Whoever holds a lock can take a step.** -/
theorem canStep_of_holds (hs : Reachable m s) (h : s.Holds p) : CanStep m s p := by
  obtain ⟨l, d, hp⟩ := h
  cases d with
  | false => exact canWork hs hp
  | true => exact ⟨_, .give hp⟩

/-! ### Stepping or waiting -/

theorem keepAlive_canStep (hr : s.IsReady (.keepAlive x)) (hl : s.lock? (.keepAlive x) = none)
    (ha : s.base.sessions x = some a) (hidle : a.isIdle = false) : CanStep m s (.keepAlive x) := by
  refine canStep_of_isSome (e := .keepAlive x) hr hl rfl ?_
  have hnone : a.lock? x = none := by simpa only [lock?, ha, Option.bind_some] using hl
  unfold Session.isIdle at hidle
  unfold Session.lock? at hnone
  cases hk : a.keepAlive <;> simp only [hk] at hidle hnone
  case waiting => simp_all [step, onSession, Session.proceed]
  case due | failing => simp [step, onSession, ha, Session.proceed, hk]
  all_goals contradiction

/-- **Whoever has something to do can take a step, or waits for another.** -/
theorem canStep_or_waitsFor (hs : Reachable m s) (h : s.IsBusy p) :
    CanStep m s p ∨ ∃ q, s.WaitsFor p q := by
  by_cases hholds : s.Holds p
  · exact .inl (canStep_of_holds hs hholds)
  have hr : s.IsReady p := fun l hl => hholds ⟨l, true, hl⟩
  cases hlock : s.lock? p with
  | some l =>
    cases hl : s.locks l with
    | none => exact .inl ⟨_, .take hr hlock hl⟩
    | some v =>
      obtain ⟨q, d⟩ := v
      refine .inr ⟨q, .lock ⟨hr, ?_, l, d, hlock, hl⟩⟩
      rintro rfl
      exact hholds ⟨l, d, hl⟩
  | none =>
    obtain hheld | hopen := h
    · exact absurd hheld hholds
    cases p with
    | call i =>
      obtain ⟨c, hc, hret⟩ := hopen
      have hl : c.lock? i = none := by simpa only [lock?, hc, Option.bind_some] using hlock
      obtain ⟨e, hparty, he⟩ | ⟨u, p, g, seen, j, rfl, ho⟩ | ⟨x, a, hx, ha, hk⟩ :=
        free_step m hc hret hl
      · exact .inl (canStep_of_isSome hr hlock hparty he)
      · exact .inr ⟨_, .turn ⟨hr, u, p, g, seen, hc, ho⟩⟩
      · exact .inr ⟨_, .finish ⟨hr, c, a, hc, hx, ha, hk⟩⟩
    | query k =>
      obtain ⟨q, hq⟩ := hopen
      simp [lock?, hq, QueryPhase.lock?] at hlock
    | keepAlive x =>
      obtain ⟨a, ha, hidle⟩ := hopen
      exact .inl (keepAlive_canStep hr hlock ha hidle)

/-! ### Who waits -/

theorem WaitsFor.isReady (h : s.WaitsFor p q) : s.IsReady p := by
  cases h with
  | lock h | turn h | finish h => exact h.1

theorem WaitsFor.taken (h : s.WaitsFor p q) (hl : s.lock? p = some l) :
    ∃ d, s.locks l = some ⟨q, d⟩ ∧ q ≠ p := by
  cases h with
  | lock h =>
    obtain ⟨-, hne, l', d, hl', hq⟩ := h
    cases hl.symm.trans hl'
    exact ⟨d, hq, hne⟩
  | turn h =>
    obtain ⟨-, u, p, g, seen, hc, -⟩ := h
    rw [lock?, hc] at hl
    cases hl
  | finish h =>
    obtain ⟨-, c, a, hc, hx, -⟩ := h
    rw [lock?, hc, Option.bind_some, Call.lock?_of_closing (Call.closing?_of_awaited? hx)] at hl
    cases hl

theorem WaitsFor.stays (h : s.WaitsFor p q) (hl : s.lock? p = none)
    (hparty : e.party? = some p) : m.step s.base e = none := by
  cases h with
  | lock h =>
    obtain ⟨-, -, l, d, hl', -⟩ := h
    rw [hl] at hl'
    cases hl'
  | turn h =>
    obtain ⟨-, u, p, g, seen, hc, ho⟩ := h
    cases e with
    | proceed | dial | write | read =>
      cases hparty
      simp [step, proceed, hc, proceedCreate, takeTurn, ho]
    | call | keepAlive | tick | ping | inbound => cases hparty
  | finish h =>
    obtain ⟨-, c, a, hc, hx, ha, hk⟩ := h
    have hclosing := Call.closing?_of_awaited? hx
    cases he : m.step s.base e with
    | none => rfl
    | some r =>
      obtain rfl := eq_proceed_of_closing hc hclosing (Event.call?_of_party? hparty) he
      obtain ⟨_, _, _, hstep, -⟩ := closing_spec hc hclosing ha he
      rw [Closing.step, if_neg hk] at hstep
      cases hstep

/-- **Who waits holds no lock.** -/
theorem WaitsFor.not_holds (hs : Reachable m s) (h : s.WaitsFor p q) : ¬ s.Holds p := by
  rintro ⟨l, d, hp⟩
  cases h.isReady.done_eq_false hp
  obtain ⟨d', hq, hne⟩ := h.taken (hs.guarded.inside hp)
  rw [hp] at hq
  cases hq
  exact hne rfl

/-- **Who waits can take no step.** -/
theorem WaitsFor.not_canStep (hs : Reachable m s) (h : s.WaitsFor p q) : ¬ CanStep m s p := by
  rintro ⟨t, hst⟩
  cases hst with
  | work hp | answer hp | give hp => exact h.not_holds hs ⟨_, _, hp⟩
  | take _ hl hfree =>
    obtain ⟨d, hq, -⟩ := h.taken hl
    rw [hfree] at hq
    cases hq
  | go _ hl hparty he =>
    rw [h.stays hl hparty] at he
    cases he

/-! ### Who is waited for -/

theorem AwaitsTurn.exists_inside (hs : Reachable m s) (h : s.AwaitsTurn i j) :
    ∃ u p b, s.base.calls j = some (.create u p b) ∧ b.isInside = true := by
  obtain ⟨-, u, p, g, seen, -, ho⟩ := h
  exact State.exists_create_of_inside (hs.base.occupied ho).2

theorem AwaitsTurn.not_awaitsTurn {k : CallId} (hs : Reachable m s) (h : s.AwaitsTurn i j) :
    ¬ s.AwaitsTurn j k := by
  rintro ⟨-, u, p, g, seen, hc, -⟩
  obtain ⟨u', p', b, hb, hinside⟩ := h.exists_inside hs
  rw [hc] at hb
  cases hb
  cases hinside

/-- **A keep-alive whose end is awaited waits for nobody**: nobody but the closer could hold the
lock of the write half, and the closer has given it back. -/
theorem AwaitsEnd.not_waitsFor (hs : Reachable m s) (h : s.AwaitsEnd i x) :
    ¬ s.WaitsFor (.keepAlive x) q := by
  intro hw
  obtain ⟨hr, c, a, hc, hx, -⟩ := h
  have hclosing := Call.closing?_of_awaited? hx
  cases hw with
  | lock hw =>
    obtain ⟨-, hne, l, d, hl, hq⟩ := hw
    obtain ⟨rfl, -⟩ := lock?_keepAlive hl
    -- a call that holds the lock is closing the session, so it is the closer
    have closer : ∀ {k : CallId} {c' : Call} {next : Closing}, s.base.calls k = some c' →
        c'.closing? k = some (x, next) → k = i ∧ next = .join := by
      intro k c' next hc' hx'
      obtain rfl := hs.base.sole.unique hc' hc (Call.mem_owned_of_closing hx')
        (Call.mem_owned_of_closing hclosing)
      rw [hc] at hc'
      cases hc'
      rw [hclosing] at hx'
      cases hx'
      exact ⟨rfl, rfl⟩
    cases d with
    | true =>
      obtain rfl | ⟨k, c', rfl, hc', hx'⟩ := hs.guarded.done hq
      · exact hne rfl
      · obtain ⟨rfl, -⟩ := closer hc' hx'
        exact hr _ hq
    | false =>
      have hlock := hs.guarded.inside hq
      cases q with
      | call k =>
        obtain ⟨c', hc', hneeds⟩ := Option.bind_eq_some_iff.1 hlock
        obtain ⟨-, hnext⟩ := closer hc' (Call.closing?_of_lock? hneeds)
        cases hnext
      | query k =>
        obtain ⟨b, -, hb⟩ := Option.bind_eq_some_iff.1 hlock
        cases b <;> cases hb
      | keepAlive y =>
        obtain ⟨hxy, -⟩ := lock?_keepAlive hlock
        cases hxy
        exact hne rfl

theorem WaitsFor.isBusy (hs : Reachable m s) (h : s.WaitsFor p q) : s.IsBusy q := by
  cases h with
  | lock h =>
    obtain ⟨-, -, l, d, -, hq⟩ := h
    exact .inl ⟨l, d, hq⟩
  | turn h =>
    obtain ⟨u, p, b, hb, hinside⟩ := h.exists_inside hs
    refine .inr ⟨_, hb, ?_⟩
    cases b with
    | returned => cases hinside
    | _ => rfl
  | finish h =>
    obtain ⟨-, c, a, hc, hx, ha, hk⟩ := h
    refine .inr ⟨a, ha, ?_⟩
    have hsignalled := hs.base.told hc (Call.closing?_of_awaited? hx) (.inr rfl) ha
    unfold Session.isIdle
    cases hka : a.keepAlive with
    | waiting => rw [hsignalled]; rfl
    | ended => exact absurd hka hk
    | _ => rfl

/-- **A chain of waiting has two links at most.** -/
theorem no_third (hs : Reachable m s) (hpq : s.WaitsFor p q) (hqr : s.WaitsFor q r) :
    ¬ s.WaitsFor r o := by
  intro hro
  cases hpq with
  | lock h =>
    obtain ⟨-, -, l, d, -, hq⟩ := h
    exact hqr.not_holds hs ⟨l, d, hq⟩
  | finish h => exact h.not_waitsFor hs hqr
  | turn h =>
    -- so the second link is to the holder of a lock, or to a keep-alive
    cases hqr with
    | lock hqr =>
      obtain ⟨-, -, l, d, -, hr⟩ := hqr
      exact hro.not_holds hs ⟨l, d, hr⟩
    | finish hqr => exact hqr.not_waitsFor hs hro
    | turn hqr => exact h.not_awaitsTurn hs hqr

theorem not_circular (hs : Reachable m s) (p : Party) : ¬ Relation.TransGen s.WaitsFor p p := by
  -- on a circle one could go on for ever
  have onward : ∀ {p : Party}, Relation.TransGen s.WaitsFor p p →
      ∃ q, s.WaitsFor p q ∧ Relation.TransGen s.WaitsFor q q := by
    intro p hp
    obtain ⟨q, hpq, hqp⟩ := Relation.TransGen.head'_iff.1 hp
    exact ⟨q, hpq, .tail' hqp hpq⟩
  intro hp
  obtain ⟨q, hpq, hq⟩ := onward hp
  obtain ⟨r, hqr, hr⟩ := onward hq
  obtain ⟨o, hro, -⟩ := onward hr
  exact no_third hs hpq hqr hro

/-- Whoever has something to do waits, if at all, for somebody who can take a step. -/
theorem exists_canStep (hs : Reachable m s) (h : s.IsBusy p) :
    ∃ q, Relation.ReflTransGen s.WaitsFor p q ∧ CanStep m s q := by
  obtain hp | ⟨q, hpq⟩ := canStep_or_waitsFor hs h
  · exact ⟨p, .refl, hp⟩
  obtain hq | ⟨r, hqr⟩ := canStep_or_waitsFor hs (hpq.isBusy hs)
  · exact ⟨q, .single hpq, hq⟩
  obtain hr | ⟨o, hro⟩ := canStep_or_waitsFor hs (hqr.isBusy hs)
  · exact ⟨r, .tail (.single hpq) hqr, hr⟩
  · exact absurd hro (no_third hs hpq hqr)

/-- **There is no deadlock.** Whoever has something to do waits, if at all, for somebody who can
take a step; a party can take a step just when it waits for nobody, and nobody waits, through
others, for itself. Whoever holds a lock can take a step. Who waits for its turn at a gate holds no
lock, and who waits for the end of a keep-alive holds none either, while the keep-alive waits for
nobody. -/
theorem Reachable.no_deadlock (hs : Reachable m s) :
    (∀ p, s.IsBusy p → ∃ q, Relation.ReflTransGen s.WaitsFor p q ∧ CanStep m s q) ∧
    (∀ p, s.IsBusy p → (CanStep m s p ↔ ∀ q, ¬ s.WaitsFor p q)) ∧
    (∀ p, ¬ Relation.TransGen s.WaitsFor p p) ∧
    (∀ p, s.Holds p → CanStep m s p) ∧
    (∀ i j, s.AwaitsTurn i j → ¬ s.Holds (.call i)) ∧
    ∀ i x, s.AwaitsEnd i x → ¬ s.Holds (.call i) ∧ ∀ q, ¬ s.WaitsFor (.keepAlive x) q := by
  refine ⟨fun p => exists_canStep hs, fun p hp => ⟨fun hcan q hw => hw.not_canStep hs hcan,
    fun hno => ?_⟩, not_circular hs, fun p => canStep_of_holds hs,
    fun i j h => (WaitsFor.turn h).not_holds hs,
    fun i x h => ⟨(WaitsFor.finish h).not_holds hs, fun q => h.not_waitsFor hs⟩⟩
  obtain hcan | ⟨q, hw⟩ := canStep_or_waitsFor hs hp
  · exact hcan
  · exact absurd hw (hno q)

/-- A removal waits for the write half of the session while a ping is written on it, and of two
logins that have come in behind it one waits for its turn. -/
theorem ping_holds_up_removal : ∃ s, Reachable .loopback s ∧
    s.AwaitsLock (.call 1) (.keepAlive 0) ∧ s.AwaitsTurn 3 2 ∧ ¬ s.Holds (.call 3) ∧
    ¬ CanStep .loopback s (.call 1) ∧
    CanStep .loopback s (.keepAlive 0) ∧
    ∃ q, Relation.ReflTransGen s.WaitsFor (.call 3) q ∧
      CanStep .loopback s q := by
  have hbase : Manager.Reachable .loopback _ := .run .start (rfl : run _ {}
    [.call 0 (.create "u" "p"), .proceed 0, .proceed 0, .proceed 0, .proceed 0, .dial 0 .opened,
      .write 0 .done, .read 0 (.bytes 70 [83, 88, 49, 1, 13, 0, 0, 0, 15, 0, 0, 1, 0, 0, 0, 0, 0,
        0, 0, 0, 0, 0, 0, 0, 0, 0]), .proceed 0, .proceed 0, .tick 0, .keepAlive 0, .keepAlive 0,
      .call 1 (.remove "u"), .proceed 1, .proceed 1, .proceed 1, .proceed 1,
      .call 2 (.create "u" "p"), .proceed 2, .proceed 2, .call 3 (.create "u" "p"),
      .proceed 3] = some (_, _))
  obtain ⟨s, hs, hsbase, hcalm⟩ := hbase.exists_locked
  have hping : s.locks (.writer 0) = some ⟨.keepAlive 0, false⟩ :=
    hs.guarded.writing (by rw [hsbase]; rfl) rfl
  have hremoval : s.AwaitsLock (.call 1) (.keepAlive 0) :=
    ⟨hcalm.isReady _, nofun, .writer 0, false, by rw [lock?, hsbase]; rfl, hping⟩
  have hlogin : s.AwaitsTurn 3 2 :=
    ⟨hcalm.isReady _, "u", "p", 2, 0, by rw [hsbase]; rfl, by rw [hsbase]; rfl⟩
  have hclosing : s.base.calls 1 = some (.remove "u" (.closing 0 .shut true 0)) := by
    rw [hsbase]
    rfl
  have hqueued : s.base.calls 3 = some (.create "u" "p" (.queued 2 0)) := by
    rw [hsbase]
    rfl
  obtain ⟨hprogress, hiff, -, hheld, hturn, -⟩ := hs.no_deadlock
  refine ⟨s, hs, hremoval, hlogin, hturn 3 2 hlogin, fun hcan => ?_, ?_, ?_⟩
  · exact (hiff (.call 1) (.inr ⟨_, hclosing, rfl⟩)).1 hcan _ (.lock hremoval)
  · exact hheld (.keepAlive 0) ⟨_, _, hping⟩
  · exact hprogress (.call 3) (.inr ⟨_, hqueued, rfl⟩)

end Locked

end Manager

end Corelink
