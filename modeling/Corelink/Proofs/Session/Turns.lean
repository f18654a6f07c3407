import Corelink.Proofs.Session.Gates

/-!
# Logins take turns

At most one `create` of a user is past the gate (`Gated.create_unique`), so nobody can put a
session into the table between the second look at it, which takes out whatever is there,
and the last one. `Orderly` says so for every phase in between.
-/

namespace Corelink

namespace CreatePhase

variable {a b : CreatePhase}

/-- Whether the call has taken the session of its user out of the table, and has not put
its own there. -/
def hasCleared : CreatePhase → Bool
  | discarding .. | ready .. | dialling .. | sending .. | awaiting .. | established ..
  | undoing .. => true
  | _ => false

theorem isInside_of_hasCleared (h : a.hasCleared = true) : a.isInside = true := by
  cases a <;> first | rfl | cases h

theorem isInside_of_isShakingHands (h : a.isShakingHands = true) : a.isInside = true := by
  cases a <;> first | rfl | cases h

theorem gate?_of_isInside (h : a.isInside = true) : ∃ g, a.gate? = some g := by
  cases a with
  | called | queued | returned => cases h
  | _ => exact ⟨_, rfl⟩

theorem Attempt.hasCleared (h : a.Attempt b) : a.hasCleared = true := by
  cases h <;> rfl

end CreatePhase

theorem Call.standing_of_isInside (u p : String) {a : CreatePhase} (h : a.isInside = true) :
    (create u p a).standing = ⟨some u, a.gate?, true⟩ := by
  cases a with
  | called | queued | returned => cases h
  | _ => rfl

namespace Manager

variable {s t : State} {u : String}

theorem State.liveSession?_of_get?_none (h : s.table.get? u = none) : s.liveSession? u = none := by
  rw [liveSession?, h, Option.filter_none]

theorem Gated.create_unique (h : Gated s) {i j : CallId} {p q : String} {a b : CreatePhase}
    (hi : s.calls i = some (.create u p a)) (hj : s.calls j = some (.create u q b))
    (ha : a.isInside = true) (hb : b.isInside = true) : i = j := by
  obtain ⟨g, hg⟩ := CreatePhase.gate?_of_isInside ha
  obtain ⟨g', hg'⟩ := CreatePhase.gate?_of_isInside hb
  have si := State.standing_of_calls hi
  have sj := State.standing_of_calls hj
  rw [Call.standing_of_isInside u p ha, hg] at si
  rw [Call.standing_of_isInside u q hb, hg'] at sj
  exact h.eq_of_inside si sj

/-- What a `create` has cleared stays clear while it is on its way. -/
theorem CreateMove.hasCleared {i : CallId} {a b : CreatePhase} (h : CreateMove s t i u a b)
    (hb : b.hasCleared = true) : a.hasCleared = true ∨ t.table = s.table.erase u := by
  cases h with
  | same => exact .inl hb
  | discard _ ht => exact .inr ht
  | clear ht => exact .inr ht
  | attempt ha => exact .inl ha.hasCleared
  | reuse | queue | turn | meet | insert | undone | leave => cases hb
  | discardOn | discarded | establish | cancel | yield | undoOn => exact .inl rfl

/-! ### The invariant -/

/-- No session gets into the table behind the back of a `create` that has cleared it. -/
structure Orderly (s : State) : Prop where
  gated : Gated s
  cleared : ∀ {i : CallId} {u p : String} {a : CreatePhase},
    s.calls i = some (.create u p a) → a.hasCleared = true → s.table.get? u = none
  /-- A `create` undoes its login for a removal only. -/
  undone : ∀ {i g : CallId} {u p : String} {next : Closing} {result : Option CallId},
    s.calls i = some (.create u p (.undoing g next result)) → result = none

namespace Orderly

theorem start : Orderly {} where
  gated := .start
  cleared h := by cases h
  undone h := by cases h

theorem cleared_shift {e : Event} (h : Orderly s) (hst : Shift s e t) {i : CallId} {p : String}
    {b : CreatePhase} (hi : t.calls i = some (.create u p b)) (hb : b.hasCleared = true) :
    t.table.get? u = none := by
  obtain ⟨-, -, rfl⟩ | ⟨a, ha, hm⟩ := hst.create_move hi
  · cases hb
  obtain hcl | ht := hm.hasCleared hb
  · have before := h.cleared ha hcl
    obtain same | gone | ⟨j, q, g, seen, hj, -, hj', -⟩ := hst.table_get? u
    · rw [same, before]
    · exact gone
    · -- whoever puts a session in is past the gate, as `i` is, but goes on to another phase
      have hij : i = j := h.gated.create_unique ha hj (CreatePhase.isInside_of_hasCleared hcl) rfl
      subst hij
      rw [hi] at hj'
      cases hj'
      cases hb
  · rw [ht, Directory.get?_erase, if_pos rfl]

theorem undone_shift {e : Event} (h : Orderly s) (hst : Shift s e t) {i g : CallId} {p : String}
    {next : Closing} {result : Option CallId}
    (hi : t.calls i = some (.create u p (.undoing g next result))) : result = none := by
  obtain ⟨-, -, hcalled⟩ | ⟨a, ha, hm⟩ := hst.create_move hi
  · cases hcalled
  cases hm with
  | same => exact h.undone ha
  | attempt hatt => cases hatt
  | cancel => rfl
  | yield hx =>
    have hnone := State.liveSession?_of_get?_none (h.cleared ha rfl)
    rw [hx] at hnone
    cases hnone
  | undoOn => exact h.undone ha

theorem shift {e : Event} (h : Orderly s) (hst : Shift s e t) : Orderly t where
  gated := h.gated.passage hst.passage
  cleared := h.cleared_shift hst
  undone := h.undone_shift hst

theorem get?_eq_of_shift {e : Event} (h : Orderly s) (hst : Shift s e t) {x y : CallId}
    (hx : s.table.get? u = some x) (hy : t.table.get? u = some y) : y = x := by
  obtain same | gone | ⟨i, p, g, seen, hi, -⟩ := hst.table_get? u
  · rw [same, hx] at hy
    exact (Option.some.inj hy).symm
  · rw [gone] at hy
    cases hy
  · rw [h.cleared hi rfl] at hx
    cases hx

end Orderly

variable {m : Manager}

theorem Reachable.orderly (h : m.Reachable s) : Orderly s := by
  induction h with
  | start => exact .start
  | step _ he ih => exact ih.shift (.of_step he)

/-- **Logins of one user take turns.** In every reachable state at most one `create` of a user
is past its gate, and so at most one is shaking hands with Core. At its last look at the
table there is nothing under its username: it never finds a session that another call has
put in, and a step that puts a session in never puts it in place of another. -/
theorem Reachable.logins_take_turns (h : m.Reachable s) (u : String) :
    (∀ i j p q a b, s.calls i = some (.create u p a) → s.calls j = some (.create u q b) →
      a.isInside = true → b.isInside = true → i = j) ∧
    (∀ i j p q a b, s.calls i = some (.create u p a) → s.calls j = some (.create u q b) →
      a.isShakingHands = true → b.isShakingHands = true → i = j) ∧
    (∀ i p g seen, s.calls i = some (.create u p (.established g seen)) →
      s.table.get? u = none ∧ s.liveSession? u = none) ∧
    (∀ i p g next x, s.calls i ≠ some (.create u p (.undoing g next (some x)))) ∧
    (∀ e t effects x y, m.step s e = some (t, effects) → s.table.get? u = some x →
      t.table.get? u = some y → y = x) := by
  have ho := h.orderly
  refine ⟨fun i j p q a b hi hj ha hb => ?_, fun i j p q a b hi hj ha hb => ?_,
    fun i p g seen hi => ?_, fun i p g next x hi => ?_, fun e t effects x y he hx hy => ?_⟩
  · exact ho.gated.create_unique hi hj ha hb
  · exact ho.gated.create_unique hi hj (CreatePhase.isInside_of_isShakingHands ha)
      (CreatePhase.isInside_of_isShakingHands hb)
  · have hnone := ho.cleared hi rfl
    exact ⟨hnone, State.liveSession?_of_get?_none hnone⟩
  · cases ho.undone hi
  · exact ho.get?_eq_of_shift (.of_step he) hx hy

/-- A manager for a Core on the same host, on the usual terms. No connection is hard to close. -/
def loopback : Manager where
  address := "127.0.0.1:9000"
  settings := {}

/-- The second login of a user waits while the first one is shaking hands. -/
theorem second_login_waits : ∃ s, Reachable .loopback s ∧
    s.calls 0 = some (.create "u" "p" (.awaiting 0 0 {})) ∧
    s.calls 1 = some (.create "u" "q" (.queued 0 0)) ∧
    ∀ j q b, s.calls j = some (.create "u" q b) → b.isInside = true → j = 0 := by
  have hs : Reachable .loopback _ := .run .start (rfl : run _ {}
    [.call 0 (.create "u" "p"), .call 1 (.create "u" "q"), .proceed 0, .proceed 1, .proceed 0,
      .proceed 0, .proceed 0, .dial 0 .opened, .write 0 .done] = some (_, _))
  refine ⟨_, hs, rfl, rfl, fun j q b hj hb => ?_⟩
  exact (hs.logins_take_turns "u").1 j 0 q "p" b (.awaiting 0 0 {}) hj rfl hb rfl

end Manager

end Corelink
