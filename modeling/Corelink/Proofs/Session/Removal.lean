import Corelink.Proofs.Session.Custody

/-!
# A removal is final

The count of a gate does not go down while somebody holds on to it, so what a `create` has
seen at the gate is never more than what the gate has counted (`Counted`). A `remove` of the
user makes it less for every `create` on its way, and less it stays (`Barred`): none of them
can put its session into the table any more.
-/

namespace Corelink

/-- The gate at which the call will ask for removals at its last look at the table, and how
many it has seen there. -/
def CreatePhase.ticket? : CreatePhase → Option (CallId × Nat)
  | queued g seen | admitted g seen | discarding g seen .. | ready g seen | dialling g seen _
  | sending g seen _ | awaiting g seen _ | established g seen => some (g, seen)
  | called | undoing .. | leaving .. | returned _ => none

namespace CreatePhase

variable {a b : CreatePhase} {g : CallId} {seen : Nat}

theorem ne_called_of_ticket (h : a.ticket? = some (g, seen)) : a ≠ .called := by
  rintro rfl
  cases h

theorem gate?_of_ticket (h : a.ticket? = some (g, seen)) : a.gate? = some g := by
  cases a <;> cases h <;> rfl

theorem Attempt.ticket (h : a.Attempt b) (hb : b.ticket? = some (g, seen)) :
    a.ticket? = some (g, seen) := by
  cases h <;> first | exact hb | cases hb

theorem ne_called_of_isAnswered (h : a.isAnswered = true) : a ≠ .called := by
  rintro rfl
  cases h

end CreatePhase

namespace Manager

variable {s t : State} {i g : CallId} {u p : String} {seen : Nat} {e : Event}

/-! ### Counting removals -/

theorem removals_passGate (h : s.logins.get? u = some g) :
    ((passGate s u).gates g).removals = (s.gates g).removals + 1 := by
  simp only [passGate, h, State.setGate_gates, assign_same]

theorem removals_le_passGate (s : State) (u : String) (g : CallId) :
    (s.gates g).removals ≤ ((passGate s u).gates g).removals := by
  unfold passGate
  split
  · rw [State.setGate_gates, assign_apply]
    split
    · next e =>
      subst e
      exact Nat.le_succ _
    · exact Nat.le_refl _
  · exact Nat.le_refl _

/-- A gate that somebody holds on to does not forget a removal. -/
theorem Gated.removals_le (h : Gated s) (hp : Passage s t)
    (hi : (s.standing i).gate = some g) : (s.gates g).removals ≤ (t.gates g).removals := by
  cases hp with
  | quiet _ hg | skip _ _ hg => exact Nat.le_of_eq (by rw [hg])
  | @found j u hj _ _ hg =>
    have hne : g ≠ j := by
      rintro rfl
      exact h.fresh hj i hi
    exact Nat.le_of_eq (by rw [hg, assign_ne _ _ hne])
  | join _ _ _ hg | turn _ _ _ hg | forget _ _ _ _ hg | handBack _ _ _ hg =>
    rw [hg]
    exact Nat.le_of_eq (proj_assign s.gates _ Gate.removals (by rfl) g).symm
  | pass _ hg =>
    rw [hg]
    exact removals_le_passGate s _ g

theorem CreateMove.ticket {a b : CreatePhase} (h : CreateMove s t i u a b)
    (hb : b.ticket? = some (g, seen)) :
    (a = .called ∧ seen = (t.gates g).removals) ∨ a.ticket? = some (g, seen) := by
  cases h with
  | same => exact .inr hb
  | queue hseen =>
    cases hb
    exact .inl ⟨rfl, hseen⟩
  | attempt ha => exact .inr (ha.ticket hb)
  | turn | discard | clear | discardOn | discarded | establish =>
    cases hb
    exact .inr rfl
  | reuse | meet | cancel | yield | insert | undoOn | undone | leave => cases hb

theorem CreateMove.ne_called {a b : CreatePhase} (h : CreateMove s t i u a b)
    (ha : a ≠ .called) : b ≠ .called := by
  cases h with
  | same => exact ha
  | attempt hatt => cases hatt <;> exact nofun
  | _ => exact nofun

/-- No `create` has seen a removal that its gate has not counted. -/
def Counted (s : State) : Prop :=
  ∀ {i g : CallId} {u p : String} {a : CreatePhase} {seen : Nat},
    s.calls i = some (.create u p a) → a.ticket? = some (g, seen) → seen ≤ (s.gates g).removals

theorem State.gate_of_ticket {a : CreatePhase} (hi : s.calls i = some (.create u p a))
    (ha : a.ticket? = some (g, seen)) : s.standing i = ⟨some u, some g, a.isInside⟩ := by
  rw [standing_of_calls hi, Call.standing_create u p (CreatePhase.ne_called_of_ticket ha),
    CreatePhase.gate?_of_ticket ha]

theorem Counted.shift (h : Counted s) (hg : Gated s) (hst : Shift s e t) : Counted t := by
  intro i g u p b seen hi hb
  obtain ⟨-, -, rfl⟩ | ⟨a, ha, hm⟩ := hst.create_move hi
  · cases hb
  obtain ⟨-, rfl⟩ | hticket := hm.ticket hb
  · exact Nat.le_refl _
  · have hgate : (s.standing i).gate = some g := by rw [State.gate_of_ticket ha hticket]
    exact Nat.le_trans (h ha hticket) (hg.removals_le hst.passage hgate)

theorem Reachable.counted {m : Manager} (h : m.Reachable s) : Counted s := by
  induction h with
  | start => exact fun hi => by cases hi
  | step hs he ih => exact ih.shift hs.gated (.of_step he)

/-! ### What a removal bars -/

/-- Whether call `i` is a `create` of `u` that has looked at the table. -/
def State.HasBegun (s : State) (u : String) (i : CallId) : Prop :=
  ∃ p a, s.calls i = some (.create u p a) ∧ a ≠ .called

/-- The calls in `old` have looked at the table, and those of them that could still put a
session of `u` into it will not: the gate has counted a removal that they have not seen. -/
structure Barred (old : CallId → Prop) (u : String) (s : State) : Prop where
  begun : ∀ {i : CallId}, old i → s.HasBegun u i
  late : ∀ {i g : CallId} {p : String} {a : CreatePhase} {seen : Nat}, old i →
    s.calls i = some (.create u p a) → a.ticket? = some (g, seen) → seen < (s.gates g).removals
  absent : ∀ {x : CallId}, s.table.get? u = some x → ¬ old x

/-! ### The look at the table of a removal -/

@[simp] theorem takeOut_table (s : State) (i : CallId) (u : String) :
    (takeOut s i u).1.table = s.table.erase u := by
  simp only [takeOut, passGate_table]
  split <;> rfl

@[simp] theorem takeOut_gates (s : State) (i : CallId) (u : String) :
    (takeOut s i u).1.gates = (passGate s u).gates := by
  unfold takeOut
  split <;> rfl

theorem create_of_takeOut {j : CallId} {v : String} {a : CreatePhase}
    (h : (takeOut s i u).1.calls j = some (.create v p a)) : s.calls j = some (.create v p a) := by
  have other : ∀ {r : State} {phase : RemovePhase}, r.calls = s.calls →
      (r.setCall i (.remove u phase)).calls j = some (.create v p a) →
      s.calls j = some (.create v p a) := by
    intro r phase hr hj
    rw [State.setCall_calls, assign_apply, hr] at hj
    split at hj
    · cases hj
    · exact hj
  unfold takeOut at h
  split at h
  · exact other (passGate_calls s u) h
  · exact other (passGate_calls s u) h

namespace Barred

variable {old : CallId → Prop}

theorem of_takeOut (hg : Gated s) (hc : Counted s) (i : CallId) (u : String) :
    Barred ((takeOut s i u).1.HasBegun u) u (takeOut s i u).1 where
  begun h := h
  late {j g p a seen} _ hj ha := by
    have hj' := create_of_takeOut hj
    have hs := State.gate_of_ticket hj' ha
    obtain ⟨v, hv, hvg⟩ := hg.held (i := j) (g := g) (by rw [hs])
    rw [hs] at hv
    cases hv
    rw [takeOut_gates, removals_passGate hvg]
    exact Nat.lt_succ_of_le (hc hj' ha)
  absent hx := by
    rw [takeOut_table, Directory.get?_erase, if_pos rfl] at hx
    cases hx

theorem shift (h : Barred old u s) (hg : Gated s) (hst : Shift s e t) : Barred old u t where
  begun hi := by
    obtain ⟨p, a, ha, hne⟩ := h.begun hi
    obtain ⟨b, hb, hm⟩ := hst.create_on ha
    exact ⟨p, b, hb, hm.ne_called hne⟩
  late {i g p b seen} hi hb hticket := by
    obtain ⟨q, a, ha, hne⟩ := h.begun hi
    obtain ⟨b', hb', hm⟩ := hst.create_on ha
    rw [hb] at hb'
    cases hb'
    obtain ⟨hcalled, -⟩ | hat := hm.ticket hticket
    · exact absurd hcalled hne
    · have hgate : (s.standing i).gate = some g := by rw [State.gate_of_ticket ha hat]
      exact Nat.lt_of_lt_of_le (h.late hi ha hat) (hg.removals_le hst.passage hgate)
  absent {x} hx hold := by
    obtain same | gone | ⟨i, p, g, seen, hi, hseen, -, hput⟩ := hst.table_get? u
    · rw [same] at hx
      exact h.absent hx hold
    · rw [gone] at hx
      cases hx
    · rw [hput] at hx
      cases hx
      have hlt := h.late hold hi rfl
      omega

theorem run {m : Manager} {es : List Event} {trace : List (Event × List Effect)}
    (h : Barred old u s) (hs : m.Reachable s) (hr : m.run s es = some (t, trace)) :
    Barred old u t :=
  hs.keeps (fun hs hst h => h.shift hs.gated hst) h hr

end Barred

/-! ### Logged out -/

/-- No question about `u` is answered with a session. -/
structure State.LoggedOut (s : State) (u : String) : Prop where
  table : s.table.get? u = none
  hasSession : s.hasSession u = false
  session : s.liveSession? u = none
  online : u ∉ s.online

theorem State.loggedOut_of_get?_none (h : s.table.get? u = none) : s.LoggedOut u where
  table := h
  hasSession := by rw [hasSession, liveSession?_of_get?_none h, Option.isSome_none]
  session := liveSession?_of_get?_none h
  online hu := by
    obtain ⟨⟨v, x⟩, hx, rfl⟩ := List.mem_map.1 hu
    have hget := Directory.mem_entries_iff.1 (List.mem_filter.1 hx).1
    rw [h] at hget
    cases hget

section
variable {m : Manager} {es : List Event} {trace : List (Event × List Effect)}

theorem Custody.hasBegun {x : CallId} (h : Custody s) (hx : s.table.get? u = some x) :
    s.HasBegun u x := by
  obtain ⟨a, ha, rfl⟩ := h.listed hx
  obtain ⟨p, b, hb, hans⟩ := h.made ha
  exact ⟨p, b, hb, CreatePhase.ne_called_of_isAnswered hans⟩

theorem create_of_run (hr : m.run s es = some (t, trace)) (hnew : ∀ j p, .call j (.create u p) ∉ es)
    {j : CallId} {b : CreatePhase} (hj : t.calls j = some (.create u p b)) :
    ∃ a, s.calls j = some (.create u p a) := by
  induction es generalizing s trace with
  | nil =>
    cases hr
    exact ⟨b, hj⟩
  | cons e es ih =>
    obtain ⟨s', effects, rest, he, hes, -⟩ := run_cons hr
    obtain ⟨a, ha⟩ := ih hes fun j p hmem => hnew j p (List.mem_cons_of_mem _ hmem)
    obtain ⟨rfl, -⟩ | ⟨a', ha', -⟩ := (Shift.of_step he).create_move ha
    · exact absurd List.mem_cons_self (hnew j p)
    · exact ⟨a', ha'⟩

variable {s' : State} {effects : List Effect}

/-- **A removal is final.** Once a `remove` of a user has had its look at the table, there is no
session of the user in it, and no `create` that had its first look before ever puts one in.
So the user is logged out until another `create` has its first look at the table; and if no
`create` was about to have it, until another one is called. -/
theorem Reachable.removal_is_final (h : m.Reachable s) (hi : s.calls i = some (.remove u .called))
    (he : m.step s (.proceed i) = some (s', effects)) (hr : m.run s' es = some (t, trace)) :
    s'.LoggedOut u ∧
    (∀ x, t.table.get? u = some x → t.HasBegun u x ∧ ¬ s'.HasBegun u x) ∧
    ((∀ j, t.HasBegun u j → s'.HasBegun u j) → t.LoggedOut u) ∧
    ((∀ j p, s'.calls j ≠ some (.create u p .called)) →
      (∀ j p, .call j (.create u p) ∉ es) → t.LoggedOut u) := by
  have hs' : s' = (takeOut s i u).1 := by
    simp only [Manager.step, proceed, hi, proceedRemove] at he
    rw [Option.some.inj he]
  have hbarred : Barred (s'.HasBegun u) u t := by
    have hnow : Barred (s'.HasBegun u) u s' := hs' ▸ .of_takeOut h.gated h.counted i u
    exact hnow.run (.step h he) hr
  have hcustody : Custody t := (h.step he |>.run hr).custody
  have late : ∀ x, t.table.get? u = some x → t.HasBegun u x ∧ ¬ s'.HasBegun u x :=
    fun x hx => ⟨hcustody.hasBegun hx, hbarred.absent hx⟩
  have none_late : (∀ j, t.HasBegun u j → s'.HasBegun u j) → t.LoggedOut u := by
    intro hnone
    refine State.loggedOut_of_get?_none ?_
    cases hx : t.table.get? u with
    | none => rfl
    | some x => exact absurd (hnone x (late x hx).1) (late x hx).2
  refine ⟨State.loggedOut_of_get?_none ?_, late, none_late, fun hwait hnew => none_late ?_⟩
  · rw [hs', takeOut_table, Directory.get?_erase, if_pos rfl]
  · rintro j ⟨p, b, hj, -⟩
    obtain ⟨a, ha⟩ := create_of_run hr hnew hj
    refine ⟨p, a, ha, ?_⟩
    rintro rfl
    exact hwait j p ha

/-- A login that is on its way when its user is removed gets as far as Core, and no further. -/
theorem removal_cancels_login : ∃ s s' t effects trace, Reachable .loopback s ∧
    s.calls 0 = some (.create "u" "p" (.ready 0 0)) ∧
    step .loopback s (.proceed 1) = some (s', effects) ∧
    run .loopback s' [.proceed 0, .dial 0 .opened, .write 0 .done,
      .read 0 (.bytes 70 [83, 88, 49, 1, 13, 0, 0, 0, 15, 0, 0, 1, 0, 0, 0, 0, 0, 0, 0, 0, 0, 0, 0,
        0, 0, 0]), .proceed 0] = some (t, trace) ∧
    t.calls 0 = some (.create "u" "p" (.undoing 0 .mark none)) ∧ t.LoggedOut "u" := by
  have hs : Reachable .loopback _ := .run .start (rfl : run _ {}
    [.call 0 (.create "u" "p"), .proceed 0, .proceed 0, .proceed 0, .call 1 (.remove "u")]
      = some (_, _))
  refine ⟨_, ?_, ?_, ?_, ?_, hs, rfl, ?looked, ?went, ?_,
    (hs.removal_is_final rfl ?looked ?went).2.2.2 (fun j p hj => ?_) ?_⟩
  case looked => exact rfl
  case went => exact rfl
  · exact rfl
  · obtain _ | _ | j := j <;> cases hj
  · simp

end

end Manager

end Corelink
