import Corelink.Proofs.Session.Shift

/-!
# Gates

Of a call, the gates see no more than its `Standing`: whose `create` it is once it has
looked at the table, the gate it holds on to, and whether its turn has come. `Passage` is
what a shift means for standings and gates. `Gated` ties the reference counts, the owners
and the directory of gates to the standings; every passage keeps it, because a gate is
forgotten only by its last holder (`Gated.passage`).
-/

namespace Corelink

/-- What a call has to do with gates. -/
structure Standing where
  /-- The user whose session a `create` has looked for. -/
  user : Option String := none
  gate : Option CallId := none
  inside : Bool := false

def Call.standing : Call → Standing
  | create _ _ .called => {}
  | create u _ phase => ⟨some u, phase.gate?, phase.isInside⟩
  | _ => {}

namespace Call

theorem standing_create (u p : String) {phase : CreatePhase} (h : phase ≠ .called) :
    (create u p phase).standing = ⟨some u, phase.gate?, phase.isInside⟩ := by
  cases phase with
  | called => exact absurd rfl h
  | _ => rfl

@[simp] theorem standing_closeOn (next : Closing) (c : Call) :
    (c.closeOn next).standing = c.standing := by
  rcases c with ⟨u, p, phase⟩ | ⟨u, phase⟩ | phase <;> cases phase <;> rfl

@[simp] theorem standing_closed (c : Call) : c.closed.standing = c.standing := by
  rcases c with ⟨u, p, phase⟩ | ⟨u, phase⟩ | phase
  · cases phase <;> rfl
  · cases phase <;> rfl
  · rcases phase with _ | ⟨total, _ | _, next⟩ | _ <;> rfl

theorem gate_of_hasReturned {c : Call} (h : c.hasReturned = true) : c.standing.gate = none := by
  rcases c with ⟨u, p, phase⟩ | ⟨u, phase⟩ | phase
  · cases phase <;> first | rfl | cases h
  · rfl
  · rfl

theorem gate_start (r : Request) : r.start.standing.gate = none := by
  cases r <;> rfl

end Call

theorem CreatePhase.Attempt.standing {a b : CreatePhase} (h : a.Attempt b) (u p : String) :
    (Call.create u p b).standing = (Call.create u p a).standing := by
  cases h <;> rfl

namespace Manager

variable {s t : State}

def State.standing (s : State) (i : CallId) : Standing :=
  ((s.calls i).map Call.standing).getD {}

theorem State.standing_of_calls {i : CallId} {c : Call} (h : s.calls i = some c) :
    s.standing i = c.standing := by
  simp [standing, h]

theorem State.standing_setCall (s : State) (i : CallId) (c : Call) :
    (s.setCall i c).standing = assign s.standing i c.standing := by
  funext j
  simp only [standing, setCall_calls, assign_apply]
  split <;> rfl

theorem State.standing_congr (h : t.calls = s.calls) : t.standing = s.standing := by
  funext i
  simp only [standing, h]

theorem State.standing_setCall_same {i : CallId} {c c' : Call} (hc : s.calls i = some c)
    (h : c'.standing = c.standing) : (s.setCall i c').standing = s.standing := by
  rw [standing_setCall, h, ← standing_of_calls hc]
  exact assign_eq_self _ _ rfl

/-! ### What a shift means for gates -/

inductive Passage (s t : State) : Prop where
  | quiet : t.logins = s.logins → t.gates = s.gates → t.standing = s.standing → Passage s t
  /-- A `create` finds a live session at its first look. -/
  | skip {i : CallId} {u : String} : s.standing i = {} → t.logins = s.logins →
    t.gates = s.gates → t.standing = assign s.standing i ⟨some u, none, false⟩ → Passage s t
  | join {i g : CallId} {u : String} : s.standing i = {} → s.logins.get? u = some g →
    t.logins = s.logins →
    t.gates = assign s.gates g { s.gates g with references := (s.gates g).references + 1 } →
    t.standing = assign s.standing i ⟨some u, some g, false⟩ → Passage s t
  | found {i : CallId} {u : String} : s.standing i = {} → s.logins.get? u = none →
    t.logins = s.logins.insert u i → t.gates = assign s.gates i { references := 2 } →
    t.standing = assign s.standing i ⟨some u, some i, false⟩ → Passage s t
  | turn {i g : CallId} {u : String} : s.standing i = ⟨some u, some g, false⟩ →
    (s.gates g).owner = none → t.logins = s.logins →
    t.gates = assign s.gates g { s.gates g with owner := some i } →
    t.standing = assign s.standing i ⟨some u, some g, true⟩ → Passage s t
  /-- The gate goes with its last holder. -/
  | forget {i g : CallId} {u : String} : s.standing i = ⟨some u, some g, true⟩ →
    s.logins.get? u = some g → (s.gates g).references = 2 → t.logins = s.logins.erase u →
    t.gates = assign s.gates g { s.gates g with owner := none, references := 0 } →
    t.standing = assign s.standing i ⟨some u, none, false⟩ → Passage s t
  | handBack {i g : CallId} {u : String} : s.standing i = ⟨some u, some g, true⟩ →
    ¬ (s.logins.get? u = some g ∧ (s.gates g).references = 2) → t.logins = s.logins →
    t.gates = assign s.gates g
      { s.gates g with owner := none, references := (s.gates g).references - 1 } →
    t.standing = assign s.standing i ⟨some u, none, false⟩ → Passage s t
  | pass {u : String} : t.logins = s.logins → t.gates = (passGate s u).gates →
    t.standing = s.standing → Passage s t

theorem Passage.of_queue {i g : CallId} {u p : String} {seen : Nat} {r : State}
    (hc : s.calls i = some (.create u p .called)) (h : holdGate s i u = (g, seen, r)) :
    Passage s (r.setCall i (.create u p (.queued g seen))) := by
  have hs : s.standing i = {} := State.standing_of_calls hc
  unfold holdGate at h
  split at h
  · rename_i g' hg
    cases h
    exact .join hs hg rfl rfl (State.standing_setCall _ _ _)
  · rename_i hu
    cases h
    exact .found hs hu rfl rfl (State.standing_setCall _ _ _)

theorem Passage.of_leave {i g : CallId} {u p : String} {result : Option CallId}
    (hc : s.calls i = some (.create u p (.leaving g result))) :
    Passage s ((releaseGate s u g).setCall i (.create u p (.returned result))) := by
  have hi : s.standing i = ⟨some u, some g, true⟩ := State.standing_of_calls hc
  have hs : ((releaseGate s u g).setCall i (.create u p (.returned result))).standing
      = assign s.standing i ⟨some u, none, false⟩ := by
    rw [State.standing_setCall, State.standing_congr (releaseGate_calls _ _ _)]
    rfl
  by_cases h2 : s.logins.get? u = some g ∧ (s.gates g).references = 2
  · refine .forget hi h2.1 h2.2 ?_ ?_ hs
    · simp only [releaseGate, State.setCall_logins, if_pos h2, State.setGate_logins]
    · simp only [releaseGate, State.setCall_gates, if_pos h2, State.setGate_gates]
  · refine .handBack hi h2 ?_ ?_ hs
    · simp only [releaseGate, State.setCall_logins, if_neg h2, State.setGate_logins]
    · simp only [releaseGate, State.setCall_gates, if_neg h2, State.setGate_gates]

theorem Shift.passage {e : Event} (h : Shift s e t) : Passage s t := by
  cases h with
  | @call i r hc =>
    refine .quiet rfl rfl ?_
    rw [State.standing_setCall]
    refine assign_eq_self _ _ ?_
    simp only [State.standing, hc]
    cases r <;> rfl
  | keepAlive => exact .quiet rfl rfl (State.standing_congr rfl)
  | closeOn hc => exact .quiet rfl rfl (State.standing_setCall_same hc (Call.standing_closeOn _ _))
  | closed hc => exact .quiet rfl rfl (State.standing_setCall_same hc (Call.standing_closed _))
  | unmade hc => exact .quiet rfl rfl (State.standing_setCall_same hc (Call.standing_closed _))
  | reuse hc => exact .skip (State.standing_of_calls hc) rfl rfl (State.standing_setCall _ _ _)
  | queue hc _ hg => exact .of_queue hc hg
  | turn hc ho => exact .turn (State.standing_of_calls hc) ho rfl rfl (State.standing_setCall _ _ _)
  | meet hc => exact .quiet rfl rfl (State.standing_setCall_same hc rfl)
  | clear hc =>
    refine .quiet rfl rfl (State.standing_setCall_same hc ?_)
    split <;> rfl
  | attempt hc ha => exact .quiet rfl rfl (State.standing_setCall_same hc (ha.standing _ _))
  | establish hc => exact .quiet rfl rfl (State.standing_setCall_same hc rfl)
  | cancel hc => exact .quiet rfl rfl (State.standing_setCall_same hc rfl)
  | yield hc => exact .quiet rfl rfl (State.standing_setCall_same hc rfl)
  | insert hc => exact .quiet rfl rfl (State.standing_setCall_same hc rfl)
  | leave hc => exact .of_leave hc
  | takeOut hc =>
    rename_i i u
    have hs : { passGate s u with table := s.table.erase u }.standing = s.standing :=
      State.standing_congr (passGate_calls s u)
    refine .pass (passGate_logins s u) rfl ?_
    rw [State.standing_setCall, hs]
    refine assign_eq_self _ _ ?_
    rw [State.standing_of_calls hc]
    split <;> rfl
  | startClosing hc => exact .quiet rfl rfl (State.standing_setCall_same hc rfl)
  | drain hc => exact .quiet rfl rfl (State.standing_setCall_same hc rfl)
  | finish hc => exact .quiet rfl rfl (State.standing_setCall_same hc rfl)

@[simp] theorem passGate_owner (s : State) (u : String) (g : CallId) :
    ((passGate s u).gates g).owner = (s.gates g).owner := by
  unfold passGate
  split
  · exact proj_assign _ _ Gate.owner (by rfl) g
  · rfl

@[simp] theorem passGate_references (s : State) (u : String) (g : CallId) :
    ((passGate s u).gates g).references = (s.gates g).references := by
  unfold passGate
  split
  · exact proj_assign _ _ Gate.references (by rfl) g
  · rfl

/-! ### The invariant -/

/-- Gates, their directory and the calls that hold on to them fit together. -/
structure Gated (s : State) : Prop where
  /-- The gate of a call is the one in the directory. -/
  held : ∀ {i g : CallId}, (s.standing i).gate = some g →
    ∃ u, (s.standing i).user = some u ∧ s.logins.get? u = some g
  turn : ∀ {i g : CallId}, (s.standing i).gate = some g → (s.standing i).inside = true →
    (s.gates g).owner = some i
  /-- A gate bears the number of a call for its user, so no two users share one. -/
  made : ∀ {u : String} {g : CallId}, s.logins.get? u = some g → (s.standing g).user = some u
  count : ∀ {u : String} {g : CallId}, s.logins.get? u = some g →
    ∃ holders : List CallId, holders.Nodup ∧ holders ≠ [] ∧
      (∀ i, i ∈ holders ↔ (s.standing i).gate = some g) ∧
      (s.gates g).references = holders.length + 1

namespace Gated

theorem start : Gated {} where
  held h := by cases h
  turn h := by cases h
  made h := by cases h
  count h := by cases h

theorem fresh (h : Gated s) {i : CallId} (hi : s.standing i = {}) (j : CallId) :
    (s.standing j).gate ≠ some i := by
  intro hj
  obtain ⟨u, -, hu⟩ := h.held hj
  have hm := h.made hu
  rw [hi] at hm
  cases hm

theorem gate_inj (h : Gated s) {u v : String} {g : CallId} (hu : s.logins.get? u = some g)
    (hv : s.logins.get? v = some g) : u = v := by
  have hm := h.made hu
  rw [h.made hv] at hm
  exact (Option.some.inj hm).symm

/-- Gates and standings changed in nothing that the invariant speaks of. -/
theorem congr (h : Gated s) (hl : t.logins = s.logins) (hs : t.standing = s.standing)
    (ho : ∀ g, (t.gates g).owner = (s.gates g).owner)
    (hr : ∀ g, (t.gates g).references = (s.gates g).references) : Gated t where
  held := by rw [hl, hs]; exact h.held
  turn := by rw [hs]; intro i g; rw [ho]; exact h.turn
  made := by rw [hl, hs]; exact h.made
  count := by rw [hl, hs]; intro u g; rw [hr]; exact h.count

theorem skip (h : Gated s) {i : CallId} {u : String} (hi : s.standing i = {})
    (hl : t.logins = s.logins) (hg : t.gates = s.gates)
    (hs : t.standing = assign s.standing i ⟨some u, none, false⟩) : Gated t := by
  have hgate : ∀ j, (t.standing j).gate = (s.standing j).gate := by
    rw [hs]
    exact proj_assign _ _ Standing.gate (by rw [hi])
  have hne : ∀ {j g}, (t.standing j).gate = some g → j ≠ i := by
    rintro j g hj rfl
    rw [hgate, hi] at hj
    cases hj
  refine ⟨fun hj => ?_, fun hj hin => ?_, fun hu => ?_, fun hu => ?_⟩
  · have hji := hne hj
    rw [hs, assign_ne _ _ hji] at hj ⊢
    rw [hl]
    exact h.held hj
  · have hji := hne hj
    rw [hs, assign_ne _ _ hji] at hj hin
    rw [hg]
    exact h.turn hj hin
  · rw [hl] at hu
    have hm := h.made hu
    rw [hs, assign_ne]
    · exact hm
    · rintro rfl
      rw [hi] at hm
      cases hm
  · rw [hl] at hu
    obtain ⟨holders, hn, hne, hmem, hr⟩ := h.count hu
    exact ⟨holders, hn, hne, fun j => by rw [hgate]; exact hmem j, by rw [hg]; exact hr⟩

theorem join (h : Gated s) {i g : CallId} {u : String} (hi : s.standing i = {})
    (hu : s.logins.get? u = some g) (hl : t.logins = s.logins)
    (hg : t.gates = assign s.gates g { s.gates g with references := (s.gates g).references + 1 })
    (hs : t.standing = assign s.standing i ⟨some u, some g, false⟩) : Gated t := by
  have howner : ∀ g', (t.gates g').owner = (s.gates g').owner := by
    rw [hg]
    exact proj_assign _ _ Gate.owner (by rfl)
  refine ⟨fun {j g'} hj => ?_, fun {j g'} hj hin => ?_, fun {v g'} hv => ?_, fun {v g'} hv => ?_⟩
  · by_cases e : j = i
    · subst e
      rw [hs, assign_same] at hj ⊢
      cases hj
      exact ⟨u, rfl, hl ▸ hu⟩
    · rw [hs, assign_ne _ _ e] at hj ⊢
      rw [hl]
      exact h.held hj
  · by_cases e : j = i
    · subst e
      rw [hs, assign_same] at hin
      cases hin
    · rw [hs, assign_ne _ _ e] at hj hin
      rw [howner]
      exact h.turn hj hin
  · rw [hl] at hv
    have hm := h.made hv
    rw [hs, assign_ne]
    · exact hm
    · rintro rfl
      rw [hi] at hm
      cases hm
  · rw [hl] at hv
    obtain ⟨holders, hn, hne, hmem, hr⟩ := h.count hv
    by_cases e : g' = g
    · subst e
      have hnot : i ∉ holders := fun hin => by
        have := (hmem i).1 hin
        rw [hi] at this
        cases this
      refine ⟨i :: holders, List.nodup_cons.2 ⟨hnot, hn⟩, List.cons_ne_nil _ _, fun j => ?_, ?_⟩
      · rw [List.mem_cons, hmem, hs, assign_apply]
        split
        · next e => simp [e]
        · next e => simp [e]
      · rw [hg, assign_same, List.length_cons, hr]
    · refine ⟨holders, hn, hne, fun j => ?_, ?_⟩
      · rw [hmem, hs, assign_apply]
        split
        · next ej =>
          rw [ej, hi]
          simp [Ne.symm e]
        · rfl
      · rw [hg, assign_ne _ _ e, hr]

theorem found (h : Gated s) {i : CallId} {u : String} (hi : s.standing i = {})
    (hu : s.logins.get? u = none) (hl : t.logins = s.logins.insert u i)
    (hg : t.gates = assign s.gates i { references := 2 })
    (hs : t.standing = assign s.standing i ⟨some u, some i, false⟩) : Gated t := by
  -- a gate that was in the directory before is another one, and its user too
  have old : ∀ {v g}, s.logins.get? v = some g → v ≠ u ∧ g ≠ i := by
    intro v g hv
    constructor
    · rintro rfl
      rw [hu] at hv
      cases hv
    · rintro rfl
      have hm := h.made hv
      rw [hi] at hm
      cases hm
  refine ⟨fun {j g} hj => ?_, fun {j g} hj hin => ?_, fun {v g} hv => ?_, fun {v g} hv => ?_⟩
  · by_cases e : j = i
    · subst e
      rw [hs, assign_same] at hj ⊢
      cases hj
      exact ⟨u, rfl, by rw [hl, Directory.get?_insert, if_pos rfl]⟩
    · rw [hs, assign_ne _ _ e] at hj ⊢
      obtain ⟨v, hv, hvg⟩ := h.held hj
      exact ⟨v, hv, by rw [hl, Directory.get?_insert, if_neg (old hvg).1, hvg]⟩
  · by_cases e : j = i
    · subst e
      rw [hs, assign_same] at hin
      cases hin
    · rw [hs, assign_ne _ _ e] at hj hin
      obtain ⟨v, -, hvg⟩ := h.held hj
      rw [hg, assign_ne _ _ (old hvg).2]
      exact h.turn hj hin
  · rw [hl, Directory.get?_insert] at hv
    split at hv
    · next e =>
      cases hv
      rw [hs, assign_same, e]
    · rw [hs, assign_ne _ _ (old hv).2]
      exact h.made hv
  · rw [hl, Directory.get?_insert] at hv
    split at hv
    · cases hv
      refine ⟨[i], List.nodup_cons.2 ⟨List.not_mem_nil, .nil⟩, List.cons_ne_nil _ _, fun j => ?_, ?_⟩
      · rw [List.mem_singleton, hs, assign_apply]
        split
        · next e => simp [e]
        · next e => simp [e, h.fresh hi j]
      · rw [hg, assign_same, List.length_singleton]
    · obtain ⟨holders, hn, hne, hmem, hr⟩ := h.count hv
      refine ⟨holders, hn, hne, fun j => ?_, ?_⟩
      · rw [hmem, hs, assign_apply]
        split
        · next e =>
          rw [e, hi]
          simp [Ne.symm (old hv).2]
        · rfl
      · rw [hg, assign_ne _ _ (old hv).2, hr]

theorem takeTurn (h : Gated s) {i g : CallId} {u : String}
    (hi : s.standing i = ⟨some u, some g, false⟩) (ho : (s.gates g).owner = none)
    (hl : t.logins = s.logins)
    (hg : t.gates = assign s.gates g { s.gates g with owner := some i })
    (hs : t.standing = assign s.standing i ⟨some u, some g, true⟩) : Gated t := by
  have hgate : ∀ j, (t.standing j).gate = (s.standing j).gate := by
    rw [hs]
    exact proj_assign _ _ Standing.gate (by rw [hi])
  have huser : ∀ j, (t.standing j).user = (s.standing j).user := by
    rw [hs]
    exact proj_assign _ _ Standing.user (by rw [hi])
  refine ⟨fun hj => ?_, fun {j g'} hj hin => ?_, fun hv => ?_, fun {v g'} hv => ?_⟩
  · rw [hgate] at hj
    rw [huser, hl]
    exact h.held hj
  · rw [hgate] at hj
    by_cases e : j = i
    · subst e
      rw [hi] at hj
      cases hj
      rw [hg, assign_same]
    · rw [hs, assign_ne _ _ e] at hin
      have hj' := h.turn hj hin
      rw [hg, assign_ne]
      · exact hj'
      · rintro rfl
        rw [ho] at hj'
        cases hj'
  · rw [hl] at hv
    rw [huser]
    exact h.made hv
  · rw [hl] at hv
    obtain ⟨holders, hn, hne, hmem, hr⟩ := h.count hv
    refine ⟨holders, hn, hne, fun j => by rw [hgate]; exact hmem j, ?_⟩
    rw [hg, proj_assign s.gates _ Gate.references (by rfl), hr]

theorem gate_left {i j g : CallId} {x : Standing} (hs : t.standing = assign s.standing i x)
    (hx : x.gate = none) :
    (t.standing j).gate = some g ↔ j ≠ i ∧ (s.standing j).gate = some g := by
  rw [hs, assign_apply]
  split
  · next e => simp [hx, e]
  · next e => simp [e]

/-- The last holder leaves, and the gate goes. -/
theorem forget (h : Gated s) {i g : CallId} {u : String}
    (hi : s.standing i = ⟨some u, some g, true⟩) (hug : s.logins.get? u = some g)
    (h2 : (s.gates g).references = 2) (hl : t.logins = s.logins.erase u)
    (hg : t.gates = assign s.gates g { s.gates g with owner := none, references := 0 })
    (hs : t.standing = assign s.standing i ⟨some u, none, false⟩) : Gated t := by
  have huser : ∀ j, (t.standing j).user = (s.standing j).user := by
    rw [hs]
    exact proj_assign _ _ Standing.user (by rw [hi])
  obtain ⟨holders, -, -, hmem, hr⟩ := h.count hug
  have hin : i ∈ holders := (hmem i).2 (by rw [hi])
  have alone : ∀ {j}, (s.standing j).gate = some g → j = i := by
    intro j hj
    obtain ⟨k, rfl⟩ := List.length_eq_one_iff.1 (show holders.length = 1 by omega)
    rw [List.mem_singleton.1 hin, List.mem_singleton.1 ((hmem j).2 hj)]
  -- another user's gate is another one
  have other : ∀ {v g'}, t.logins.get? v = some g' → s.logins.get? v = some g' ∧ g' ≠ g := by
    intro v g' hv
    rw [hl, Directory.get?_erase] at hv
    split at hv
    · cases hv
    · next hne =>
      refine ⟨hv, ?_⟩
      rintro rfl
      exact hne (h.gate_inj hv hug)
  refine ⟨fun {j g'} hj => ?_, fun {j g'} hj hin' => ?_, fun {v g'} hv => ?_, fun {v g'} hv => ?_⟩
  · obtain ⟨hji, hj'⟩ := (gate_left hs rfl).1 hj
    obtain ⟨v, hv, hvg⟩ := h.held hj'
    refine ⟨v, by rw [huser, hv], ?_⟩
    rw [hl, Directory.get?_erase, if_neg]
    · exact hvg
    · rintro rfl
      rw [hug] at hvg
      cases hvg
      exact hji (alone hj')
  · obtain ⟨hji, hj'⟩ := (gate_left hs rfl).1 hj
    rw [hs, assign_ne _ _ hji] at hin'
    rw [hg, assign_ne]
    · exact h.turn hj' hin'
    · rintro rfl
      exact hji (alone hj')
  · rw [huser]
    exact h.made (other hv).1
  · obtain ⟨hv', hne⟩ := other hv
    obtain ⟨holders', hn', hne', hmem', hr'⟩ := h.count hv'
    refine ⟨holders', hn', hne', fun j => ?_, by rw [hg, assign_ne _ _ hne, hr']⟩
    rw [hmem', gate_left hs rfl]
    refine ⟨fun hj => ⟨?_, hj⟩, fun hj => hj.2⟩
    rintro rfl
    rw [hi] at hj
    cases hj
    exact hne rfl

/-- A holder leaves and others stay: so does the gate, at nobody's turn. -/
theorem handBack (h : Gated s) {i g : CallId} {u : String}
    (hi : s.standing i = ⟨some u, some g, true⟩)
    (h2 : ¬ (s.logins.get? u = some g ∧ (s.gates g).references = 2)) (hl : t.logins = s.logins)
    (hg : t.gates = assign s.gates g
      { s.gates g with owner := none, references := (s.gates g).references - 1 })
    (hs : t.standing = assign s.standing i ⟨some u, none, false⟩) : Gated t := by
  have huser : ∀ j, (t.standing j).user = (s.standing j).user := by
    rw [hs]
    exact proj_assign _ _ Standing.user (by rw [hi])
  have hig : (s.standing i).gate = some g := by rw [hi]
  refine ⟨fun {j g'} hj => ?_, fun {j g'} hj hin => ?_, fun hv => ?_, fun {v g'} hv => ?_⟩
  · rw [huser, hl]
    exact h.held ((gate_left hs rfl).1 hj).2
  · obtain ⟨hji, hj'⟩ := (gate_left hs rfl).1 hj
    rw [hs, assign_ne _ _ hji] at hin
    have oj := h.turn hj' hin
    rw [hg, assign_ne]
    · exact oj
    · rintro rfl
      rw [h.turn hig (by rw [hi])] at oj
      exact hji (Option.some.inj oj).symm
  · rw [hl] at hv
    rw [huser]
    exact h.made hv
  · rw [hl] at hv
    obtain ⟨holders, hn, hne, hmem, hr⟩ := h.count hv
    by_cases e : g' = g
    · subst e
      have hin : i ∈ holders := (hmem i).2 hig
      have hu : v = u := by
        obtain ⟨w, hw, hwg⟩ := h.held hig
        rw [hi] at hw
        cases hw
        exact h.gate_inj hv hwg
      subst hu
      have h1 : holders.length ≠ 1 := fun h1 => h2 ⟨hv, by omega⟩
      have hpos := List.length_pos_iff.2 hne
      have hlen := List.length_erase_of_mem hin
      refine ⟨holders.erase i, hn.erase i, List.length_pos_iff.1 (by omega), fun j => ?_, ?_⟩
      · rw [hn.mem_erase_iff, hmem, gate_left hs rfl]
      · rw [hg, assign_same]
        simp only
        omega
    · refine ⟨holders, hn, hne, fun j => ?_, by rw [hg, assign_ne _ _ e, hr]⟩
      rw [hmem, gate_left hs rfl]
      refine ⟨fun hj => ⟨?_, hj⟩, fun hj => hj.2⟩
      rintro rfl
      rw [hig] at hj
      cases hj
      exact e rfl

/-- **Every passage keeps the invariant.** -/
theorem passage (h : Gated s) (hp : Passage s t) : Gated t := by
  cases hp with
  | quiet hl hg hs => exact h.congr hl hs (fun g => by rw [hg]) (fun g => by rw [hg])
  | skip hi hl hg hs => exact h.skip hi hl hg hs
  | join hi hu hl hg hs => exact h.join hi hu hl hg hs
  | found hi hu hl hg hs => exact h.found hi hu hl hg hs
  | turn hi ho hl hg hs => exact h.takeTurn hi ho hl hg hs
  | forget hi hu h2 hl hg hs => exact h.forget hi hu h2 hl hg hs
  | handBack hi h2 hl hg hs => exact h.handBack hi h2 hl hg hs
  | pass hl hg hs =>
    exact h.congr hl hs (fun g => by rw [hg, passGate_owner]) fun g => by
      rw [hg, passGate_references]

end Gated

/-- A gate is in the directory as long as somebody holds on to it, and no longer. -/
theorem Gated.logins_eq_none (h : Gated s) (hgate : ∀ j, (s.standing j).gate = none) (u : String) :
    s.logins.get? u = none := by
  cases hu : s.logins.get? u with
  | none => rfl
  | some g =>
    obtain ⟨holders, -, hne, hmem, -⟩ := h.count hu
    obtain ⟨j, hj⟩ := List.exists_mem_of_ne_nil holders hne
    have := (hmem j).1 hj
    rw [hgate j] at this
    cases this

theorem Reachable.gated {m : Manager} (h : m.Reachable s) : Gated s := by
  induction h with
  | start => exact .start
  | step _ he ih => exact ih.passage (Shift.of_step he).passage

theorem Gated.eq_of_inside (h : Gated s) {i j : CallId} {u : String} {g g' : CallId}
    (hi : s.standing i = ⟨some u, some g, true⟩) (hj : s.standing j = ⟨some u, some g', true⟩) :
    i = j := by
  obtain ⟨v, hv, hvg⟩ := h.held (i := i) (g := g) (by rw [hi])
  obtain ⟨w, hw, hwg⟩ := h.held (i := j) (g := g') (by rw [hj])
  rw [hi] at hv
  rw [hj] at hw
  cases hv
  cases hw
  rw [hvg] at hwg
  cases hwg
  have oi := h.turn (i := i) (g := g) (by rw [hi]) (by rw [hi])
  have oj := h.turn (i := j) (g := g) (by rw [hj]) (by rw [hj])
  rw [oi] at oj
  exact Option.some.inj oj

end Manager

end Corelink
