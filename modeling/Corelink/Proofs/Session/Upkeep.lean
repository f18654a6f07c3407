import Corelink.Proofs.Session.Turns

/-!
# How long a gate is kept

A gate is in the directory from the first look at the table of the first `create` that needs it to
the return of the last one (`Gated.exists_gate_iff`), and between these it is one and the same for
all of them (`Gated.gate_iff`). Only the last of them to leave takes it out
(`Reachable.forgotten_iff`), so a user whom nobody is logging in costs nothing, and a removal that
finds neither session nor gate leaves no trace (`takeOut_of_nothing`).
-/

namespace Corelink

namespace Manager

variable {m : Manager} {s t : State} {e : Event} {effects : List Effect} {i j g g' : CallId}
  {u p : String} {a b : CreatePhase}

/-- Call `i` is a `create` of `u` between its first look at the table and its return. -/
def State.LogsIn (s : State) (u : String) (i : CallId) : Prop :=
  ∃ p a, s.calls i = some (.create u p a) ∧ a ≠ .called ∧
    (Call.create u p a).hasReturned = false

theorem State.LogsIn.congr (h : s.LogsIn u i) (hi : t.calls i = s.calls i) : t.LogsIn u i := by
  obtain ⟨p, a, ha, hin⟩ := h
  exact ⟨p, a, hi.trans ha, hin⟩

/-! ### Who holds on to a gate -/

theorem State.logsIn_iff :
    s.LogsIn u i ↔ (s.standing i).user = some u ∧ ∃ g, (s.standing i).gate = some g := by
  constructor
  · rintro ⟨p, a, hi, hcalled, hret⟩
    rw [standing_of_calls hi, Call.standing_create u p hcalled]
    refine ⟨rfl, ?_⟩
    cases a with
    | called => exact absurd rfl hcalled
    | returned => cases hret
    | _ => exact ⟨_, rfl⟩
  · rintro ⟨hu, g, hg⟩
    cases hi : s.calls i with
    | none => simp [standing, hi] at hg
    | some c =>
      rw [standing_of_calls hi] at hu hg
      rcases c with ⟨v, p, a⟩ | ⟨v, a⟩ | a
      · have hcalled : a ≠ .called := by
          rintro rfl
          cases hg
        rw [Call.standing_create v p hcalled] at hu hg
        cases hu
        refine ⟨p, a, hi, hcalled, ?_⟩
        cases a with
        | returned => cases hg
        | _ => rfl
      · cases hg
      · cases hg

/-- **Everybody who logs `u` in holds on to the gate of `u`.** -/
theorem Gated.gate_iff (h : Gated s) (hu : s.logins.get? u = some g) :
    (s.standing i).gate = some g ↔ s.LogsIn u i := by
  rw [State.logsIn_iff]
  constructor
  · intro hg
    obtain ⟨v, hv, hvg⟩ := h.held hg
    obtain rfl := h.gate_inj hu hvg
    exact ⟨hv, g, hg⟩
  · rintro ⟨hi, g', hg'⟩
    obtain ⟨v, hv, hvg⟩ := h.held hg'
    rw [hi] at hv
    cases hv
    rw [hu] at hvg
    cases hvg
    exact hg'

/-- **There is a gate just as long as somebody is logging in.** -/
theorem Gated.exists_gate_iff (h : Gated s) :
    (∃ g, s.logins.get? u = some g) ↔ ∃ i, s.LogsIn u i := by
  constructor
  · rintro ⟨g, hu⟩
    obtain ⟨holders, -, hne, hmem, -⟩ := h.count hu
    obtain ⟨i, hi⟩ := List.exists_mem_of_ne_nil holders hne
    exact ⟨i, (h.gate_iff hu).1 ((hmem i).1 hi)⟩
  · rintro ⟨i, hi⟩
    obtain ⟨hu, g, hg⟩ := State.logsIn_iff.1 hi
    obtain ⟨v, hv, hvg⟩ := h.held hg
    rw [hu] at hv
    cases hv
    exact ⟨g, hvg⟩

theorem Gated.get?_eq_none_iff (h : Gated s) :
    s.logins.get? u = none ↔ ∀ i, ¬ s.LogsIn u i := by
  rw [← not_exists, ← h.exists_gate_iff, not_exists, Option.eq_none_iff_forall_ne_some]

theorem Gated.logins_eq_nil (h : Gated s) (hno : ∀ v i, ¬ s.LogsIn v i) :
    s.logins.entries = [] := by
  refine List.eq_nil_iff_forall_not_mem.2 fun ⟨v, g⟩ hmem => ?_
  rw [Directory.mem_entries_iff, h.get?_eq_none_iff.2 (hno v)] at hmem
  cases hmem

/-! ### How a gate goes -/

theorem Passage.get?_eq (h : Passage s t) (hu : s.logins.get? u = some g) :
    t.logins.get? u = none ∨ t.logins.get? u = some g := by
  cases h with
  | quiet hl | skip _ hl | join _ _ hl | turn _ _ hl | handBack _ _ hl | pass hl =>
    rw [hl]
    exact .inr hu
  | @found i v _ hv hl =>
    rw [hl, Directory.get?_insert]
    split
    · next e =>
      subst e
      rw [hu] at hv
      cases hv
    · exact .inr hu
  | forget _ _ _ hl =>
    rw [hl, Directory.get?_erase]
    split
    · exact .inl rfl
    · exact .inr hu

theorem Shift.eq_of_changed (h : Shift s e t) (hi : t.calls i ≠ s.calls i)
    (hj : t.calls j ≠ s.calls j) : i = j := by
  have only : ∀ {k k' : CallId} {c : Option Call}, t.calls = assign s.calls k c →
      t.calls k' ≠ s.calls k' → k' = k := by
    intro k k' c ht hk'
    exact Decidable.byContradiction fun hne => hk' (by rw [ht, assign_ne _ _ hne])
  obtain ht | ⟨k, r, -, -, ht⟩ | ⟨k, c, c', -, -, ht⟩ := h.calls_eq
  · exact absurd (congrFun ht i) hi
  · exact (only ht hi).trans (only ht hj).symm
  · exact (only ht hi).trans (only ht hj).symm

theorem Shift.leaves (h : Shift s e t) (hi : s.LogsIn u i) (hi' : ¬ t.LogsIn u i) :
    ∃ g p result, s.calls i = some (.create u p (.leaving g result)) ∧
      t.calls i = some (.create u p (.returned result)) := by
  obtain ⟨p, a, ha, hcalled, hret⟩ := hi
  obtain ⟨b, hb, hm⟩ := h.create_on ha
  have hout : b = .called ∨ (Call.create u p b).hasReturned = true := by
    refine Decidable.byContradiction fun hin => ?_
    rw [not_or, Bool.not_eq_true] at hin
    exact hi' ⟨p, b, hb, hin⟩
  cases hm with
  | leave => exact ⟨_, _, _, ha, hb⟩
  | same =>
    obtain rfl | hb' := hout
    · exact absurd rfl hcalled
    · rw [hret] at hb'
      cases hb'
  | reuse => exact absurd rfl hcalled
  | attempt hatt => cases hatt <;> obtain hb' | hb' := hout <;> cases hb'
  | _ => obtain hb' | hb' := hout <;> cases hb'

/-- **A gate is forgotten in the release of its last holder**, and in no other step. -/
theorem Reachable.forgotten_iff (hs : m.Reachable s) (he : m.step s e = some (t, effects))
    (hu : s.logins.get? u = some g) :
    t.logins.get? u = none ↔ ∃ i p result, s.calls i = some (.create u p (.leaving g result)) ∧
      t.calls i = some (.create u p (.returned result)) ∧ ∀ j, s.LogsIn u j → j = i := by
  have hst : Shift s e t := .of_step he
  have ht : Gated t := (Reachable.step hs he).gated
  rw [ht.get?_eq_none_iff]
  constructor
  · intro hnone
    obtain ⟨i, hi⟩ := hs.gated.exists_gate_iff.1 ⟨g, hu⟩
    obtain ⟨g', p, result, hleaving, hreturned⟩ := hst.leaves hi (hnone i)
    have hgate := (hs.gated.gate_iff hu).2 hi
    rw [State.standing_of_calls hleaving] at hgate
    cases hgate
    refine ⟨i, p, result, hleaving, hreturned, fun j hj => ?_⟩
    obtain ⟨g', q, result', hleaving', -⟩ := hst.leaves hj (hnone j)
    exact hs.gated.create_unique hleaving' hleaving rfl rfl
  · rintro ⟨i, p, result, hleaving, hreturned, honly⟩ j hj
    have hchanged : t.calls i ≠ s.calls i := by
      rw [hleaving, hreturned]
      nofun
    have hji : j = i := by
      by_cases hj' : s.LogsIn u j
      · exact honly j hj'
      · exact hst.eq_of_changed (fun hsame => hj' (hj.congr hsame.symm)) hchanged
    subst hji
    obtain ⟨q, a, ha, -, hret⟩ := hj
    rw [hreturned] at ha
    cases ha
    cases hret

/-! ### Removals that find nothing -/

theorem passGate_of_none (hu : s.logins.get? u = none) : passGate s u = s := by
  simp only [passGate, hu]

theorem takeOut_of_nothing (htable : s.table.get? u = none) (hgate : s.logins.get? u = none) :
    takeOut s i u = (s.setCall i (.remove u .returned), [.noted (.noSession u)]) := by
  have herase : { s with table := s.table.erase u } = s := by
    rw [Directory.erase_of_get?_none htable]
  simp only [takeOut, passGate_of_none hgate, htable, hgate, herase]
  rfl

/-- **Gates are kept just as long as they are needed.** In every reachable state there is a gate
for a user if and only if a `create` of that user is between its first look at the table and its
return. All these hold on to that one gate, and its references are one for each of them and one for
the directory. It stays the same gate until it is forgotten, which is in the release of the last of
them and in no other step. So without any such `create` there are no gates; and a removal that finds
no session and nobody logging in changes nothing. -/
theorem Reachable.gates_kept_as_needed (hs : m.Reachable s) :
    (∀ u, (∃ g, s.logins.get? u = some g) ↔ ∃ i, s.LogsIn u i) ∧
    (∀ u g, s.logins.get? u = some g →
      (∀ i p a, s.calls i = some (.create u p a) → s.LogsIn u i → a.gate? = some g) ∧
      ∃ holders : List CallId, holders.Nodup ∧ (∀ i, i ∈ holders ↔ s.LogsIn u i) ∧
        (s.gates g).references = 1 + holders.length) ∧
    (∀ u g e t effects, s.logins.get? u = some g → m.step s e = some (t, effects) →
      (t.logins.get? u = none ∨ t.logins.get? u = some g) ∧
      (t.logins.get? u = none ↔ ∃ i p result,
        s.calls i = some (.create u p (.leaving g result)) ∧
        t.calls i = some (.create u p (.returned result)) ∧ ∀ j, s.LogsIn u j → j = i)) ∧
    ((∀ u i, ¬ s.LogsIn u i) → s.logins.entries = []) ∧
    ∀ i u, s.calls i = some (.remove u .called) → s.table.get? u = none →
      (∀ j, ¬ s.LogsIn u j) → m.step s (.proceed i) =
        some (s.setCall i (.remove u .returned), [.noted (.noSession u)]) := by
  have hg := hs.gated
  refine ⟨fun u => hg.exists_gate_iff, fun u g hu => ⟨fun i p a hi hin => ?_, ?_⟩,
    fun u g e t effects hu he => ⟨(Shift.of_step he).passage.get?_eq hu, hs.forgotten_iff he hu⟩,
    hg.logins_eq_nil, fun i u hi htable hno => ?_⟩
  · have hgate := (hg.gate_iff hu).2 hin
    rw [State.standing_of_calls hi] at hgate
    cases a with
    | called => cases hgate
    | _ => exact hgate
  · obtain ⟨holders, hnodup, -, hmem, hcount⟩ := hg.count hu
    refine ⟨holders, hnodup, fun i => (hmem i).trans (hg.gate_iff hu), ?_⟩
    rw [hcount, Nat.add_comm]
  · simp only [Manager.step, proceed, hi, proceedRemove]
    rw [takeOut_of_nothing htable (hg.get?_eq_none_iff.2 hno)]

/-- A login that cannot connect is the last to hold on to its gate and takes it along, so a removal
after it finds nothing. -/
theorem gate_leaves_with_login : ∃ s t effects, Reachable .loopback s ∧
    s.logins.get? "u" = some 0 ∧ (∀ i, s.LogsIn "u" i ↔ i = 0) ∧
    Manager.step .loopback s (.proceed 0) = some (t, effects) ∧
    t.logins.get? "u" = none ∧ t.logins.entries = [] ∧
    Manager.step .loopback t (.proceed 1) =
      some (t.setCall 1 (.remove "u" .returned), [.noted (.noSession "u")]) := by
  have hs : Reachable .loopback _ := .run .start (rfl : run _ {}
    [.call 0 (.create "u" "p"), .call 1 (.remove "u"), .proceed 0, .proceed 0, .proceed 0,
      .proceed 0, .dial 0 (.failed .refused)] = some (_, _))
  have ht := Reachable.step (e := .proceed 0) hs rfl
  obtain ⟨-, hholders, hforgotten, -, -⟩ := hs.gates_kept_as_needed
  obtain ⟨-, -, -, hempty, hremove⟩ := ht.gates_kept_as_needed
  obtain ⟨-, holders, -, hmem, hcount⟩ := hholders "u" 0 rfl
  have htwo : 2 = 1 + holders.length := hcount
  obtain ⟨k, rfl⟩ := List.length_eq_one_iff.1 (show holders.length = 1 by omega)
  obtain rfl : 0 = k := List.mem_singleton.1 ((hmem 0).2 ⟨"p", .leaving 0 none, rfl, nofun, rfl⟩)
  have honly : ∀ i, State.LogsIn _ "u" i ↔ i = 0 := fun i => (hmem i).symm.trans List.mem_singleton
  have hnone := (hforgotten "u" 0 (.proceed 0) _ _ rfl rfl).2.2
    ⟨0, "p", none, rfl, rfl, fun j => (honly j).1⟩
  have hno := ht.gated.get?_eq_none_iff.1 hnone
  exact ⟨_, _, _, hs, rfl, honly, rfl, hnone, rfl, hremove 1 "u" rfl rfl hno⟩

end Manager

end Corelink
