import Corelink.Proofs.Session.Sharing
import Corelink.Proofs.Session.Withheld

/-!
# What cancels a login

A gate counts each `remove` of its user that has its look at the table, and nothing else, as long as
somebody holds on to it (`removals_step`). So what a `create` finds counted at its last look, beyond
what it has seen at its first, are the removals between the two (`removals_of_run`). It is them that
cancel the login, and nothing else does (`Reachable.cancelled_by_overlap`).
-/

namespace Corelink

namespace Manager

variable {m : Manager} {s s' t t' : State} {e : Event} {es : List Event} {i j g : CallId}
  {u p : String} {a : CreatePhase} {seen : Nat} {effects first : List Effect} {trace : Trace}

/-! ### Removals that have their look at the table -/

/-- The `remove` of `u` that has its look at the table in this event, if it is one. -/
def State.removes (s : State) (u : String) : Event → List CallId
  | .proceed i => if s.calls i = some (.remove u .called) then [i] else []
  | _ => []

theorem State.removes_cases (s : State) (u : String) (e : Event) :
    (∃ j, e = .proceed j ∧ s.calls j = some (.remove u .called) ∧ s.removes u e = [j]) ∨
      s.removes u e = [] ∧ ∀ j, s.calls j = some (.remove u .called) → e ≠ .proceed j := by
  cases e with
  | proceed i =>
    by_cases hi : s.calls i = some (.remove u .called)
    · exact .inl ⟨i, rfl, hi, if_pos hi⟩
    · refine .inr ⟨if_neg hi, fun j hj => ?_⟩
      rintro ⟨⟩
      exact hi hj
  | _ => exact .inr ⟨rfl, fun _ _ => nofun⟩

/-- The `remove`s of `u` that have their look at the table in a run, in that order. -/
def removalsOf (m : Manager) (u : String) (s : State) : List Event → List CallId
  | [] => []
  | e :: es =>
    match m.step s e with
    | some (t, _) => s.removes u e ++ removalsOf m u t es
    | none => []

theorem removalsOf_concat (hr : m.run s es = some (t, trace))
    (he : m.step t e = some (t', effects)) :
    removalsOf m u s (es ++ [e]) = removalsOf m u s es ++ t.removes u e := by
  induction es generalizing s trace with
  | nil =>
    cases hr
    simp only [List.nil_append, removalsOf, he, List.append_nil]
  | cons e' es ih =>
    obtain ⟨s', effects', rest, he', hes, -⟩ := run_cons hr
    simp only [List.cons_append, removalsOf, he', ih hes, List.append_assoc]

/-- Whether this is a `remove` of `u` that has had its look at the table. -/
def State.HasRemoved (s : State) (u : String) (j : CallId) : Prop :=
  ∃ phase, s.calls j = some (.remove u phase) ∧ phase ≠ .called

theorem hasRemoved_of_takeOut (s : State) (j : CallId) (u : String) :
    (takeOut s j u).1.HasRemoved u j := by
  unfold takeOut
  cases s.table.get? u with
  | some x => exact ⟨_, assign_same _ _ _, nofun⟩
  | none => exact ⟨_, assign_same _ _ _, nofun⟩

theorem step_takeOut (m : Manager) (hj : s.calls j = some (.remove u .called)) :
    m.step s (.proceed j) = some (takeOut s j u) := by
  simp only [step, proceed, hj, proceedRemove]

theorem eq_proceed_of_remove {phase : RemovePhase} (hcu : Custody s)
    (he : m.step s e = some (t, effects)) (hj : s.calls j = some (.remove u phase))
    (hne : t.calls j ≠ s.calls j) : e = .proceed j := by
  have hown := call?_of_changed hcu he hne
  cases e with
  | proceed =>
    cases hown
    rfl
  | call | dial | write | read =>
    cases hown
    simp [step, hj] at he
  | keepAlive | tick | ping | inbound => cases hown

theorem State.HasRemoved.step (hj : s.HasRemoved u j) (hcu : Custody s)
    (he : m.step s e = some (t, effects)) : t.HasRemoved u j := by
  obtain ⟨phase, hphase, hne⟩ := hj
  by_cases hsame : t.calls j = s.calls j
  · exact ⟨phase, hsame.trans hphase, hne⟩
  obtain rfl := eq_proceed_of_remove hcu he hphase hsame
  cases phase with
  | called => exact absurd rfl hne
  | found x remaining =>
    simp only [Manager.step, proceed, hphase, proceedRemove] at he
    cases he
    exact ⟨_, assign_same _ _ _, fun h => by cases h⟩
  | closing x next wasLive remaining =>
    obtain ⟨c', hcalls, rfl | ⟨next', rfl⟩, -⟩ := (Closes.of_step hphase rfl he).calls
    · exact ⟨.returned, by rw [hcalls, assign_same]; rfl, fun h => by cases h⟩
    · exact ⟨.closing x next' wasLive remaining, by rw [hcalls, assign_same]; rfl,
        fun h => by cases h⟩
  | returned =>
    simp only [Manager.step, proceed, hphase, proceedRemove] at he
    cases he

theorem State.HasRemoved.of_step (hj : t.HasRemoved u j) (hcu : Custody s)
    (he : m.step s e = some (t, effects)) : s.HasRemoved u j ∨ j ∈ s.removes u e := by
  obtain ⟨phase, hphase, hne⟩ := hj
  by_cases hsame : t.calls j = s.calls j
  · exact .inl ⟨phase, hsame ▸ hphase, hne⟩
  obtain ⟨r, -, hstart⟩ | ⟨c, hc⟩ := (Shift.of_step he).call_from hphase
  · cases r with
    | remove =>
      cases hstart
      exact absurd rfl hne
    | _ => cases hstart
  obtain ⟨c', hc', hreq⟩ := (Shift.of_step he).request_kept hc
  rw [hphase] at hc'
  cases hc'
  rcases c with _ | ⟨v, before⟩ | _ <;> cases hreq
  obtain rfl := eq_proceed_of_remove hcu he hc hsame
  by_cases hcalled : before = .called
  · subst hcalled
    exact .inr (by simp only [State.removes, if_pos hc, List.mem_singleton])
  · exact .inl ⟨before, hc, hcalled⟩

/-- **The removals of a run are those that had yet to have their look at its start, and have had it
at its end.** -/
theorem mem_removalsOf (hs : m.Reachable s) (hr : m.run s es = some (t, trace)) :
    j ∈ removalsOf m u s es ↔ t.HasRemoved u j ∧ ¬ s.HasRemoved u j := by
  refine (run_induction (P := fun es t _ => (s.HasRemoved u j → t.HasRemoved u j) ∧
    (j ∈ removalsOf m u s es ↔ t.HasRemoved u j ∧ ¬ s.HasRemoved u j)) ?_ ?_ hr).2
  · exact ⟨id, iff_of_false List.not_mem_nil fun h => h.2 h.1⟩
  · rintro es t t' e effects trace hrun ⟨hkept, hmem⟩ he
    have hcu := (hs.run hrun).custody
    refine ⟨fun h => (hkept h).step hcu he, ?_⟩
    rw [removalsOf_concat hrun he, List.mem_append, hmem]
    constructor
    · rintro (⟨h, hno⟩ | hj)
      · exact ⟨h.step hcu he, hno⟩
      · obtain ⟨k, rfl, hk, hone⟩ | ⟨hnil, -⟩ := t.removes_cases u e
        · cases List.mem_singleton.1 (hone ▸ hj)
          rw [step_takeOut m hk] at he
          obtain rfl : (takeOut t j u).1 = t' := congrArg Prod.fst (Option.some.inj he)
          refine ⟨hasRemoved_of_takeOut t j u, fun h => ?_⟩
          obtain ⟨phase, hphase, hne⟩ := hkept h
          rw [hk] at hphase
          cases hphase
          exact hne rfl
        · rw [hnil] at hj
          cases hj
    · rintro ⟨h, hno⟩
      exact (h.of_step hcu he).imp_left fun h => ⟨h, hno⟩

/-! ### What a gate counts -/

/-- **A gate that is held counts the removals of its user**, and nothing else. -/
theorem removals_step (hs : m.Reachable s) (he : m.step s e = some (t, effects)) {inside : Bool}
    (hi : s.standing i = ⟨some u, some g, inside⟩) :
    (t.gates g).removals = (s.gates g).removals + (s.removes u e).length := by
  obtain ⟨j, rfl, hj, hone⟩ | ⟨hnil, hno⟩ := s.removes_cases u e
  · obtain ⟨v, hv, hlogins⟩ := hs.gated.held (i := i) (g := g) (by rw [hi])
    rw [hi] at hv
    cases hv
    rw [step_takeOut m hj] at he
    obtain rfl : (takeOut s j u).1 = t := congrArg Prod.fst (Option.some.inj he)
    rw [takeOut_gates, removals_passGate hlogins, hone, List.length_singleton]
  · rw [hnil, List.length_nil, Nat.add_zero]
    refine removals_stay hs.gated (.of_step he) (fun j hj => ?_) hi
    by_cases hsame : t.calls j = s.calls j
    · rw [hsame, hj]
    · exact absurd (eq_proceed_of_remove hs.custody he hj hsame) (hno j hj)

/-- What a `create` comes to at its first look. -/
theorem first_look (hi : s.calls i = some (.create u p .called))
    (hfirst : m.step s (.proceed i) = some (s', first)) :
    (∃ x, s.liveSession? u = some x ∧ s'.calls i = some (.create u p (.returned (some x)))) ∨
      ∃ g, s'.calls i = some (.create u p (.queued g (s'.gates g).removals)) := by
  simp only [step, proceed, hi, proceedCreate, enter] at hfirst
  split at hfirst
  · next x hlive =>
    cases hfirst
    exact .inl ⟨x, hlive, assign_same _ _ _⟩
  · cases hfirst
    have hseen : (holdGate s i u).2.1 =
        ((holdGate s i u).2.2.gates (holdGate s i u).1).removals := (holdGate_spec rfl).2.2.2
    refine .inr ⟨(holdGate s i u).1, ?_⟩
    rw [go, State.setCall_calls, assign_same, State.setCall_gates, ← hseen]

/-- **At its last look, a `create` finds counted what it had seen, and the removals since.** -/
theorem removals_of_run (hs : m.Reachable s) (hi : s.calls i = some (.create u p .called))
    (hfirst : m.step s (.proceed i) = some (s', first)) (hr : m.run s' es = some (t, trace))
    (ht : t.calls i = some (.create u p a)) (hticket : a.ticket? = some (g, seen)) :
    (t.gates g).removals = seen + (removalsOf m u s' es).length := by
  have hs' : m.Reachable s' := .step hs hfirst
  refine (run_induction (P := fun es t _ => ∃ a, t.calls i = some (.create u p a) ∧ a ≠ .called ∧
    ∀ g seen, a.ticket? = some (g, seen) →
      (t.gates g).removals = seen + (removalsOf m u s' es).length) ?_ ?_ hr).elim ?_
  · obtain ⟨x, -, hreturned⟩ | ⟨g, hqueued⟩ := first_look hi hfirst
    · exact ⟨_, hreturned, nofun, nofun⟩
    · refine ⟨_, hqueued, nofun, ?_⟩
      rintro _ _ ⟨⟩
      rfl
  · rintro es t t' e effects trace hrun ⟨a, ha, hne, hcount⟩ he
    obtain ⟨b, hb, hm⟩ := (Shift.of_step he).create_on ha
    refine ⟨b, hb, hm.ne_called hne, fun g seen hticket => ?_⟩
    obtain ⟨rfl, -⟩ | hbefore := hm.ticket hticket
    · exact absurd rfl hne
    · rw [removals_step (hs'.run hrun) he (State.gate_of_ticket ha hbefore), hcount g seen hbefore,
        removalsOf_concat hrun he, List.length_append, Nat.add_assoc]
  · rintro b ⟨hb, -, hcount⟩
    rw [ht] at hb
    cases hb
    exact hcount g seen hticket

/-! ### The last look -/

theorem last_look_puts_in (hs : m.Reachable s)
    (hi : s.calls i = some (.create u p (.established g seen)))
    (hseen : (s.gates g).removals = seen) :
    ∃ t last, m.step s (.proceed i) = some (t, last) ∧ t.table = s.table.insert u i ∧
      t.calls i = some (.create u p (.leaving g (some i))) := by
  have hnone := State.liveSession?_of_get?_none (hs.orderly.cleared hi rfl)
  have he : m.step s (.proceed i) = some (settle s i u p g seen) := by
    simp only [step, proceed, hi, proceedCreate]
  rw [settle, if_neg (not_not_intro hseen), hnone] at he
  exact ⟨_, _, he, rfl, assign_same _ _ _⟩

theorem last_look_keeps_out (hi : s.calls i = some (.create u p (.established g seen)))
    (hseen : (s.gates g).removals ≠ seen) :
    ∃ t last, m.step s (.proceed i) = some (t, last) ∧ t.table = s.table ∧
      t.calls i = some (.create u p (.undoing g .mark none)) := by
  have he : m.step s (.proceed i) = some (settle s i u p g seen) := by
    simp only [step, proceed, hi, proceedCreate]
  rw [settle, if_pos hseen] at he
  exact ⟨_, _, he, rfl, assign_same _ _ _⟩

/-- **A login is cancelled by the removals that overlap it, and by nothing else.** Let a `create`
have its first look at the table, and then have its login accepted. Its last look puts its session
into the table just when no `remove` of its user has had its look in between, and then the call
gives that session. Otherwise the table stays as it is, the session never gets there under any name,
and the call gives nothing, with the connection closed. The removals in between are those of this
user that had yet to have their look at the first look of the `create`; so without one, whatever
other calls have done, the call gives its session. -/
theorem Reachable.cancelled_by_overlap (hs : m.Reachable s)
    (hi : s.calls i = some (.create u p .called))
    (hfirst : m.step s (.proceed i) = some (s', first)) (hr : m.run s' es = some (t, trace))
    (ht : t.calls i = some (.create u p (.established g seen))) :
    ∃ t' last, m.step t (.proceed i) = some (t', last) ∧
      (t'.table.get? u = some i ↔ removalsOf m u s' es = []) ∧
      (removalsOf m u s' es = [] → Gives m t' i u p (some i)) ∧
      (removalsOf m u s' es ≠ [] → t'.table = t.table ∧ Gives m t' i u p none ∧
        ∀ es' t'' trace', m.run t' es' = some (t'', trace') →
          (∀ v, t''.table.get? v ≠ some i) ∧
          (t''.calls i = some (.create u p (.returned none)) → ∃ a, t''.sessions i = some a ∧
            a.live = false ∧ a.writer = false ∧ a.keepAlive = .ended)) ∧
      (∀ j, j ∈ removalsOf m u s' es ↔ t.HasRemoved u j ∧ ¬ s'.HasRemoved u j) ∧
      ((∀ j, t.HasRemoved u j → s'.HasRemoved u j) → Gives m t' i u p (some i)) := by
  have hs' : m.Reachable s' := .step hs hfirst
  have hst : m.Reachable t := hs'.run hr
  have hcount := removals_of_run hs hi hfirst hr ht rfl
  have hmem : ∀ j, j ∈ removalsOf m u s' es ↔ t.HasRemoved u j ∧ ¬ s'.HasRemoved u j :=
    fun j => mem_removalsOf hs' hr
  have hnil : (∀ j, t.HasRemoved u j → s'.HasRemoved u j) → removalsOf m u s' es = [] :=
    fun h => List.eq_nil_iff_forall_not_mem.2 fun j hj => ((hmem j).1 hj).2 (h j ((hmem j).1 hj).1)
  generalize removalsOf m u s' es = removals at hcount hmem hnil ⊢
  cases removals with
  | nil =>
    obtain ⟨t', last, he, htable, hleaving⟩ := last_look_puts_in hst ht hcount
    have hgives : Gives m t' i u p (some i) := (Reachable.step hst he).gives hleaving rfl
    refine ⟨t', last, he, iff_of_true ?_ rfl, fun _ => hgives, fun h => absurd rfl h, hmem,
      fun _ => hgives⟩
    rw [htable, Directory.get?_insert, if_pos rfl]
  | cons j rest =>
    have hne : (t.gates g).removals ≠ seen := by
      rw [hcount, List.length_cons]
      omega
    obtain ⟨t', last, he, htable, hundoing⟩ := last_look_keeps_out (m := m) ht hne
    have ht' : m.Reachable t' := .step hst he
    refine ⟨t', last, he, iff_of_false ?_ (List.cons_ne_nil _ _),
      fun h => absurd h (List.cons_ne_nil _ _), fun _ => ⟨htable, ht'.gives hundoing rfl, ?_⟩, hmem,
      fun h => absurd (hnil h) (List.cons_ne_nil _ _)⟩
    · exact (ht'.withheld hundoing rfl nofun).1 u
    · intro es' t'' trace' hr'
      have ht'' := ht'.run hr'
      obtain ⟨b, hb, hdec, hresult⟩ := ht'.decided_of_run hundoing rfl hr'
      refine ⟨(ht''.withheld hb hdec (by rw [hresult]; exact nofun)).1, fun hreturned => ?_⟩
      obtain ⟨a₀, ha₀, -⟩ := hst.custody.owned ht (List.mem_singleton_self i)
      obtain ⟨a, ha⟩ : ∃ a, t''.sessions i = some a := by
        refine ht'.keeps (P := fun r => ∃ a, r.sessions i = some a)
          (fun _ h ⟨_, hx⟩ => h.session_kept hx) ?_ hr'
        exact (Shift.of_step he).session_kept ha₀
      obtain ⟨before, trace₀, hall⟩ := ht''.exists_run
      exact ⟨a, ha, shut_of_returned hall hreturned nofun ha⟩

/-- A login goes through beside the removal of another user, and after one of its own that was over
before. -/
theorem login_outlives_other_removals : ∃ s s' t t' first trace last,
    Reachable .loopback s ∧ s.HasRemoved "u" 0 ∧
    s.calls 1 = some (.create "u" "p" .called) ∧
    step .loopback s (.proceed 1) = some (s', first) ∧
    run .loopback s' [.proceed 1, .call 2 (.remove "v"), .proceed 1, .proceed 2,
      .proceed 1, .dial 1 .opened, .write 1 .done, .read 1 (.bytes 70 [83, 88, 49, 1, 13, 0, 0, 0,
        15, 0, 0, 1, 0, 0, 0, 0, 0, 0, 0, 0, 0, 0, 0, 0, 0, 0])] = some (t, trace) ∧
    step .loopback t (.proceed 1) = some (t', last) ∧
    t'.table.get? "u" = some 1 ∧ Gives .loopback t' 1 "u" "p" (some 1) := by
  have hs : Reachable .loopback _ := .run .start (rfl : run _ {}
    [.call 0 (.remove "u"), .proceed 0, .call 1 (.create "u" "p")] = some (_, _))
  obtain ⟨t', last, he, hput, hgives, -⟩ := @Reachable.cancelled_by_overlap _ _ _ _ [.proceed 1,
    .call 2 (.remove "v"), .proceed 1, .proceed 2, .proceed 1, .dial 1 .opened, .write 1 .done,
    .read 1 (.bytes 70 [83, 88, 49, 1, 13, 0, 0, 0, 15, 0, 0, 1, 0, 0, 0, 0, 0, 0, 0, 0, 0, 0, 0,
      0, 0, 0])] 1 1 "u" "p" 0 _ _ hs rfl rfl rfl rfl
  exact ⟨_, _, _, t', _, _, last, hs, ⟨.returned, rfl, nofun⟩, rfl, rfl, rfl, he, hput.2 rfl,
    hgives rfl⟩

end Manager

end Corelink
