import Corelink.Proofs.Session.Completion
import Corelink.Proofs.Session.Sharing

/-!
# What a call left alone comes to

A call with no other beside it does to the ledger just what the ledger says
(`Reachable.complete_pays`), and nothing fails on the way: the only keep-alive that moves is the one
whose end the call awaits, and that session is in the table no more (`Owes.not_awaited`). Whatever
other calls there are, a `create` leaves the sessions of other users alone and opens at most one
connection, and that only where its user has no session (`create_elsewhere`, `create_opens`).
-/

namespace Corelink

open Wire

theorem Ledger.fail_eq_self {M : Ledger} {x : CallId} (h : ∀ v live, M v ≠ some (x, live)) :
    M.fail x = M := by
  funext v
  rw [fail_apply, if_neg]
  intro hx
  obtain ⟨⟨y, live⟩, hv, hy⟩ := Option.map_eq_some_iff.1 hx
  cases hy
  exact h v live hv

namespace Manager

variable {m : Manager} {peer : Peer} {s t : State} {e : Event} {i x : CallId} {c : Call}
  {next : Closing} {reads : List ReadResult} {M : Ledger} {result : Option CallId}
  {opened : List CallId} {u p v : String} {a : CreatePhase} {effects : List Effect}

/-! ### The events of a call left alone -/

theorem Event.session?_of_call? (h : e.call? = some i) : e.session? = none := by
  cases e <;> first | rfl | cases h

theorem closingEvent_cases (s : State) (i x : CallId) (next : Closing) :
    closingEvent s i x next = .proceed i ∨ closingEvent s i x next = keepAliveEvent s x := by
  unfold closingEvent
  split
  · split
    · exact .inl rfl
    · exact .inr rfl
  · exact .inl rfl

theorem nextEvent_cases (hc : s.calls i = some c) (hn : nextEvent peer s reads i = some e) :
    e.call? = some i ∨ ∃ x next, c.closing? i = some (x, next) ∧ e = keepAliveEvent s x := by
  cases hx : c.closing? i with
  | some xn =>
    obtain ⟨x, next⟩ := xn
    rw [nextEvent_of_closing hc hx] at hn
    cases hn
    obtain hown | hkeep := closingEvent_cases s i x next
    · exact .inl (by rw [hown]; rfl)
    · exact .inr ⟨x, next, rfl, hkeep⟩
  | none =>
    unfold nextEvent at hn
    rcases c with ⟨u, p, phase⟩ | ⟨u, phase⟩ | phase
    · cases phase <;> simp only [hc] at hn <;> cases hn <;> first | exact .inl rfl | cases hx
    · cases phase <;> simp only [hc] at hn <;> cases hn <;> first | exact .inl rfl | cases hx
    · rcases phase with _ | ⟨total, _ | _, next⟩ | _ <;> simp only [hc] at hn <;> cases hn <;>
        first | exact .inl rfl | cases hx

/-! ### With no other call -/

theorem Owes.not_awaited (hs : m.Reachable s) (hc : s.calls i = some c)
    (h : Owes m peer i s M reads c result opened) (hx : c.closing? i = some (x, next)) (v : String)
    (live : Bool) : M v ≠ some (x, live) := by
  -- whose entry is out of the table, and whose ledger is `M`
  have gone : ∀ {w : String}, c.username? = some w → x ∈ c.owned i → s.table.get? w = none →
      ∀ v, s.ledger v ≠ some (x, live) := fun hw hown hnone v hv =>
    hs.custody.not_listed hc hown hw hnone v (State.ledger_eq_some_iff.1 hv).1
  cases h with
  | @create u p a g seen hcreate =>
    have hticket := hcreate.ticket
    cases a with
    | discarding g seen y next =>
      cases hx
      by_cases hv : v = u
      · subst hv
        rw [hcreate.here]
        obtain ⟨b, hb, -⟩ := hs.custody.owned hc (List.mem_singleton_self x)
        split
        · rintro heq
          cases heq
          rw [hs.custody.sessions_eq_none hc rfl] at hb
          cases hb
        · nofun
      · rw [← hcreate.elsewhere v hv]
        exact gone rfl (List.mem_singleton_self x) (hs.orderly.cleared hc rfl) v
    | undoing => cases hticket
    | _ => cases hx
  | leaving | returned => cases hx
  | @remove u phase hph hM hu =>
    cases phase with
    | closing y next wasLive remaining =>
      cases hx
      rw [← hM]
      exact gone rfl (List.mem_singleton_self x) hu v
    | _ => cases hx
  | shutdown _ _ hM =>
    rw [hM]
    nofun

/-- Steps that leave all other calls alone may come first. -/
theorem Paid.after {r : State} (h : Paid m i t r M result)
    (hothers : ∀ j, j ≠ i → t.calls j = s.calls j) : Paid m i s r M result where
  reachable := h.reachable
  ledger := h.ledger
  result := h.result
  returned := h.returned
  others j hj := (h.others j hj).trans (hothers j hj)

theorem Owes.settled {q : Progress} (hs : m.Reachable q.state) (hc : q.state.calls i = some c)
    (h : Owes m peer i q.state M q.reads c result opened) (hret : c.hasReturned = true) :
    Paid m i q.state q.state M result ∧ openings q.effects = openings q.effects ++ opened := by
  obtain ⟨hpaid, rfl⟩ := h.paid hs hc hret
  exact ⟨hpaid, (List.append_nil _).symm⟩

/-- **A call that is followed to its return pays just what it owes.** -/
theorem advance_pays {n : Nat} {q : Progress} (hs : m.Reachable q.state)
    (hc : q.state.calls i = some c) (h : Owes m peer i q.state M q.reads c result opened)
    (hn : q.state.toReturn peer q.reads i c ≤ n) :
    Paid m i q.state (m.advance peer false i n q).state M result ∧
      openings (m.advance peer false i n q).effects = openings q.effects ++ opened := by
  induction n generalizing q c opened with
  | zero => exact h.settled hs hc (State.hasReturned_of_toReturn (Nat.le_zero.1 hn))
  | succ n ih =>
    cases hret : c.hasReturned with
    | true =>
      rw [advance_of_none (nextEvent_of_hasReturned hc hret)]
      exact h.settled hs hc hret
    | false =>
      obtain ⟨e, t, effects, hnext, he, hown | ⟨x, hx, hreads, hcalls, hlt⟩⟩ :=
        h.progress hs hc hret
      · obtain ⟨c', opened', hcalls, howes, rfl, hlt⟩ := h.own hs hc hnext hown he
        rw [advance_of_some hnext he]
        obtain ⟨hpaid, hopened⟩ :=
          ih (q := ⟨t, readsAfter peer q.reads q.state e, q.effects ++ effects⟩) (.step hs he)
            (by rw [hcalls, assign_same]) howes (Nat.le_of_lt_succ (Nat.lt_of_lt_of_le hlt hn))
        refine ⟨hpaid.after fun j hj => by rw [hcalls, assign_ne _ _ hj], ?_⟩
        rw [hopened, openings_append, List.append_assoc]
      · -- the session that moves is the one that the call closes
        obtain hcall | ⟨y, next, hclosing, rfl⟩ := nextEvent_cases hc hnext
        · rw [Event.session?_of_call? hcall] at hx
          cases hx
        rw [session?_keepAliveEvent] at hx
        obtain rfl : y = x := Option.some.inj hx
        obtain ⟨b, b', hb, rfl, hr⟩ := session_event (session?_keepAliveEvent _ _) he
        have howes := h.event hb hr
        have hM : M.failAll (failures y effects) = M := by
          unfold failures
          split
          · exact Ledger.fail_eq_self (h.not_awaited hs hc hclosing)
          · rfl
        rw [hM] at howes
        rw [advance_of_some hnext he, hreads]
        obtain ⟨hpaid, hopened⟩ := ih
          (q := ⟨q.state.setSession y b', q.reads, q.effects ++ effects⟩) (.step hs he) hc howes
          (Nat.le_of_lt_succ (Nat.lt_of_lt_of_le hlt hn))
        refine ⟨hpaid.after fun _ _ => rfl, ?_⟩
        rw [hopened, openings_append, hr.openings, List.append_nil]

/-- **A call left alone does what the ledger says**: it returns with what the ledger gives, opens
the connections that it says, and leaves the ledger that it says. -/
theorem Reachable.complete_pays (hs : m.Reachable s) (hidle : s.Idle) (hi : s.calls i = none)
    (r : Request) (peer : Peer) :
    Paid m i s (m.complete s i r peer).state (s.ledger.call m i peer r).ledger
        (s.ledger.call m i peer r).result ∧
      openings (m.complete s i r peer).effects = (s.ledger.call m i peer r).opened := by
  have hcall : m.step s (.call i r) = some (s.setCall i r.start, []) := if_pos hi
  have hs' : m.Reachable (s.setCall i r.start) := .step hs hcall
  have hc : (s.setCall i r.start).calls i = some r.start := assign_same _ _ _
  obtain ⟨⟨t, effects⟩, hlook⟩ := Option.isSome_iff_exists.1 (step_start m hc)
  obtain ⟨c, opened, hcalls, howes, hopened, hlt⟩ :=
    GoesOn.of_look peer hs' (hidle.only_of_setCall i r.start) hc hlook
  have hfuel := Nat.lt_of_lt_of_le hlt (toReturn_start_le _ i r peer)
  obtain ⟨n, hn⟩ := Nat.exists_eq_add_one_of_ne_zero (Nat.ne_of_gt (Nat.zero_lt_of_lt hfuel))
  obtain ⟨hpaid, heffects⟩ := advance_pays (q := ⟨t, [], effects⟩) (.step hs' hlook)
    (by rw [hcalls, assign_same]) howes (Nat.le_of_lt_succ (hn ▸ hfuel))
  rw [State.ledger_setCall] at hpaid hopened
  rw [complete_eq_advance hi hlook hn]
  refine ⟨hpaid.after fun j hj => ?_, heffects.trans hopened⟩
  rw [hcalls, assign_ne _ _ hj, State.setCall_calls, assign_ne _ _ hj]

/-! ### Whatever other calls there are -/

theorem CreateMove.hasDialled {b : CreatePhase} (h : CreateMove s t i u a b)
    (ha : a.hasDialled = true) : b.hasDialled = true := by
  cases h with
  | same => exact ha
  | attempt hatt => cases hatt <;> first | rfl | cases ha
  | cancel | yield | insert | undoOn | undone | leave | establish => rfl
  | _ => cases ha

/-- A call changes the table at its own user's name, unless it takes out everything. -/
theorem Shift.eq_of_table_changed (h : Shift s e t) (hne : t.table.get? v ≠ s.table.get? v) :
    ∃ k c, s.calls k = some c ∧ t.calls k ≠ some c ∧
      (c.username? = some v ∨ c = .shutdown .called) := by
  cases h with
  | @clear _ k g w q seen hk =>
    refine ⟨k, _, hk, ?_, .inl ?_⟩
    · rw [State.setCall_calls, assign_same]
      split <;> nofun
    · rw [State.setCall_table, Directory.get?_erase] at hne
      split at hne
      · next hv => rw [hv]; rfl
      · exact absurd rfl hne
  | @takeOut _ k w hk =>
    refine ⟨k, _, hk, ?_, .inl ?_⟩
    · rw [State.setCall_calls, assign_same]
      split <;> nofun
    · rw [State.setCall_table, Directory.get?_erase] at hne
      split at hne
      · next hv => rw [hv]; rfl
      · exact absurd rfl hne
  | @drain _ k hk =>
    refine ⟨k, _, hk, ?_, .inr rfl⟩
    rw [State.setCall_calls, assign_same]
    nofun
  | @insert _ k g w q seen hk =>
    refine ⟨k, _, hk, ?_, .inl ?_⟩
    · rw [State.setCall_calls, assign_same]
      nofun
    · rw [State.setCall_table, Directory.get?_insert] at hne
      split at hne
      · next hv => rw [hv]; rfl
      · exact absurd rfl hne
  | queue _ _ hg =>
    rw [State.setCall_table, (holdGate_spec hg).1] at hne
    exact absurd rfl hne
  | leave =>
    rw [State.setCall_table, releaseGate_table] at hne
    exact absurd rfl hne
  | _ => exact absurd rfl hne

/-- **A `create` leaves the sessions of other users alone**, whatever step it takes. -/
theorem create_elsewhere (hs : m.Reachable s) (hc : s.calls i = some (.create u p a))
    (hi : e.call? = some i) (he : m.step s e = some (t, effects)) (hv : v ≠ u) :
    t.table.get? v = s.table.get? v := by
  refine Decidable.byContradiction fun hne => ?_
  obtain ⟨k, c, hk, hchanged, hc'⟩ := (Shift.of_step he).eq_of_table_changed hne
  have hki := call?_of_changed hs.custody he (hk ▸ hchanged)
  rw [hi] at hki
  cases hki
  rw [hc] at hk
  cases hk
  obtain hu | hshutdown := hc'
  · cases hu
    exact hv rfl
  · cases hshutdown

/-- **A `create` opens a connection only where its user has no session**, and only one. -/
theorem create_opens (hs : m.Reachable s) (hc : s.calls i = some (.create u p a))
    (hi : e.call? = some i) (he : m.step s e = some (t, effects)) :
    openings effects = [] ∨ openings effects = [i] ∧ s.table.get? u = none ∧
      a.hasDialled = false ∧ ∃ b, t.calls i = some (.create u p b) ∧ b.hasDialled = true := by
  by_cases hdial : ∃ j r, e = .dial j r
  · obtain ⟨j, r, rfl⟩ := hdial
    cases hi
    obtain ⟨w, q, g, seen, payload, b, hc', hb, ⟨hopened, hdialled⟩ | ⟨hnone, -⟩⟩ := dial_spec he
    · rw [hc] at hc'
      cases hc'
      exact .inr ⟨hopened, hs.orderly.cleared hc rfl, rfl, b, hb, hdialled⟩
    · exact .inl hnone
  · exact .inl (openings_eq_nil he fun j r h => hdial ⟨j, r, h⟩)

/-- How far a `create` has got that came in with the table as it was in `s`: the table has changed
at its user's name at most, and it has opened its own connection at most. -/
structure Onward (m : Manager) (s : State) (i : CallId) (u p : String) (q : Progress) : Prop where
  reachable : m.Reachable q.state
  elsewhere : ∀ v, v ≠ u → q.state.table.get? v = s.table.get? v
  opened : openings q.effects = [] ∨ openings q.effects = [i]
  phase : ∃ a, q.state.calls i = some (.create u p a) ∧
    (a.hasDialled = false → openings q.effects = [])

theorem Onward.step {q : Progress} (h : Onward m s i u p q)
    (hn : nextEvent peer q.state q.reads i = some e) (he : m.step q.state e = some (t, effects)) :
    Onward m s i u p ⟨t, readsAfter peer q.reads q.state e, q.effects ++ effects⟩ := by
  obtain ⟨a, hc, hnone⟩ := h.phase
  obtain hcall | ⟨x, next, -, rfl⟩ := nextEvent_cases hc hn
  · obtain ⟨b, hb, hm⟩ := (Shift.of_step he).create_on hc
    have helsewhere : ∀ v, v ≠ u → t.table.get? v = s.table.get? v := fun v hv =>
      (create_elsewhere h.reachable hc hcall he hv).trans (h.elsewhere v hv)
    obtain hopen | ⟨hopen, -, hundialled, b', hb', hdialled⟩ := create_opens h.reachable hc hcall he
    · refine ⟨.step h.reachable he, helsewhere, ?_, b, hb, fun hbno => ?_⟩
      · rw [openings_append, hopen, List.append_nil]
        exact h.opened
      · rw [openings_append, hopen, List.append_nil]
        refine hnone (Bool.eq_false_iff.2 fun ha => ?_)
        rw [hm.hasDialled ha] at hbno
        cases hbno
    · have hopened : openings (q.effects ++ effects) = [i] := by
        rw [openings_append, hnone hundialled, hopen]
        rfl
      refine ⟨.step h.reachable he, helsewhere, .inr hopened, b', hb', fun hbno => ?_⟩
      rw [hdialled] at hbno
      cases hbno
  · obtain ⟨b, b', hb, rfl, hr⟩ := session_event (session?_keepAliveEvent _ _) he
    have hopened : openings (q.effects ++ effects) = openings q.effects := by
      rw [openings_append, hr.openings, List.append_nil]
    exact ⟨.step h.reachable he, h.elsewhere, hopened ▸ h.opened, a, hc, hopened ▸ hnone⟩

theorem Onward.advance {q : Progress} (h : Onward m s i u p q) (n : Nat) :
    Onward m s i u p (m.advance peer false i n q) := by
  induction n generalizing q with
  | zero => exact h
  | succ n ih =>
    cases hn : nextEvent peer q.state q.reads i with
    | none =>
      rw [advance_of_none hn]
      exact h
    | some e =>
      cases he : m.step q.state e with
      | none =>
        rw [Manager.advance]
        simp only [hn, he, Bool.false_and, Bool.false_eq_true, if_false]
        exact h
      | some r =>
        rw [advance_of_some hn he]
        exact ih (h.step hn he)

/-- **What a `create` that is followed as far as it gets does**, from every state. -/
theorem Reachable.complete_onward (hs : m.Reachable s) (hi : s.calls i = none) (u p : String)
    (peer : Peer) : Onward m s i u p (m.complete s i (.create u p) peer) := by
  have hcall : m.step s (.call i (.create u p)) =
    some (s.setCall i (Request.create u p).start, []) := if_pos hi
  have hstart : Onward m s i u p ⟨s.setCall i (Request.create u p).start, [], []⟩ :=
    ⟨.step hs hcall, fun _ _ => rfl, .inl rfl, .called, assign_same _ _ _, fun _ => rfl⟩
  rw [Manager.complete, hcall]
  exact hstart.advance _

theorem complete_of_hasSession (hi : s.calls i = none) (hlive : s.hasSession u = true) :
    openings (m.complete s i (.create u p) peer).effects = [] := by
  obtain ⟨x, hx⟩ := Option.isSome_iff_exists.1 hlive
  have hx' : (s.setCall i (.create u p .called)).liveSession? u = some x := hx
  have hlook : m.step (s.setCall i (Request.create u p).start) (.proceed i) =
      some (go (s.setCall i (.create u p .called)) i u p (.returned (some x)), []) := by
    simp only [step, proceed, Request.start, State.setCall_calls, assign_same, proceedCreate,
      enter, hx']
  have hn : enough s (.create u p) peer =
      31 + 8 * s.table.size + readsFor peer (.create u p) + 1 := by
    unfold enough
    omega
  rw [complete_eq_advance hi hlook hn,
    advance_of_none (nextEvent_of_hasReturned (assign_same _ _ _) rfl)]
  rfl

end Manager

end Corelink
