import Corelink.Proofs.Session.History

/-!
# One call at a time

`Owes` says of a call on its way, with no other beside it, what it has still to do until the
ledger of the state is the ledger that the call is to leave.
-/

namespace Corelink

open Wire

/-- Whether the call has had its look at the table. -/
def RemovePhase.hasLooked : RemovePhase → Bool
  | called => false
  | _ => true

/-- Whether the call has had its look at the table. -/
def ShutdownPhase.hasLooked : ShutdownPhase → Bool
  | called => false
  | _ => true

namespace Manager

variable {m : Manager} {peer : Peer} {s t : State} {e : Event} {i x g : CallId} {u p : String}
  {effects : List Effect} {reads : List ReadResult} {a : CreatePhase} {seen : Nat}
  {M : Ledger} {c : Call} {result : Option CallId} {opened : List CallId}

/-! ### What a call owes -/

/-- A `create` that has found no session alive, and has not put one in yet: `M` is to be the
ledger, with the session as alive as it is by now. -/
structure Underway (m : Manager) (peer : Peer) (i : CallId) (s : State) (M : Ledger)
    (reads : List ReadResult) (u p : String) (a : CreatePhase) (g : CallId) (seen : Nat) :
    Prop where
  ticket : a.ticket? = some (g, seen)
  counted : (s.gates g).removals = seen
  free : a = .queued g seen → (s.gates g).owner = none
  dead : a.hasCleared = false → s.liveSession? u = none
  elsewhere : ∀ v, v ≠ u → s.ledger v = M v
  here : M u = if m.accepts u p peer then some (i, (s.sessions i).all (·.live)) else none
  agrees : a.Agrees m u p peer reads

/-- What call `i` still owes: the ledger is to be `M` when it returns, and it is to give `result`
and to open the connections in `opened`. -/
inductive Owes (m : Manager) (peer : Peer) (i : CallId) (s : State) (M : Ledger)
    (reads : List ReadResult) : Call → Option CallId → List CallId → Prop where
  | create {u p : String} {a : CreatePhase} {g : CallId} {seen : Nat} :
    Underway m peer i s M reads u p a g seen →
    Owes m peer i s M reads (.create u p a) (if m.accepts u p peer then some i else none)
      (a.yetToOpen m u p peer i)
  | leaving {u p : String} {g : CallId} {result : Option CallId} : s.ledger = M →
    Owes m peer i s M reads (.create u p (.leaving g result)) result []
  | returned {u p : String} {result : Option CallId} : s.ledger = M →
    Owes m peer i s M reads (.create u p (.returned result)) result []
  | remove {u : String} {phase : RemovePhase} : phase.hasLooked = true → s.ledger = M →
    s.table.get? u = none → Owes m peer i s M reads (.remove u phase) none []
  | shutdown {phase : ShutdownPhase} : phase.hasLooked = true → s.table = .empty → M = .empty →
    Owes m peer i s M reads (.shutdown phase) none []

/-! ### Events of sessions -/

theorem Reports.here {b b' : Session} (hr : Reports b b' effects) (hb : s.sessions x = some b)
    (hM : M u = some (i, (s.sessions i).all (·.live))) :
    M.failAll (failures x effects) u = some (i, ((s.setSession x b').sessions i).all (·.live)) := by
  have hlive := hr.live
  rw [State.setSession_sessions, assign_apply]
  unfold failures
  by_cases hi : i = x
  · subst hi
    rw [hb, Option.all_some] at hM
    rw [if_pos rfl, Option.all_some, hlive]
    split <;> rename_i hstop <;> simp [Ledger.fail, hM, hstop]
  · rw [if_neg hi]
    split <;> simp [Ledger.fail, hM, hi]

theorem Underway.event {b b' : Session} (h : Underway m peer i s M reads u p a g seen)
    (hb : s.sessions x = some b) (hr : Reports b b' effects) :
    Underway m peer i (s.setSession x b') (M.failAll (failures x effects)) reads u p a g seen where
  ticket := h.ticket
  counted := h.counted
  free := h.free
  dead ha := by
    have hdead := h.dead ha
    rw [State.liveSession?_eq] at hdead ⊢
    rw [hr.ledger hb]
    exact Ledger.session?_failAll hdead _
  elsewhere v hv := by
    rw [hr.ledger hb]
    exact Ledger.failAll_congr (h.elsewhere v hv) _
  here := by
    have hhere := h.here
    split at hhere <;> rename_i hacc
    · rw [if_pos hacc]
      exact hr.here hb hhere
    · rw [if_neg hacc, Ledger.failAll_congr (show M u = Ledger.empty u from hhere),
        Ledger.failAll_empty]
      rfl
  agrees := h.agrees

theorem Owes.event {b b' : Session} (h : Owes m peer i s M reads c result opened)
    (hb : s.sessions x = some b) (hr : Reports b b' effects) :
    Owes m peer i (s.setSession x b') (M.failAll (failures x effects)) reads c result opened := by
  have hledger : s.ledger = M →
      (s.setSession x b').ledger = M.failAll (failures x effects) := by
    rintro rfl
    exact hr.ledger hb
  cases h with
  | create hc => exact .create (hc.event hb hr)
  | leaving hM => exact .leaving (hledger hM)
  | returned hM => exact .returned (hledger hM)
  | remove hph hM hu => exact .remove hph (hledger hM) hu
  | shutdown hph ht hM =>
    subst hM
    exact .shutdown hph ht (Ledger.failAll_empty _)

/-! ### Steps of the call -/

/-- Call `i` has gone on from `c` in `s` to `t`, nearer to its return, and owes what is left. -/
def GoesOn (m : Manager) (peer : Peer) (i : CallId) (s t : State) (M : Ledger)
    (reads reads' : List ReadResult) (c : Call) (result : Option CallId) (opened : List CallId)
    (effects : List Effect) : Prop :=
  ∃ c' opened', t.calls = assign s.calls i (some c') ∧
    Owes m peer i t M reads' c' result opened' ∧ openings effects ++ opened' = opened ∧
    t.toReturn peer reads' i c' < s.toReturn peer reads i c

/-- The same for a `create` that has found no session alive: all that it owes is in its phase. -/
def CreateGoesOn (m : Manager) (peer : Peer) (i : CallId) (s t : State) (M : Ledger)
    (reads reads' : List ReadResult) (u p : String) (a : CreatePhase) (effects : List Effect) :
    Prop :=
  GoesOn m peer i s t M reads reads' (.create u p a) (if m.accepts u p peer then some i else none)
    (a.yetToOpen m u p peer i) effects

theorem Underway.move {b : CreatePhase} {reads' : List ReadResult}
    (h : Underway m peer i s M reads u p a g seen) (hb : b.ticket? = some (g, seen))
    (hcl : b.hasCleared = true ∨ b = .admitted g seen ∧ t.liveSession? u = none)
    (hl : ∀ v, v ≠ u → t.ledger v = s.ledger v) (hi : t.sessions i = s.sessions i)
    (hg : (t.gates g).removals = (s.gates g).removals) (hag : b.Agrees m u p peer reads') :
    Underway m peer i t M reads' u p b g seen where
  ticket := hb
  counted := hg.trans h.counted
  free hq := by
    subst hq
    obtain hcl | ⟨hcl, -⟩ := hcl <;> cases hcl
  dead hcl' := by
    obtain hcl | ⟨-, hdead⟩ := hcl
    · rw [hcl] at hcl'
      cases hcl'
    · exact hdead
  elsewhere v hv := (hl v hv).trans (h.elsewhere v hv)
  here := by
    rw [hi]
    exact h.here
  agrees := hag

namespace GoesOn

theorem of_closes (h : Closes s t i x c effects)
    (ho : ∀ c', (c' = c.closed ∨ ∃ next, c' = c.closeOn next) →
      Owes m peer i t M reads c' result opened) :
    GoesOn m peer i s t M reads reads c result opened effects := by
  obtain ⟨c', hcalls, hc', hlt⟩ := h.calls
  exact ⟨c', opened, hcalls, ho c' hc', by rw [h.openings, List.nil_append], hlt peer reads⟩

theorem of_turn (hc : s.calls i = some (.create u p (.queued g seen)))
    (h : Underway m peer i s M reads u p (.queued g seen) g seen)
    (he : m.step s (.proceed i) = some (t, effects)) :
    CreateGoesOn m peer i s t M reads reads u p (.queued g seen) effects := by
  simp only [step, proceed, hc, proceedCreate, takeTurn, h.free rfl] at he
  cases he
  refine ⟨_, _, rfl, .create (h.move rfl (.inr ⟨rfl, h.dead rfl⟩) (fun v _ => rfl) rfl ?_ trivial),
    rfl, Nat.lt_succ_self _⟩
  exact proj_assign s.gates _ Gate.removals (by rfl) g

theorem of_reconcile (hc : s.calls i = some (.create u p (.admitted g seen)))
    (h : Underway m peer i s M reads u p (.admitted g seen) g seen)
    (he : m.step s (.proceed i) = some (t, effects)) :
    CreateGoesOn m peer i s t M reads reads u p (.admitted g seen) effects := by
  have hl : ∀ v, v ≠ u → { s with table := s.table.erase u }.ledger v = s.ledger v := by
    intro v hv
    rw [State.ledger_erase (t := { s with table := s.table.erase u }) s u rfl rfl, assign_ne _ _ hv]
  simp only [step, proceed, hc, proceedCreate, reconcile, h.dead rfl] at he
  split at he
  · next x _ =>
    cases he
    refine ⟨_, _, rfl, .create (h.move rfl (.inl rfl) hl rfl rfl trivial), rfl, ?_⟩
    have hle := State.toClose_le
      (go { s with table := s.table.erase u } i u p (.discarding g seen x .mark)) x .mark
    simp only [State.toReturn]
    omega
  · cases he
    refine ⟨_, _, rfl, .create (h.move rfl (.inl rfl) hl rfl rfl trivial), rfl, ?_⟩
    simp only [State.toReturn, CreatePhase.toAnswer]
    omega

theorem of_discard {next : Closing} (hs : m.Reachable s)
    (hc : s.calls i = some (.create u p (.discarding g seen x next)))
    (h : Underway m peer i s M reads u p (.discarding g seen x next) g seen)
    (he : m.step s (.proceed i) = some (t, effects)) :
    CreateGoesOn m peer i s t M reads reads u p (.discarding g seen x next) effects := by
  have hclose := Closes.of_step hc rfl he
  have howned : x ∈ (Call.create u p (.discarding g seen x next)).owned i :=
    List.mem_singleton_self x
  have hl := hclose.ledger (hs.custody.not_listed hc howned rfl (hs.orderly.cleared hc rfl))
  have hi : t.sessions i = s.sessions i := by
    refine hclose.sessions i ?_
    rintro rfl
    obtain ⟨a, ha, -⟩ := hs.custody.owned hc howned
    rw [hs.custody.sessions_eq_none hc rfl] at ha
    cases ha
  have hg : (t.gates g).removals = (s.gates g).removals := by rw [hclose.gates]
  have hl' : ∀ v, v ≠ u → t.ledger v = s.ledger v := fun v _ => by rw [hl]
  refine of_closes hclose ?_
  rintro _ (rfl | ⟨next', rfl⟩)
  · exact .create (h.move rfl (.inl rfl) hl' hi hg trivial)
  · exact .create (h.move rfl (.inl rfl) hl' hi hg trivial)

theorem of_handshake {reads' : List ReadResult} (hs : m.Reachable s)
    (hc : s.calls i = some (.create u p a)) (hcl : a.hasCleared = true)
    (hans : a.isAnswered = false) (h : Underway m peer i s M reads u p a g seen)
    (hn : s.toReturn peer reads i (.create u p a) = a.toAnswer peer u p reads + 2)
    (hpos : 0 < a.toAnswer peer u p reads)
    (he : Handshake.Step m peer s i u p a g seen reads' (a.toAnswer peer u p reads) (t, effects)) :
    CreateGoesOn m peer i s t M reads reads' u p a effects := by
  have hnone := hs.custody.sessions_eq_none hc hans
  obtain ⟨opened', ht, ho⟩ := he
  rw [CreateGoesOn, GoesOn, hn]
  cases ht with
  | @on b hb hticket hag hlt =>
    have hcl : b.hasCleared = true := by cases b <;> first | rfl | cases hb
    refine ⟨_, _, rfl, .create (h.move hticket (.inl hcl) (fun _ _ => rfl) rfl rfl hag), ho, ?_⟩
    rw [State.toReturn_of_isConnecting hb]
    omega
  | refused hno =>
    refine ⟨_, _, rfl, ?_, ho, Nat.lt_of_lt_of_le (Nat.lt_succ_self 1) (Nat.le_add_left _ _)⟩
    rw [if_neg (by rw [hno]; decide)]
    refine .leaving (funext fun v => ?_)
    by_cases hv : v = u
    · subst hv
      rw [h.here, if_neg (by rw [hno]; decide)]
      rw [State.ledger, hs.orderly.cleared hc hcl, Option.map_none]
    · exact h.elsewhere v hv
  | @accepted b hyes hlive =>
    have hl : (s.setSession i b).ledger = s.ledger :=
      State.ledger_of_not_listed rfl (fun y hy => assign_ne _ _ hy)
        (hs.custody.not_listed_of_none hnone)
    have hon : Underway m peer i (go (s.setSession i b) i u p (.established g seen)) M reads' u p
        (.established g seen) g seen :=
      { ticket := rfl
        counted := h.counted
        free := fun h => by cases h
        dead := fun h => by cases h
        elsewhere := fun v hv => (congrFun hl v).trans (h.elsewhere v hv)
        here := by
          rw [h.here, hnone]
          simp [go, hlive]
        agrees := hyes }
    exact ⟨_, _, rfl, .create hon, ho, Nat.lt_add_of_pos_left hpos⟩

theorem of_settle (hs : m.Reachable s) (hc : s.calls i = some (.create u p (.established g seen)))
    (h : Underway m peer i s M reads u p (.established g seen) g seen)
    (he : m.step s (.proceed i) = some (t, effects)) :
    CreateGoesOn m peer i s t M reads reads u p (.established g seen) effects := by
  have hyes : m.accepts u p peer = true := h.agrees
  have hnone := State.liveSession?_of_get?_none (hs.orderly.cleared hc rfl)
  obtain ⟨b, hb, -⟩ := hs.custody.owned hc (List.mem_singleton_self i)
  simp only [step, proceed, hc, proceedCreate, settle, h.counted, ne_eq, not_true_eq_false,
    if_false, hnone] at he
  cases he
  refine ⟨_, _, rfl, ?_, rfl, Nat.lt_succ_self _⟩
  rw [if_pos hyes]
  refine .leaving (funext fun v => ?_)
  rw [go, State.ledger_setCall,
    State.ledger_insert (t := { s with table := s.table.insert u i }) s u rfl rfl, assign_apply]
  split
  · next hv =>
    subst hv
    rw [h.here, if_pos hyes, State.isLive, hb, Option.any_some, Option.all_some]
  · next hv => exact h.elsewhere v hv

theorem of_underway (hs : m.Reachable s) (hc : s.calls i = some (.create u p a))
    (h : Underway m peer i s M reads u p a g seen) (hn : nextEvent peer s reads i = some e)
    (hx : e.session? = none) (he : m.step s e = some (t, effects)) :
    CreateGoesOn m peer i s t M reads (readsAfter peer reads s e) u p a effects := by
  have hticket := h.ticket
  simp only [nextEvent, hc] at hn
  cases a <;> cases hticket
  case queued =>
    cases hn
    exact of_turn hc h he
  case admitted =>
    cases hn
    exact of_reconcile hc h he
  case discarding x next =>
    cases eq_proceed_of_closingEvent (Option.some.inj hn) hx
    exact of_discard hs hc h he
  case ready =>
    cases hn
    simp only [step, proceed, hc, proceedCreate] at he
    have hr : prepare s i u p g seen = (t, effects) := Option.some.inj he
    exact of_handshake hs hc rfl rfl h rfl (Nat.succ_pos _) (hr ▸ Handshake.of_prepare s)
  case dialling payload =>
    cases hn
    simp only [step, hc] at he
    have hr : dialled s i u p m g seen payload peer.dial = (t, effects) := Option.some.inj he
    exact of_handshake hs hc rfl rfl h rfl (Nat.succ_pos _) (hr ▸ Handshake.of_dialled s h.agrees)
  case sending frame =>
    cases hn
    simp only [step, hc] at he
    have hr : written s i u p m g seen frame (peer.write frame) = (t, effects) := Option.some.inj he
    simp only [readsAfter, hc]
    exact of_handshake hs hc rfl rfl h rfl (Nat.succ_pos _) (hr ▸ Handshake.of_written s h.agrees)
  case awaiting r =>
    cases hn
    simp only [step, hc] at he
    have hr : heard s i u p m g seen r (reads.head?.getD .timedOut) = (t, effects) :=
      Option.some.inj he
    exact of_handshake hs hc rfl rfl h rfl (Nat.succ_pos _) (hr ▸ Handshake.of_heard s h.agrees)
  case established =>
    cases hn
    exact of_settle hs hc h he

theorem of_leave {result : Option CallId} (hc : s.calls i = some (.create u p (.leaving g result)))
    (h : s.ledger = M) (he : m.step s (.proceed i) = some (t, effects)) :
    GoesOn m peer i s t M reads reads (.create u p (.leaving g result)) result [] effects := by
  simp only [step, proceed, hc, proceedCreate] at he
  cases he
  refine ⟨.create u p (.returned result), [], ?_, .returned ?_, rfl, Nat.lt_succ_self _⟩
  · rw [go, State.setCall_calls, releaseGate_calls]
  · rw [go, State.ledger_setCall, ← h]
    exact State.ledger_congr (releaseGate_table _ _ _) (releaseGate_sessions _ _ _)

theorem of_remove {phase : RemovePhase} (hs : m.Reachable s)
    (hc : s.calls i = some (.remove u phase)) (hph : phase.hasLooked = true) (h : s.ledger = M)
    (hu : s.table.get? u = none) (hn : nextEvent peer s reads i = some e)
    (hx : e.session? = none) (he : m.step s e = some (t, effects)) :
    GoesOn m peer i s t M reads (readsAfter peer reads s e) (.remove u phase) none [] effects := by
  simp only [nextEvent, hc] at hn
  cases phase with
  | called => cases hph
  | found x remaining =>
    cases hn
    simp only [step, proceed, hc, proceedRemove] at he
    cases he
    refine ⟨_, _, rfl, .remove rfl h hu, rfl, ?_⟩
    simp only [State.toReturn]
    exact Nat.lt_succ_of_le (State.toClose_le _ _ _)
  | closing x next wasLive remaining =>
    cases eq_proceed_of_closingEvent (Option.some.inj hn) hx
    have hclose := Closes.of_step hc rfl he
    have hl : t.ledger = M := (hclose.ledger (hs.custody.not_listed hc
      (List.mem_singleton_self x) rfl hu)).trans h
    have hu' : t.table.get? u = none := by rw [hclose.table, hu]
    refine of_closes hclose ?_
    rintro _ (rfl | ⟨next', rfl⟩)
    · exact .remove rfl hl hu'
    · exact .remove rfl hl hu'
  | returned => cases hn

theorem of_shutdown {phase : ShutdownPhase} (hc : s.calls i = some (.shutdown phase))
    (hph : phase.hasLooked = true) (ht : s.table = .empty) (hM : M = .empty)
    (hn : nextEvent peer s reads i = some e) (hx : e.session? = none)
    (he : m.step s e = some (t, effects)) :
    GoesOn m peer i s t M reads (readsAfter peer reads s e) (.shutdown phase) none [] effects := by
  simp only [nextEvent, hc] at hn
  cases phase with
  | called => cases hph
  | closing total xs next =>
    cases xs with
    | nil =>
      cases hn
      simp only [step, proceed, hc, proceedShutdown] at he
      cases he
      exact ⟨_, _, rfl, .shutdown rfl ht hM, rfl, Nat.lt_succ_self _⟩
    | cons x rest =>
      cases eq_proceed_of_closingEvent (Option.some.inj hn) hx
      have hclose := Closes.of_step hc rfl he
      have ht' : t.table = .empty := hclose.table.trans ht
      refine of_closes hclose ?_
      rintro _ (rfl | ⟨next', rfl⟩)
      · exact .shutdown rfl ht' hM
      · exact .shutdown rfl ht' hM
  | returned => cases hn

end GoesOn

/-- **A call that owes something owes what is left of it after each step of its own.** -/
theorem Owes.own (hs : m.Reachable s) (hc : s.calls i = some c)
    (h : Owes m peer i s M reads c result opened) (hn : nextEvent peer s reads i = some e)
    (hx : e.session? = none) (he : m.step s e = some (t, effects)) :
    GoesOn m peer i s t M reads (readsAfter peer reads s e) c result opened effects := by
  cases h with
  | create hcreate => exact .of_underway hs hc hcreate hn hx he
  | leaving hM =>
    simp only [nextEvent, hc] at hn
    cases hn
    exact .of_leave hc hM he
  | returned =>
    simp only [nextEvent, hc] at hn
    cases hn
  | remove hph hM hu => exact .of_remove hs hc hph hM hu hn hx he
  | shutdown hph ht hM => exact .of_shutdown hc hph ht hM hn hx he

/-! ### The first look -/

/-- No call is on its way. -/
def State.Idle (s : State) : Prop :=
  ∀ j c, s.calls j = some c → c.hasReturned = true

/-- No call but `i` is on its way. -/
def State.Only (s : State) (i : CallId) : Prop :=
  ∀ j c, j ≠ i → s.calls j = some c → c.hasReturned = true

theorem State.Idle.only_of_setCall (h : s.Idle) (i : CallId) (c : Call) : (s.setCall i c).Only i := by
  intro j d hj hd
  rw [State.setCall_calls, assign_ne _ _ hj] at hd
  exact h j d hd

theorem State.Only.of_calls_eq (h : s.Only i) (hc : t.calls = s.calls) : t.Only i := by
  intro j d hj hd
  rw [hc] at hd
  exact h j d hj hd

theorem ledger_ne_of_start {r : Request} {v : String} {live : Bool} (hs : m.Reachable s)
    (hc : s.calls i = some r.start) : s.ledger v ≠ some (i, live) := by
  intro hv
  obtain ⟨b, hb, -⟩ := hs.custody.listed (State.ledger_eq_some_iff.1 hv).1
  obtain ⟨q, a, ha, hans⟩ := hs.custody.made hb
  rw [hc] at ha
  cases r <;> cases ha
  cases hans

theorem State.Only.gate {r : Request} (h : s.Only i) (hc : s.calls i = some r.start) (j : CallId) :
    (s.standing j).gate = none := by
  cases hj : s.calls j with
  | none => simp [State.standing, hj]
  | some c =>
    rw [State.standing_of_calls hj]
    by_cases hij : j = i
    · subst hij
      rw [hc] at hj
      cases hj
      exact Call.gate_start r
    · exact Call.gate_of_hasReturned (h j c hij hj)

/-- A call that is the only one sets out to do to the ledger what the ledger says. -/
theorem GoesOn.of_look {r : Request} (peer : Peer) (hs : m.Reachable s) (ho : s.Only i)
    (hc : s.calls i = some r.start) (he : m.step s (.proceed i) = some (t, effects)) :
    GoesOn m peer i s t (s.ledger.call m i peer r).ledger [] [] r.start
      (s.ledger.call m i peer r).result (s.ledger.call m i peer r).opened effects := by
  cases r with
  | create u p =>
    simp only [step, proceed, hc, Request.start, proceedCreate, enter] at he
    split at he
    · next x hx =>
      cases he
      rw [Ledger.call_of_session _ _ _ _ _ (by rw [← State.liveSession?_eq, hx])]
      exact ⟨_, _, rfl, .returned (State.ledger_setCall _ _ _), rfl, Nat.succ_pos _⟩
    · next hx =>
      have hnone := hs.custody.sessions_eq_none hc rfl
      simp only [holdGate, hs.gated.logins_eq_none (ho.gate hc)] at he
      cases he
      rw [Ledger.call_of_none _ _ _ _ _ (by rw [← State.liveSession?_eq, hx])]
      refine ⟨_, _, rfl, .create (?_ : Underway m peer i _ _ [] u p (.queued i 0) i 0), ?_,
        Nat.lt_succ_self _⟩
      · exact
          { ticket := rfl
            counted := congrArg Gate.removals (assign_same _ _ _)
            free := fun _ => congrArg Gate.owner (assign_same _ _ _)
            dead := fun _ => hx
            elsewhere := fun v hv => (assign_ne _ _ hv).symm
            here := (assign_same _ _ _).trans (by simp [go, hnone])
            agrees := trivial }
      · simp [CreatePhase.yetToOpen, CreatePhase.hasDialled]
  | remove u =>
    -- whatever the look finds
    have look : ∀ {phase : RemovePhase},
        t = { passGate s u with table := s.table.erase u }.setCall i (.remove u phase) →
        phase.hasLooked = true → openings effects = [] →
        t.toReturn peer [] i (.remove u phase) < 8 →
        GoesOn m peer i s t (assign s.ledger u none) [] [] (.remove u .called) none [] effects := by
      rintro phase rfl hph hopen hlt
      refine ⟨.remove u phase, [], ?_, .remove hph ?_ ?_, by rw [hopen]; rfl, hlt⟩
      · rw [State.setCall_calls, passGate_calls]
      · exact State.ledger_erase s u rfl (passGate_sessions s u)
      · rw [State.setCall_table, Directory.get?_erase, if_pos rfl]
    simp only [step, proceed, hc, Request.start, proceedRemove, takeOut, passGate_table] at he
    split at he
    · cases he
      exact look rfl rfl rfl (Nat.lt_succ_self 7)
    · cases he
      exact look rfl rfl rfl (Nat.succ_pos 7)
  | shutdown =>
    simp only [step, proceed, hc, Request.start, proceedShutdown] at he
    cases he
    refine ⟨_, _, rfl, .shutdown rfl rfl rfl, rfl, ?_⟩
    refine Nat.lt_of_lt_of_eq (State.toReturn_closing_lt _ _ _ _ _ _) ?_
    rw [List.length_map]
    rfl

/-! ### Calls from their first look to their return -/

/-- Call `i` has returned in `t`, has left the ledger `M`, and has given `result`. -/
structure Paid (m : Manager) (i : CallId) (s t : State) (M : Ledger) (result : Option CallId) :
    Prop where
  reachable : m.Reachable t
  ledger : t.ledger = M
  result : t.result? i = result
  returned : ∃ c, t.calls i = some c ∧ c.hasReturned = true
  others : ∀ j, j ≠ i → t.calls j = s.calls j

theorem Paid.idle (h : Paid m i s t M result) (ho : s.Only i) : t.Idle := by
  intro j d hj
  by_cases hji : j = i
  · subst hji
    obtain ⟨c, hc, hret⟩ := h.returned
    rw [hj] at hc
    cases hc
    exact hret
  · rw [h.others j hji] at hj
    exact ho j d hji hj

theorem Owes.paid (hs : m.Reachable s) (hc : s.calls i = some c)
    (h : Owes m peer i s M reads c result opened) (hret : c.hasReturned = true) :
    Paid m i s s M result ∧ opened = [] := by
  have done : ∀ {r}, s.result? i = r → s.ledger = M → Paid m i s s M r := fun hr hM =>
    ⟨hs, hM, hr, ⟨c, hc, hret⟩, fun _ _ => rfl⟩
  cases h with
  | @create u p a g seen hcreate =>
    have hticket := hcreate.ticket
    cases a with
    | returned => cases hticket
    | _ => cases hret
  | leaving => cases hret
  | returned hM => exact ⟨done (by simp [State.result?, hc, Call.result?]) hM, rfl⟩
  | remove _ hM => exact ⟨done (by simp [State.result?, hc, Call.result?]) hM, rfl⟩
  | shutdown _ ht hM =>
    exact ⟨done (by simp [State.result?, hc, Call.result?])
      ((State.ledger_of_table_empty ht).trans hM.symm), rfl⟩

/-- **A call pays what it owes**, whatever fails on the way. -/
theorem Lasts.pays {failed opened' : List CallId} (h : Lasts m peer i s reads failed opened t)
    (hs : m.Reachable s) (hc : s.calls i = some c)
    (ho : Owes m peer i s M reads c result opened') :
    Paid m i s t (M.failAll failed) result ∧ opened = opened' := by
  induction h generalizing M c opened' with
  | returned hc' hret =>
    rw [hc] at hc'
    cases hc'
    obtain ⟨hpaid, rfl⟩ := ho.paid hs hc hret
    exact ⟨hpaid, rfl⟩
  | event hx he _ ih =>
    obtain ⟨b, b', hb, rfl, hr⟩ := session_event hx he
    obtain ⟨hpaid, hopened⟩ := ih (.step hs he) hc (ho.event hb hr)
    exact ⟨Ledger.failAll_append _ _ _ ▸ ⟨hpaid.reachable, hpaid.ledger, hpaid.result,
      hpaid.returned, hpaid.others⟩, hopened⟩
  | own hn hx he _ ih =>
    obtain ⟨c', opened'', hcalls, howes, rfl, -⟩ := ho.own hs hc hn hx he
    obtain ⟨hpaid, rfl⟩ := ih (.step hs he) (by rw [hcalls, assign_same]) howes
    refine ⟨⟨hpaid.reachable, hpaid.ledger, hpaid.result, hpaid.returned, fun j hj => ?_⟩, rfl⟩
    rw [hpaid.others j hj, hcalls, assign_ne _ _ hj]

theorem Rests.keeps {failed : List CallId} (h : Rests m s failed t) (hs : m.Reachable s) :
    m.Reachable t ∧ t.calls = s.calls ∧ t.ledger = s.ledger.failAll failed := by
  induction h with
  | done => exact ⟨hs, rfl, rfl⟩
  | event hx he _ ih =>
    obtain ⟨b, b', hb, rfl, hr⟩ := session_event hx he
    obtain ⟨ht, hcalls, hledger⟩ := ih (.step hs he)
    exact ⟨ht, hcalls, by rw [hledger, hr.ledger hb, Ledger.failAll_append]⟩

/-! ### Histories -/

theorem eq_setCall_of_call {r : Request} (h : m.step s (.call i r) = some (t, effects)) :
    t = s.setCall i r.start := by
  simp only [step] at h
  split at h
  · cases h
    rfl
  · cases h

/-- What a history leaves: a state in which all calls have returned, and whose ledger is the
history's, which explains every entry. -/
structure Explained (m : Manager) (h : List Ledger.Entry) (t : State) : Prop where
  reachable : m.Reachable t
  idle : t.Idle
  explains : Ledger.empty.Explains m h
  ledger : t.ledger = Ledger.empty.after m h

theorem History.explained {h : List Ledger.Entry} (hh : History m h t) : Explained m h t := by
  induction hh with
  | start => exact ⟨.start, fun j c hj => (by cases hj), trivial, rfl⟩
  | rest _ hr ih =>
    obtain ⟨ht, hcalls, hledger⟩ := hr.keeps ih.reachable
    refine ⟨ht, by rw [State.Idle, hcalls]; exact ih.idle, ?_, ?_⟩
    · exact Ledger.explains_append.2 ⟨ih.explains, Ledger.explains_failures _ _ _⟩
    · rw [hledger, ih.ledger, Ledger.after_append, Ledger.after_failures]
  | @call h i r peer s _ s₁ s₂ t _ effects before _ opened _ hcall hwait hlook hlasts ih =>
    have hs₀ := Reachable.step ih.reachable hcall
    rw [eq_setCall_of_call hcall] at hs₀ hwait
    obtain ⟨hs₁, hcalls₁, hledger₁⟩ := hwait.keeps hs₀
    have hc : s₁.calls i = some r.start := by rw [hcalls₁, State.setCall_calls, assign_same]
    have honly : s₁.Only i := (ih.idle.only_of_setCall i r.start).of_calls_eq hcalls₁
    have hM : s₁.ledger = (Ledger.empty.after m h).failAll before := by
      rw [hledger₁, State.ledger_setCall, ih.ledger]
    obtain ⟨c, opened', hcalls₂, howes, hopened, -⟩ := GoesOn.of_look peer hs₁ honly hc hlook
    obtain ⟨hpaid, rfl⟩ := hlasts.pays (.step hs₁ hlook) (by rw [hcalls₂, assign_same]) howes
    have honly₂ : s₂.Only i := by
      intro j d hj hd
      rw [hcalls₂, assign_ne _ _ hj] at hd
      exact honly j d hj hd
    have hfits : ((Ledger.empty.after m h).failAll before).Fits m
        (.call i r peer (t.result? i) (openings effects ++ opened)) := by
      rw [← hM]
      exact ⟨hpaid.result, hopened, fun v live => ledger_ne_of_start hs₁ hc⟩
    refine ⟨hpaid.reachable, hpaid.idle honly₂, ?_, ?_⟩
    · rw [List.append_assoc]
      refine Ledger.explains_append.2 ⟨ih.explains, Ledger.explains_append.2
        ⟨Ledger.explains_failures _ _ _, ?_, Ledger.explains_failures _ _ _⟩⟩
      rw [Ledger.after_failures]
      exact hfits
    · rw [hpaid.ledger, Ledger.after_append, Ledger.after_append, Ledger.after_cons,
        Ledger.after_failures, Ledger.after_failures, ← hM]
      rfl

end Manager

end Corelink
