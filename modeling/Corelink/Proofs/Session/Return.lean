import Corelink.Proofs.Session.Hands

/-!
# Bringing a create to its return

A `create` before whom nobody is past its gate always has an event to go on with: one of its own,
or one of the keep-alive whose end it awaits. Such an event brings it nearer to its return
(`Advances`, `Reachable.advance`). So first whoever is past the gate can be brought to its return
and then the `create` itself, whatever a run is to keep on the way (`GetsOn.can_return`); and if
nothing is to be kept, that is so from every state (`Reachable.can_return`).
-/

namespace Corelink

open Wire

namespace Manager

variable {m : Manager} {s t t' : State} {e : Event} {es : List Event} {i j g x : CallId}
  {u p : String} {c : Call} {a b : CreatePhase} {seen : Nat} {effects : List Effect}
  {after : Trace}

theorem not_call_of_step (hi : s.calls i = some c) (hown : e.call? = some i)
    (he : m.step s e = some (t, effects)) (j : CallId) (r : Request) : e ≠ .call j r := by
  rintro rfl
  cases hown
  simp [step, hi] at he

/-! ### Whose turn it is -/

/-- A gate is occupied by a call that holds on to it and is past it. -/
def Occupied (s : State) : Prop :=
  ∀ {g i : CallId}, (s.gates g).owner = some i →
    (s.standing i).gate = some g ∧ (s.standing i).inside = true

theorem Occupied.passage (h : Occupied s) (hp : Passage s t) : Occupied t := by
  intro g i ho
  -- who takes another step than this is at no gate, or at one that it leaves
  have other : ∀ {k : CallId} {y : Standing}, t.standing = assign s.standing k y →
      (s.gates g).owner = some i → ((s.standing k).gate = some g → (s.standing k).inside = false) →
      (t.standing i).gate = some g ∧ (t.standing i).inside = true := by
    intro k y hs hold hk
    obtain ⟨hgate, hinside⟩ := h hold
    rw [hs, assign_ne]
    · exact ⟨hgate, hinside⟩
    · rintro rfl
      rw [hk hgate] at hinside
      cases hinside
  cases hp with
  | quiet _ hg hs => rw [hs]; exact h (hg ▸ ho)
  | pass _ hg hs =>
    rw [hg, passGate_owner] at ho
    rw [hs]
    exact h ho
  | skip hk _ hg hs =>
    rw [hg] at ho
    exact other hs ho fun hgate => by rw [hk]
  | join hk _ _ hg hs =>
    rw [hg, proj_assign s.gates _ Gate.owner (by rfl)] at ho
    exact other hs ho fun hgate => by rw [hk]
  | @found k v hk _ _ hg hs =>
    rw [hg, assign_apply] at ho
    split at ho
    · cases ho
    · exact other hs ho fun hgate => by rw [hk]
  | @turn k g' v hk _ _ hg hs =>
    rw [hg, assign_apply] at ho
    split at ho
    · next e =>
      subst e
      cases ho
      rw [hs, assign_same]
      exact ⟨rfl, rfl⟩
    · exact other hs ho fun hgate => by rw [hk]
  | forget hk _ _ _ hg hs | handBack hk _ _ hg hs =>
    rw [hg, assign_apply] at ho
    split at ho
    · cases ho
    · next hne =>
      refine other hs ho fun hgate => ?_
      rw [hk] at hgate
      cases hgate
      exact absurd rfl hne

theorem Reachable.occupied (h : m.Reachable s) : Occupied s := by
  induction h with
  | start => exact fun h => by cases h
  | step _ he ih => exact ih.passage (Shift.of_step he).passage

/-- No other `create` of `u` than `i` is past the gate. -/
def State.HasTurn (s : State) (u : String) (i : CallId) : Prop :=
  ∀ j q b, s.calls j = some (.create u q b) → b.isInside = true → j = i

theorem State.HasTurn.owner_eq_none (h : s.HasTurn u i) (hs : m.Reachable s)
    (hi : s.calls i = some (.create u p (.queued g seen))) : (s.gates g).owner = none := by
  cases ho : (s.gates g).owner with
  | none => rfl
  | some j =>
    obtain ⟨hgate, hinside⟩ := hs.occupied ho
    -- the gates of two users are different, so `j` is a `create` of `u`
    have hgi : (s.standing i).gate = some g := by rw [State.standing_of_calls hi]; rfl
    obtain ⟨v, hv, hvg⟩ := hs.gated.held hgate
    obtain ⟨w, hw, hwg⟩ := hs.gated.held hgi
    rw [State.standing_of_calls hi] at hw
    cases hw
    obtain rfl := hs.gated.gate_inj hvg hwg
    cases hj : s.calls j with
    | none => simp [State.standing, hj] at hgate
    | some c =>
      rw [State.standing_of_calls hj] at hv hinside
      rcases c with ⟨v, q, b⟩ | ⟨v, b⟩ | b
      · cases b with
        | called => cases hv
        | queued | returned => cases hinside
        | _ =>
          cases hv
          cases h j q _ hj hinside
          rw [hi] at hj
          cases hj
      · cases hv
      · cases hv

/-! ### Getting on -/

/-- The events before a `create` returns, on a connection where nothing fails and the answer comes
in one read. -/
def State.atBest (s : State) (i : CallId) (u p : String) (a : CreatePhase) : Nat :=
  s.toReturn ⟨.opened, fun _ => .done, fun _ => []⟩ [] i (.create u p a)

/-- The events before a `create` returns at most: those at best, and six for closing its session, as
long as it is not decided whether that must be. -/
def State.remaining (s : State) (i : CallId) (u p : String) (a : CreatePhase) : Nat :=
  s.atBest i u p a + if a.isDecided then 0 else 6

/-- What is decided stays decided, so who is nearer to the return at best is nearer to it. -/
theorem CreateMove.remaining_lt (hm : CreateMove s t i u a b)
    (hlt : t.atBest i u p b < s.atBest i u p a) : t.remaining i u p b < s.remaining i u p a := by
  refine Nat.add_lt_add_of_lt_of_le hlt ?_
  cases ha : a.isDecided with
  | true =>
    exact Nat.le_of_eq (by rw [hm.isDecided ha])
  | false =>
    rw [if_neg Bool.false_ne_true]
    split <;> omega

/-- An event that brings call `i` nearer to its return, whatever it is that the call does. -/
structure Advances (m : Manager) (s : State) (i : CallId) (u p : String) (a : CreatePhase)
    (e : Event) (t : State) (effects : List Effect) (b : CreatePhase) : Prop where
  step : m.step s e = some (t, effects)
  not_call : ∀ j r, e ≠ .call j r
  others : ∀ j, j ≠ i → t.calls j = s.calls j
  goes_on : t.calls i = some (.create u p b)
  nearer : t.remaining i u p b < s.remaining i u p a

namespace Advances

theorem of_own {r : State} (hcu : Custody s) (hi : s.calls i = some (.create u p a))
    (he : m.step s e = some (go r i u p b, effects)) (hown : e.call? = some i)
    (hlt : (go r i u p b).atBest i u p b < s.atBest i u p a) :
    ∃ t effects b, Advances m s i u p a e t effects b := by
  have hb : (go r i u p b).calls i = some (.create u p b) := assign_same _ _ _
  obtain ⟨b', hb', hm⟩ := (Shift.of_step he).create_on hi
  rw [hb] at hb'
  cases hb'
  exact ⟨_, _, _, he, not_call_of_step hi hown he, (Acts.of_step hcu hown he).calls, hb,
    hm.remaining_lt hlt⟩

theorem of_called (hcu : Custody s) (hi : s.calls i = some (.create u p .called)) :
    ∃ t effects b, Advances m s i u p .called (.proceed i) t effects b := by
  cases hlive : s.liveSession? u with
  | some x =>
    have he : m.step s (.proceed i) = some (go s i u p (.returned (some x)), []) := by
      simp only [Manager.step, proceed, hi, proceedCreate, enter, hlive]
    exact of_own hcu hi he rfl (Nat.succ_pos _)
  | none =>
    have he : m.step s (.proceed i) = some (go (holdGate s i u).2.2 i u p
        (.queued (holdGate s i u).1 (holdGate s i u).2.1), []) := by
      simp only [Manager.step, proceed, hi, proceedCreate, enter, hlive]
    exact of_own hcu hi he rfl (Nat.lt_succ_self _)

theorem of_queued (hs : m.Reachable s) (hi : s.calls i = some (.create u p (.queued g seen)))
    (hturn : s.HasTurn u i) :
    ∃ t effects b, Advances m s i u p (.queued g seen) (.proceed i) t effects b := by
  have he : m.step s (.proceed i) = some (go (s.setGate g { s.gates g with owner := some i }) i u p
      (.admitted g seen), []) := by
    simp only [Manager.step, proceed, hi, proceedCreate, takeTurn, hturn.owner_eq_none hs hi]
  exact of_own hs.custody hi he rfl (Nat.lt_succ_self _)

theorem of_admitted (hcu : Custody s) (hi : s.calls i = some (.create u p (.admitted g seen))) :
    ∃ t effects b, Advances m s i u p (.admitted g seen) (.proceed i) t effects b := by
  cases hlive : s.liveSession? u with
  | some x =>
    have he : m.step s (.proceed i) = some (go s i u p (.leaving g (some x)), []) := by
      simp only [Manager.step, proceed, hi, proceedCreate, reconcile, hlive]
    refine of_own hcu hi he rfl ?_
    simp only [State.atBest, State.toReturn]
    omega
  | none =>
    cases hlisted : s.table.get? u with
    | some x =>
      have he : m.step s (.proceed i) = some (go { s with table := s.table.erase u } i u p
          (.discarding g seen x .mark), [.noted (.discardingStale u)]) := by
        simp only [Manager.step, proceed, hi, proceedCreate, reconcile, hlive, hlisted]
      refine of_own hcu hi he rfl ?_
      have hle := (go { s with table := s.table.erase u } i u p
        (.discarding g seen x .mark)).toClose_le x .mark
      simp only [State.atBest, State.toReturn]
      omega
    | none =>
      have he : m.step s (.proceed i) =
          some (go { s with table := s.table.erase u } i u p (.ready g seen), []) := by
        simp only [Manager.step, proceed, hi, proceedCreate, reconcile, hlive, hlisted]
      refine of_own hcu hi he rfl ?_
      simp only [State.atBest, State.toReturn, CreatePhase.toAnswer]
      omega

theorem of_closing (hs : m.Reachable s) (hi : s.calls i = some (.create u p a))
    {next : Closing} (hx : (Call.create u p a).closing? i = some (x, next)) :
    ∃ e t effects b, Advances m s i u p a e t effects b ∧
      (e = .proceed i ∨ e = keepAliveEvent s x) := by
  obtain ⟨-, hsome⟩ | ⟨b, effects, -, he, hlt⟩ := closingEvent_happens hs hi hx
  · obtain ⟨⟨t, effects⟩, he⟩ := Option.isSome_iff_exists.1 hsome
    obtain ⟨b, hb, hm⟩ := (Shift.of_step he).create_on hi
    obtain ⟨c', hcalls, -, hlt⟩ := (Closes.of_step hi hx he).calls
    rw [hcalls, assign_same] at hb
    cases hb
    exact ⟨_, t, effects, b, ⟨he, not_call_of_step hi rfl he,
      (Acts.of_step hs.custody rfl he).calls, by rw [hcalls, assign_same],
      hm.remaining_lt (hlt _ _)⟩, .inl rfl⟩
  · refine ⟨_, _, effects, a, ⟨he, fun j r hj => ?_, fun _ _ => rfl, hi,
      CreateMove.same.remaining_lt (hlt _ _)⟩, .inr rfl⟩
    have hsession := session?_keepAliveEvent s x
    rw [hj] at hsession
    cases hsession

theorem of_ready (hcu : Custody s) (hi : s.calls i = some (.create u p (.ready g seen))) :
    ∃ t effects b, Advances m s i u p (.ready g seen) (.proceed i) t effects b := by
  cases hencode : (LoginRequest.mk u p).encode with
  | error e =>
    have he : m.step s (.proceed i) = some (giveUp s i u p g (.validation e)) := by
      simp only [Manager.step, proceed, hi, proceedCreate, prepare, hencode]
    refine of_own (b := .leaving g none) hcu hi he rfl ?_
    simp only [State.atBest, State.toReturn, CreatePhase.toAnswer]
    omega
  | ok payload =>
    have he : m.step s (.proceed i) = some (go s i u p (.dialling g seen payload), []) := by
      simp only [Manager.step, proceed, hi, proceedCreate, prepare, hencode]
    exact of_own hcu hi he rfl (Nat.lt_succ_self _)

theorem of_dialling {payload : Bytes} (hcu : Custody s)
    (hi : s.calls i = some (.create u p (.dialling g seen payload))) :
    ∃ t effects b, Advances m s i u p (.dialling g seen payload) (.dial i .opened) t effects b := by
  have hstep : m.step s (.dial i .opened) = some (dialled s i u p m g seen payload .opened) := by
    simp only [Manager.step, hi]
  unfold dialled giveUp at hstep
  split at hstep
  · refine of_own hcu hi hstep rfl ?_
    simp only [State.atBest, State.toReturn, CreatePhase.toAnswer]
    omega
  · split at hstep
    · refine of_own hcu hi hstep rfl ?_
      simp only [State.atBest, State.toReturn, CreatePhase.toAnswer]
      omega
    · exact of_own hcu hi hstep rfl (Nat.lt_succ_self _)

theorem of_sending {frame : Bytes} (hcu : Custody s)
    (hfit : ∃ payload, (LoginRequest.mk u p).encode = .ok payload ∧ payload.length < UInt32.size)
    (hi : s.calls i = some (.create u p (.sending g seen frame))) :
    ∃ t effects b, Advances m s i u p (.sending g seen frame) (.write i .done) t effects b := by
  obtain ⟨payload, hencode, hlength⟩ := hfit
  have he : m.step s (.write i .done) =
      some (go s i u p (.awaiting g seen {}), [.wrote i frame .done]) := by
    simp only [Manager.step, hi, written, Terms.written]
  refine of_own hcu hi he rfl ?_
  have hall : (LoginRequest.mk u p).encode >>= Frame.encode .loginRequest = .ok _ :=
    bind_eq_ok_iff.2 ⟨payload, hencode, if_pos hlength⟩
  simp only [State.atBest, State.toReturn, CreatePhase.toAnswer, readsFor, hall]
  exact Nat.lt_succ_self _

theorem of_unwritten {frame : Bytes} (hcu : Custody s)
    (hi : s.calls i = some (.create u p (.sending g seen frame))) :
    ∃ t effects b, Advances m s i u p (.sending g seen frame) (.write i .timedOut) t effects b := by
  have he : m.step s (.write i .timedOut) =
      some (written s i u p m g seen frame .timedOut) := by
    simp only [Manager.step, hi]
  refine of_own (b := .leaving g none) hcu hi he rfl ?_
  simp only [State.atBest, State.toReturn, CreatePhase.toAnswer]
  omega

theorem of_unanswered {r : Receiver} (hcu : Custody s)
    (hi : s.calls i = some (.create u p (.awaiting g seen r))) :
    ∃ t effects b, Advances m s i u p (.awaiting g seen r) (.read i .timedOut) t effects b := by
  have he : m.step s (.read i .timedOut) = some (heard s i u p m g seen r .timedOut) := by
    simp only [Manager.step, hi]
  refine of_own (b := .leaving g none) hcu hi he rfl ?_
  simp only [State.atBest, State.toReturn, CreatePhase.toAnswer]
  omega

theorem of_established (hs : m.Reachable s)
    (hi : s.calls i = some (.create u p (.established g seen)))
    (hseen : (s.gates g).removals = seen) :
    ∃ t effects b, Advances m s i u p (.established g seen) (.proceed i) t effects b := by
  have hnone := State.liveSession?_of_get?_none (hs.orderly.cleared hi rfl)
  have he : m.step s (.proceed i) = some (settle s i u p g seen) := by
    simp only [Manager.step, proceed, hi, proceedCreate]
  rw [settle, if_neg (not_not_intro hseen), hnone] at he
  exact of_own hs.custody hi he rfl (Nat.lt_succ_self _)

theorem of_settle (hs : m.Reachable s)
    (hi : s.calls i = some (.create u p (.established g seen))) :
    ∃ t effects b, Advances m s i u p (.established g seen) (.proceed i) t effects b := by
  by_cases hseen : (s.gates g).removals = seen
  · exact of_established hs hi hseen
  · have he : m.step s (.proceed i) = some (go s i u p (.undoing g .mark none),
        [.noted (.loginCancelled u)]) := by
      simp only [Manager.step, proceed, hi, proceedCreate, settle, if_pos hseen]
    refine ⟨_, _, _, he, not_call_of_step hi rfl he, (Acts.of_step hs.custody rfl he).calls,
      assign_same _ _ _, ?_⟩
    have hle := (go s i u p (.undoing g .mark none)).toClose_le i .mark
    simp only [State.remaining, State.atBest, State.toReturn, CreatePhase.isDecided,
      Bool.false_eq_true, if_false, if_true]
    omega

theorem of_leaving {result : Option CallId} (hcu : Custody s)
    (hi : s.calls i = some (.create u p (.leaving g result))) :
    ∃ t effects b, Advances m s i u p (.leaving g result) (.proceed i) t effects b := by
  have he : m.step s (.proceed i) = some (go (releaseGate s u g) i u p (.returned result), []) := by
    simp only [Manager.step, proceed, hi, proceedCreate]
  exact of_own hcu hi he rfl (Nat.lt_succ_self _)

theorem of_awaiting {r r' : Receiver} {read : ReadResult} {f : Frame} {login : LoginResponse}
    (hcu : Custody s) (hi : s.calls i = some (.create u p (.awaiting g seen r)))
    (hread : Wait.read m.handshakeTerms r read = .frame f r')
    (hlogin : readLogin (.ok (f, r')) = .ok login) (hok : login.ok = true) :
    ∃ t effects b, Advances m s i u p (.awaiting g seen r) (.read i read) t effects b :=
  of_own (r := s.setSession i (newSession i u m login r')) (b := .established g seen) hcu hi
    (step_answered hi hread hlogin hok) rfl (Nat.lt_succ_self _)

end Advances

/-! ### Getting on, whatever the network does -/

/-- **A `create` that has its turn gets on**, if by nothing else than by giving up the wait for the
network. -/
theorem Reachable.advance (hs : m.Reachable s) (hi : s.calls i = some (.create u p a))
    (hret : (Call.create u p a).hasReturned = false) (hturn : s.HasTurn u i) :
    ∃ e t effects b, Advances m s i u p a e t effects b := by
  have hcu := hs.custody
  cases a with
  | called => exact ⟨_, Advances.of_called hcu hi⟩
  | queued => exact ⟨_, Advances.of_queued hs hi hturn⟩
  | admitted => exact ⟨_, Advances.of_admitted hcu hi⟩
  | discarding | undoing =>
    obtain ⟨e, t, effects, b, hadv, -⟩ := Advances.of_closing hs hi rfl
    exact ⟨e, t, effects, b, hadv⟩
  | ready => exact ⟨_, Advances.of_ready hcu hi⟩
  | dialling => exact ⟨_, Advances.of_dialling hcu hi⟩
  | sending => exact ⟨_, Advances.of_unwritten hcu hi⟩
  | awaiting => exact ⟨_, Advances.of_unanswered hcu hi⟩
  | established => exact ⟨_, Advances.of_settle hs hi⟩
  | leaving => exact ⟨_, Advances.of_leaving hcu hi⟩
  | returned => cases hret

/-! ### What a run keeps on the way -/

section
variable {Inv : List Event → State → Trace → Prop} {P Q : State → Prop}

/-- Without new calls, a run that keeps `Inv` can go on to a state with property `P`. -/
def Leads (Inv : List Event → State → Trace → Prop) (es : List Event) (after : Trace)
    (P : State → Prop) : Prop :=
  ∃ es' t' after', (∀ j r, .call j r ∉ es') ∧ Inv (es ++ es') t' (after ++ after') ∧ P t'

theorem Leads.here (h : Inv es t after) (ht : P t) : Leads Inv es after P :=
  ⟨[], t, [], fun _ _ => List.not_mem_nil, by simpa only [List.append_nil] using h, ht⟩

theorem Leads.bind (h : Leads Inv es after P)
    (hnext : ∀ es' t' after', es ⊆ es' → Inv es' t' after' → P t' → Leads Inv es' after' Q) :
    Leads Inv es after Q := by
  obtain ⟨es₁, t₁, after₁, hno₁, h₁, hP⟩ := h
  obtain ⟨es₂, t₂, after₂, hno₂, h₂, hQ⟩ := hnext _ t₁ _ (List.subset_append_left es es₁) h₁ hP
  rw [List.append_assoc, List.append_assoc] at h₂
  refine ⟨es₁ ++ es₂, t₂, after₁ ++ after₂, fun j r hj => ?_, h₂, hQ⟩
  obtain hj | hj := List.mem_append.1 hj
  · exact hno₁ j r hj
  · exact hno₂ j r hj

theorem Leads.mono (h : Leads Inv es after P) (hPQ : ∀ t, P t → Q t) : Leads Inv es after Q := by
  obtain ⟨es', t', after', hno, h', hP⟩ := h
  exact ⟨es', t', after', hno, h', hPQ t' hP⟩

/-- What a run keeps while the logins of `u` get on. -/
structure GetsOn (m : Manager) (u : String) (Inv : List Event → State → Trace → Prop) : Prop where
  reachable : ∀ {es : List Event} {t : State} {after : Trace}, Inv es t after → m.Reachable t
  advance : ∀ {es : List Event} {t : State} {after : Trace} {i : CallId} {p : String}
    {a : CreatePhase}, Inv es t after → t.calls i = some (.create u p a) →
    (Call.create u p a).hasReturned = false → t.HasTurn u i →
    ∃ e t' effects b, Advances m t i u p a e t' effects b ∧
      Inv (es ++ [e]) t' (after ++ [(e, effects)])

namespace GetsOn

/-- Whose turn it is can be brought to its return by its own steps. -/
theorem returns (hgo : GetsOn m u Inv) (h : Inv es t after)
    (hi : t.calls i = some (.create u p a)) (hturn : t.HasTurn u i) :
    Leads Inv es after fun t' => (∃ result, t'.calls i = some (.create u p (.returned result))) ∧
      ∀ j, j ≠ i → t'.calls j = t.calls j := by
  induction hn : t.remaining i u p a using Nat.strongRecOn generalizing es t after a with
  | ind n ih =>
    cases hret : (Call.create u p a).hasReturned with
    | true =>
      cases a with
      | returned result => exact .here h ⟨⟨result, hi⟩, fun _ _ => rfl⟩
      | _ => cases hret
    | false =>
      obtain ⟨e, t₁, effects, b, hadv, h₁⟩ := hgo.advance h hi hret hturn
      have hturn₁ : t₁.HasTurn u i := by
        intro j q b' hj hinside
        by_cases hji : j = i
        · exact hji
        · rw [hadv.others j hji] at hj
          exact hturn j q b' hj hinside
      obtain ⟨es', t', after', hno, h', hreturned, hothers⟩ :=
        ih _ (hn ▸ hadv.nearer) h₁ hadv.goes_on hturn₁ rfl
      rw [List.append_assoc, List.append_assoc] at h'
      refine ⟨[e] ++ es', t', _, fun j r hj => ?_, h', hreturned, fun j hji => ?_⟩
      · obtain hj | hj := List.mem_append.1 hj
        · exact hadv.not_call j r (List.mem_singleton.1 hj).symm
        · exact hno j r hj
      · rw [hothers j hji, hadv.others j hji]

/-- **Every login can be brought to its return**: first whoever is past the gate returns, then the
login has its turn. -/
theorem can_return (hgo : GetsOn m u Inv) (h : Inv es t after)
    (hi : t.calls i = some (.create u p a)) :
    Leads Inv es after fun t' => (∃ result, t'.calls i = some (.create u p (.returned result))) ∧
      ∀ j c, t.calls j = some c → c.hasReturned = true → t'.calls j = some c := by
  cases hret : (Call.create u p a).hasReturned with
  | true =>
    cases a with
    | returned result => exact .here h ⟨⟨result, hi⟩, fun _ _ hj _ => hj⟩
    | _ => cases hret
  | false =>
    have hne : ∀ {j : CallId} {c : Call}, t.calls j = some c → c.hasReturned = true → j ≠ i := by
      rintro j c hj hc rfl
      rw [hi] at hj
      cases hj
      rw [hret] at hc
      cases hc
    by_cases hk : ∃ k q b, t.calls k = some (.create u q b) ∧ b.isInside = true ∧ k ≠ i
    · obtain ⟨k, q, b, hk, hinside, hki⟩ := hk
      have hturn : t.HasTurn u k := fun j q' b' hj hb' =>
        (hgo.reachable h).gated.create_unique hj hk hb' hinside
      refine (hgo.returns h hk hturn).bind fun es₁ t₁ after₁ _ h₁ ⟨⟨result, hk₁⟩, hothers₁⟩ => ?_
      have hturn₁ : t₁.HasTurn u i := by
        intro j q' b' hj hb'
        by_cases hjk : j = k
        · subst hjk
          rw [hk₁] at hj
          cases hj
          cases hb'
        · rw [hothers₁ j hjk] at hj
          exact absurd (hturn j q' b' hj hb') hjk
      refine (hgo.returns h₁ (by rw [hothers₁ i hki.symm, hi]) hturn₁).mono
        fun t' ⟨hreturned, hothers⟩ => ⟨hreturned, fun j c hj hc => ?_⟩
      have hjk : j ≠ k := by
        rintro rfl
        rw [hk] at hj
        cases hj
        cases b with
        | returned => cases hinside
        | _ => cases hc
      rw [hothers j (hne hj hc), hothers₁ j hjk, hj]
    · have hturn : t.HasTurn u i := fun j q b hj hb =>
        Decidable.byContradiction fun hji => hk ⟨j, q, b, hj, hb, hji⟩
      refine (hgo.returns h hi hturn).mono
        fun t' ⟨hreturned, hothers⟩ => ⟨hreturned, fun j c hj hc => ?_⟩
      rw [hothers j (hne hj hc), hj]

theorem of_run (hs : m.Reachable s) (u : String) :
    GetsOn m u fun es t after => m.run s es = some (t, after) where
  reachable h := hs.run h
  advance h hi hret hturn := by
    obtain ⟨e, t', effects, b, hadv⟩ := (hs.run h).advance hi hret hturn
    exact ⟨e, t', effects, b, hadv, run_concat h hadv.step⟩

end GetsOn

end

/-- **Every `create` can be brought to its return**, from every state and without new calls. -/
theorem Reachable.can_return (hs : m.Reachable s) (hi : s.calls i = some (.create u p a)) :
    ∃ es t trace result, (∀ j r, .call j r ∉ es) ∧ m.run s es = some (t, trace) ∧
      t.calls i = some (.create u p (.returned result)) := by
  have hstart : m.run s [] = some (s, []) := rfl
  obtain ⟨es, t, trace, hno, hr, ⟨result, hreturned⟩, -⟩ :=
    (GetsOn.of_run hs u).can_return hstart hi
  exact ⟨es, t, trace, result, hno, hr, hreturned⟩

end Manager

end Corelink
