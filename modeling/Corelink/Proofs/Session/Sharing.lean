import Corelink.Proofs.Session.Welcome

/-!
# Logins of one user that overlap

As long as a user is neither removed nor shut down, the logins that have come in are at one of three
stages (`Stage`): all of them wait, or one of them leads and the others wait, or there is a session
for all of them. If Core serves their connections, every step goes on to the same stage or the next
(`Stage.step`), and it is the leader's connection alone that is opened on the way.
-/

namespace Corelink

open Wire

namespace CreatePhase

/-- Whether the call has yet to find a session, or to clear the table. -/
def isWaiting : CreatePhase → Bool
  | called | queued .. | admitted .. => true
  | _ => false

/-- Whether the call waits, or gives session `x`. -/
def Shares (x : CallId) : CreatePhase → Prop
  | called | queued .. | admitted .. => True
  | leaving _ result | returned result => result = some x
  | _ => False

variable {a : CreatePhase} {x : CallId}

theorem shares_of_isWaiting (h : a.isWaiting = true) : a.Shares x := by
  cases a with
  | called | queued | admitted => trivial
  | _ => cases h

theorem isInside_of_isLeading (h : a.isLeading = true) : a.isInside = true := by
  cases a <;> first | rfl | cases h

end CreatePhase

namespace Manager

variable {m : Manager} {s t t' : State} {e : Event} {es : List Event} {i j g x : CallId}
  {u p : String} {c : Call} {a b : CreatePhase} {seen : Nat} {effects : List Effect}
  {trace : Trace} {opened : List CallId}

/-! ### Calls that stay, and gates that nothing passes -/

theorem stays_of_hasReturned (hcu : Custody s) (he : m.step s e = some (t, effects))
    (hc : s.calls i = some c) (hret : c.hasReturned = true) : t.calls i = some c := by
  by_cases hne : t.calls i = s.calls i
  · rw [hne, hc]
  have hown := call?_of_changed hcu he hne
  cases e with
  | call j r =>
    cases hown
    simp [step, hc] at he
  | proceed j =>
    cases hown
    simp only [step, proceed, hc] at he
    rcases c with ⟨v, q, phase⟩ | ⟨v, phase⟩ | phase
    all_goals
      cases phase with
      | returned => cases he
      | _ => cases hret
  | dial j r | write j r | read j r =>
    cases hown
    simp only [step] at he
    split at he
    · next hj =>
      rw [hc] at hj
      cases hj
      cases hret
    · cases he
  | keepAlive | tick | ping | inbound => cases hown

theorem call_kept (hr : m.run s es = some (t, trace)) (hc : s.calls i = some c) :
    ∃ d, t.calls i = some d ∧ d.request = c.request := by
  induction es generalizing s trace c with
  | nil =>
    cases hr
    exact ⟨c, hc, rfl⟩
  | cons e es ih =>
    obtain ⟨s', effects, rest, he, hes, -⟩ := run_cons hr
    obtain ⟨c', hc', hreq⟩ := (Shift.of_step he).request_kept hc
    obtain ⟨d, hd, hd'⟩ := ih hes hc'
    exact ⟨d, hd, hd'.trans hreq⟩

@[simp] theorem releaseGate_removals (s : State) (u : String) (g h : CallId) :
    ((releaseGate s u g).gates h).removals = (s.gates h).removals := by
  unfold releaseGate
  dsimp only
  split <;> exact proj_assign _ _ Gate.removals (by rfl) h

theorem removals_stay (hg : Gated s) (hst : Shift s e t)
    (hno : ∀ j, s.calls j = some (.remove u .called) → t.calls j = some (.remove u .called))
    {inside : Bool}
    (hi : s.standing i = ⟨some u, some g, inside⟩) :
    (t.gates g).removals = (s.gates g).removals := by
  have hheld : (s.standing i).gate = some g := by rw [hi]
  cases hst with
  | queue hc _ hq =>
    unfold holdGate at hq
    split at hq
    · cases hq
      exact proj_assign _ _ Gate.removals (by rfl) g
    · cases hq
      rw [State.setCall_gates, State.setGate_gates, assign_ne]
      rintro rfl
      exact hg.fresh (State.standing_of_calls hc) i hheld
  | turn => exact proj_assign _ _ Gate.removals (by rfl) g
  | leave => rw [State.setCall_gates, releaseGate_removals]
  | @takeOut _ j v hc =>
    have hne : v ≠ u := by
      rintro rfl
      have hstays := hno j hc
      rw [State.setCall_calls, assign_same] at hstays
      split at hstays <;> cases hstays
    obtain ⟨w, hw, hug⟩ := hg.held hheld
    rw [hi] at hw
    cases hw
    change ((passGate s v).gates g).removals = _
    unfold passGate
    split
    · next g' hvg =>
      rw [State.setGate_gates, assign_ne]
      rintro rfl
      exact hne (hg.gate_inj hvg hug)
    · rfl
  | _ => rfl

/-! ### Undisturbed users -/

/-- Since `s`, nothing but logins has come in for `u`, and none of the gates they hold has counted
a removal. -/
structure Calm (s : State) (u : String) (t : State) : Prop where
  calls : ∀ {i : CallId} {c : Call}, t.calls i = some c → c.hasReturned = true ∨
    (∃ v, c.username? = some v ∧ v ≠ u) ∨ s.calls i = none ∧ ∃ p a, c = .create u p a
  uncounted : ∀ {i g : CallId} {p : String} {a : CreatePhase} {seen : Nat},
    t.calls i = some (.create u p a) → a.ticket? = some (g, seen) → (t.gates g).removals = seen

namespace Calm

theorem not_remove (h : Calm s u t) (i : CallId) : t.calls i ≠ some (.remove u .called) := by
  intro hi
  obtain hret | ⟨v, hv, hne⟩ | ⟨-, p, a, hc⟩ := h.calls hi
  · cases hret
  · cases hv
    exact hne rfl
  · cases hc

theorem not_shutdown (h : Calm s u t) (i : CallId) : t.calls i ≠ some (.shutdown .called) := by
  intro hi
  obtain hret | ⟨v, hv, -⟩ | ⟨-, p, a, hc⟩ := h.calls hi
  · cases hret
  · cases hv
  · cases hc

theorem new (h : Calm s u t) (hc : t.calls i = some (.create u p a))
    (hret : (Call.create u p a).hasReturned = false) : s.calls i = none := by
  obtain h | ⟨v, hv, hne⟩ | ⟨hnew, -⟩ := h.calls hc
  · rw [hret] at h
    cases h
  · cases hv
    exact absurd rfl hne
  · exact hnew

theorem start (h : ∀ i c, s.calls i = some c → c.hasReturned = true ∨
    ∃ v, c.username? = some v ∧ v ≠ u) : Calm s u s where
  calls {i c} hc := (h i c hc).imp_right .inl
  uncounted {i g p a seen} hc hticket := by
    obtain hret | ⟨v, hv, hne⟩ := h i _ hc
    · cases a with
      | returned => cases hticket
      | _ => cases hret
    · cases hv
      exact absurd rfl hne

theorem step (h : Calm s u t) (ht : m.Reachable t)
    (hkeep : ∀ i, t.calls i = none → s.calls i = none) (he : m.step t e = some (t', effects))
    (hstays : ∀ i, e ≠ .call i (.remove u) ∧ e ≠ .call i .shutdown) : Calm s u t' where
  calls {i c'} hc' := by
    cases hc : t.calls i with
    | none =>
      obtain ⟨r, rfl, rfl⟩ | ⟨c, hc''⟩ := (Shift.of_step he).call_from hc'
      · cases r with
        | create v p =>
          by_cases hv : v = u
          · subst hv
            exact .inr (.inr ⟨hkeep i hc, p, _, rfl⟩)
          · exact .inr (.inl ⟨v, rfl, hv⟩)
        | remove v =>
          refine .inr (.inl ⟨v, rfl, ?_⟩)
          rintro rfl
          exact (hstays i).1 rfl
        | shutdown => exact absurd rfl (hstays i).2
      · rw [hc] at hc''
        cases hc''
    | some c =>
      obtain ⟨d, hd, hreq⟩ := (Shift.of_step he).request_kept hc
      rw [hc'] at hd
      cases hd
      obtain hret | ⟨v, hv, hne⟩ | ⟨hnew, p, a, rfl⟩ := h.calls hc
      · have hsame := stays_of_hasReturned ht.custody he hc hret
        rw [hc'] at hsame
        cases hsame
        exact .inl hret
      · exact .inr (.inl ⟨v, by rw [Call.username?_of_request hreq, hv], hne⟩)
      · obtain ⟨b, rfl⟩ := Call.create_of_request hreq
        exact .inr (.inr ⟨hnew, p, b, rfl⟩)
  uncounted {i g p b seen} hb hticket := by
    have hst : Shift t e t' := .of_step he
    obtain ⟨-, -, rfl⟩ | ⟨a, ha, hm⟩ := hst.create_move hb
    · cases hticket
    obtain ⟨-, hseen⟩ | hticket' := hm.ticket hticket
    · exact hseen.symm
    · rw [removals_stay ht.gated hst (fun j hj => absurd hj (h.not_remove j))
        (State.gate_of_ticket ha hticket')]
      exact h.uncounted ha hticket'

end Calm

/-! ### Connections that are opened for a user -/

/-- Those of the connections opened in a step that are opened for `u`. -/
def State.opensFor (s : State) (u : String) (effects : List Effect) : List CallId :=
  (openings effects).filter fun i => (s.calls i).bind Call.username? == some u

/-- The connections that are opened for `u` in a run. -/
def openedFor (m : Manager) (u : String) (s : State) : List Event → List CallId
  | [] => []
  | e :: es =>
    match m.step s e with
    | some (t, effects) => s.opensFor u effects ++ openedFor m u t es
    | none => []

theorem openedFor_concat (hr : m.run s es = some (t, trace))
    (he : m.step t e = some (t', effects)) :
    openedFor m u s (es ++ [e]) = openedFor m u s es ++ t.opensFor u effects := by
  induction es generalizing s trace with
  | nil =>
    cases hr
    simp [openedFor, he]
  | cons e' es ih =>
    obtain ⟨s', effects', rest, he', hes, -⟩ := run_cons hr
    simp only [List.cons_append, openedFor, he', ih hes, List.append_assoc]

theorem openings_eq_nil (h : m.step s e = some (t, effects)) (hno : ∀ i r, e ≠ .dial i r) :
    openings effects = [] := by
  cases he : e.session? with
  | some y =>
    obtain ⟨_, _, -, -, hreports⟩ := session_event he h
    exact hreports.openings
  | none =>
    cases e with
    | call =>
      simp only [step] at h
      split at h <;> cases h
      rfl
    | proceed => exact openings_of_quiet (quiet_of_proceed h)
    | dial i r => exact absurd rfl (hno i r)
    | write =>
      simp only [step] at h
      split at h
      · simp only [written, giveUp] at h
        split at h <;> cases h <;> rfl
      · cases h
    | read =>
      simp only [step] at h
      split at h
      · simp only [heard, answered, giveUp] at h
        split at h
        · cases h
          rfl
        · cases h
          rfl
        · split at h
          · cases h
            rfl
          · split at h <;> cases h <;> rfl
      · cases h
    | keepAlive | tick | ping | inbound => cases he

theorem dial_spec {r : DialResult} (h : m.step s (.dial i r) = some (t, effects)) :
    ∃ v p g seen payload b, s.calls i = some (.create v p (.dialling g seen payload)) ∧
      t.calls i = some (.create v p b) ∧
      (openings effects = [i] ∧ b.hasDialled = true ∨
        openings effects = [] ∧ b = .leaving g none) := by
  simp only [step] at h
  split at h
  · rename_i v p g seen payload hc
    simp only [dialled, giveUp] at h
    split at h
    · cases h
      exact ⟨v, p, g, seen, payload, _, hc, assign_same _ _ _, .inr ⟨rfl, rfl⟩⟩
    · split at h <;> cases h <;>
        exact ⟨v, p, g, seen, payload, _, hc, assign_same _ _ _, .inl ⟨rfl, rfl⟩⟩
  · cases h

/-- **A connection is opened for `u` when a `create` of `u` has dialled**, and not otherwise. -/
theorem opensFor_cases (hcu : Custody s) (he : m.step s e = some (t, effects)) (u : String) :
    (s.opensFor u effects = [] ∧ ∀ i p g seen payload g' seen' frame,
      s.calls i = some (.create u p (.dialling g seen payload)) →
      t.calls i ≠ some (.create u p (.sending g' seen' frame))) ∨
    ∃ i p g seen payload b, s.calls i = some (.create u p (.dialling g seen payload)) ∧
      t.calls i = some (.create u p b) ∧ b.hasDialled = true ∧ s.opensFor u effects = [i] := by
  -- nobody else than `i` has dialled, and `i` has not for `u`
  have nobody : (∀ i r, e = .dial i r → ∀ p g seen payload g' seen' frame,
      s.calls i = some (.create u p (.dialling g seen payload)) →
      t.calls i ≠ some (.create u p (.sending g' seen' frame))) →
      ∀ i p g seen payload g' seen' frame,
        s.calls i = some (.create u p (.dialling g seen payload)) →
        t.calls i ≠ some (.create u p (.sending g' seen' frame)) := by
    intro hown i p g seen payload g' seen' frame hc hc'
    obtain ⟨r, rfl⟩ : ∃ r, e = .dial i r := expects_of_changed hcu he hc hc' nofun
    exact hown i r rfl _ _ _ _ _ _ _ hc hc'
  by_cases hdial : ∃ i r, e = .dial i r
  · obtain ⟨i, r, rfl⟩ := hdial
    obtain ⟨v, p, g, seen, payload, b, hc, hc', ⟨hopened, hb⟩ | ⟨hnone, rfl⟩⟩ := dial_spec he
    · by_cases hv : v = u
      · subst hv
        refine .inr ⟨i, p, g, seen, payload, b, hc, hc', hb, ?_⟩
        simp [State.opensFor, hopened, hc, Call.username?]
      · refine .inl ⟨by simp [State.opensFor, hopened, hc, Call.username?, hv], nobody ?_⟩
        rintro j r ⟨⟩ _ _ _ _ _ _ _ hj
        rw [hc] at hj
        cases hj
        exact absurd rfl hv
    · refine .inl ⟨by rw [State.opensFor, hnone]; rfl, nobody ?_⟩
      rintro j r ⟨⟩ _ _ _ _ _ _ _ - hj
      rw [hc'] at hj
      cases hj
  · refine .inl ⟨?_, nobody fun i r hi => absurd ⟨i, r, hi⟩ hdial⟩
    rw [State.opensFor, openings_eq_nil he fun i r hi => hdial ⟨i, r, hi⟩]
    rfl

/-! ### Stages -/

theorem Shift.listed_stays (hst : Shift s e t) (hlive : s.liveSession? u = some x)
    (hremove : ∀ i, s.calls i ≠ some (.remove u .called))
    (hshutdown : ∀ i, s.calls i ≠ some (.shutdown .called)) : t.table.get? u = some x := by
  have hlisted := State.get?_of_liveSession? hlive
  cases hst with
  | @clear _ i g v p seen hc hnone =>
    rw [State.setCall_table, Directory.get?_erase, if_neg]
    · exact hlisted
    · rintro rfl
      rw [hlive] at hnone
      cases hnone
  | @takeOut _ i v hc =>
    rw [State.setCall_table, Directory.get?_erase, if_neg]
    · exact hlisted
    · rintro rfl
      exact hremove i hc
  | drain hc => exact absurd hc (hshutdown _)
  | @insert _ i g v p seen hc _ hnone =>
    rw [State.setCall_table, Directory.get?_insert, if_neg]
    · exact hlisted
    · rintro rfl
      rw [hlive] at hnone
      cases hnone
  | queue _ _ hq => rw [State.setCall_table, (holdGate_spec hq).1, hlisted]
  | leave => rw [State.setCall_table, releaseGate_table, hlisted]
  | _ => exact hlisted

namespace CreateMove

theorem of_waiting (h : CreateMove s t i u a b) (ha : a.isWaiting = true)
    (hnone : s.liveSession? u = none) : b.isWaiting = true ∨
      b.isLeading = true ∧ b.hasDialled = false ∧ t.table.get? u = none := by
  have erased : t.table = s.table.erase u → t.table.get? u = none := by
    intro ht
    rw [ht, Directory.get?_erase, if_pos rfl]
  cases h with
  | same => exact .inl ha
  | reuse hlive | meet hlive =>
    rw [hnone] at hlive
    cases hlive
  | queue | turn => exact .inl rfl
  | discard _ ht => exact .inr ⟨rfl, rfl, erased ht⟩
  | clear ht => exact .inr ⟨rfl, rfl, erased ht⟩
  | attempt hatt => cases hatt <;> cases ha
  | discardOn | discarded | establish | cancel | yield | insert | undoOn | undone | leave =>
    cases ha

/-- Who leads goes on to a session, and puts it into the table. -/
theorem of_leading (h : CreateMove s t i u a b) (ha : a.isLeading = true)
    (hseen : ∀ g seen, a.ticket? = some (g, seen) → (s.gates g).removals = seen)
    (hnone : s.liveSession? u = none) (hattempt : a.Attempt b → b.isLeading = true) :
    b.isLeading = true ∨ ∃ g seen, a = .established g seen ∧ b = .leaving g (some i) ∧
      t.table.get? u = some i := by
  cases h with
  | same => exact .inl ha
  | attempt hatt => exact .inl (hattempt hatt)
  | discardOn | discarded | establish => exact .inl rfl
  | cancel hne => exact absurd (hseen _ _ rfl) hne
  | yield hlive =>
    rw [hnone] at hlive
    cases hlive
  | insert _ _ ht => exact .inr ⟨_, _, rfl, rfl, by rw [ht, Directory.get?_insert, if_pos rfl]⟩
  | reuse | queue | turn | meet | discard | clear | undoOn | undone | leave => cases ha

theorem hasDialled_of_leading (h : CreateMove s t i u a b) (ha : a.isLeading = true)
    (hb : b.isLeading = true) : b.hasDialled = a.hasDialled ∨
      (∃ g seen payload, a = .dialling g seen payload) ∧
        ∃ g seen frame, b = .sending g seen frame := by
  cases h with
  | attempt hatt =>
    cases hatt with
    | dialled => exact .inr ⟨⟨_, _, _, rfl⟩, _, _, _, rfl⟩
    | prepared | written | heard => exact .inl rfl
    | unprepared | undialled | unwritten | refused => cases hb
  | same | discardOn | discarded | establish => exact .inl rfl
  | reuse | queue | turn | meet | discard | clear | undoOn | undone | leave => cases ha
  | cancel | yield | insert => cases hb

/-- Where there is a live session that stays in the table, everyone comes to share it. -/
theorem shares (h : CreateMove s t i u a b) (ha : a.Shares x) (hlive : s.liveSession? u = some x)
    (hlisted : t.table.get? u = some x) : b.Shares x := by
  have kept : t.table ≠ s.table.erase u := by
    intro ht
    rw [ht, Directory.get?_erase, if_pos rfl] at hlisted
    cases hlisted
  cases h with
  | same | leave => exact ha
  | reuse hx | meet hx =>
    rw [hlive] at hx
    exact hx.symm
  | queue | turn => trivial
  | discard _ ht => exact absurd ht kept
  | clear ht => exact absurd ht kept
  | attempt hatt => cases hatt <;> cases ha
  | discardOn | discarded | establish | cancel | yield | insert | undoOn | undone => cases ha

end CreateMove

/-- How far the logins of `u` that have come in since `s` have got, and which connections have been
opened for them. -/
inductive Stage (s : State) (u : String) (t : State) : List CallId → Prop where
  | waiting : s.liveSession? u = none → t.liveSession? u = none →
    (∀ i p a, s.calls i = none → t.calls i = some (.create u p a) → a.isWaiting = true) →
    Stage s u t []
  /-- Call `i` leads. -/
  | led {i : CallId} {p : String} {a : CreatePhase} : s.liveSession? u = none →
    t.table.get? u = none → s.calls i = none → t.calls i = some (.create u p a) →
    a.isLeading = true →
    (∀ j q b, j ≠ i → s.calls j = none → t.calls j = some (.create u q b) → b.isWaiting = true) →
    Stage s u t (if a.hasDialled then [i] else [])
  /-- There is a session for all, the one of before or a new one. -/
  | settled {x : CallId} {opened : List CallId} : t.table.get? u = some x →
    (s.liveSession? u = some x ∧ opened = [] ∨
      s.liveSession? u = none ∧ s.calls x = none ∧ opened = [x]) →
    (∀ i p a, s.calls i = none → t.calls i = some (.create u p a) → a.Shares x) →
    Stage s u t opened

theorem isWaiting_of_other (hg : Gated t') (hst : Shift t e t') (hnone : t.liveSession? u = none)
    {q : String} (hi : t'.calls i = some (.create u p a)) (ha : a.isInside = true)
    (hwait : ∀ b, t.calls j = some (.create u q b) → b.isWaiting = true) (hne : j ≠ i)
    (hj : t'.calls j = some (.create u q b)) : b.isWaiting = true := by
  obtain ⟨-, -, rfl⟩ | ⟨b', hb', hm⟩ := hst.create_move hj
  · rfl
  · obtain hb | ⟨hb, -⟩ := hm.of_waiting (hwait b' hb') hnone
    · exact hb
    · exact absurd (hg.create_unique hj hi (CreatePhase.isInside_of_isLeading hb) ha) hne

theorem liveSession?_eq_none_of_kept (hcu : Custody s) (hst : Shift s e t)
    (hnone : s.liveSession? u = none) (htable : t.table.get? u = s.table.get? u) :
    t.liveSession? u = none := by
  rw [State.liveSession?, Option.filter_eq_none_iff] at hnone ⊢
  intro x hx hlive
  rw [htable] at hx
  obtain ⟨a, ha, -⟩ := hcu.listed hx
  obtain ⟨b, hb, hab⟩ := hcu.session_on hst ha
  refine hnone x hx ?_
  rw [State.isLive, hb, Option.any_some] at hlive
  rw [State.isLive, ha, Option.any_some]
  exact hab.live hlive

namespace Stage

theorem waiting_step (ht : m.Reachable t) (hcalm : Calm s u t)
    (he : m.step t e = some (t', effects)) (hs : s.liveSession? u = none)
    (hnone : t.liveSession? u = none)
    (hwait : ∀ i p a, s.calls i = none → t.calls i = some (.create u p a) → a.isWaiting = true) :
    Stage s u t' (t.opensFor u effects) := by
  have hst : Shift t e t' := .of_step he
  have hopens : t.opensFor u effects = [] := by
    obtain ⟨hnil, -⟩ | ⟨i, p, g, seen, payload, b, hc, -⟩ := opensFor_cases ht.custody he u
    · exact hnil
    · cases hwait i p _ (hcalm.new hc rfl) hc
  rw [hopens]
  by_cases hlead : ∃ i p b, s.calls i = none ∧ t'.calls i = some (.create u p b) ∧
      b.isWaiting = false
  · obtain ⟨i, p, b, hnew, hi, hb⟩ := hlead
    obtain ⟨-, -, rfl⟩ | ⟨a, ha, hm⟩ := hst.create_move hi
    · cases hb
    obtain hb' | ⟨hleading, hdialled, htable⟩ := hm.of_waiting (hwait i p a hnew ha) hnone
    · rw [hb] at hb'
      cases hb'
    have hled := Stage.led hs htable hnew hi hleading fun j q b' hne hnewj hj =>
      isWaiting_of_other (Reachable.step ht he).gated hst hnone hi
        (CreatePhase.isInside_of_isLeading hleading) (fun a => hwait j q a hnewj) hne hj
    rwa [hdialled] at hled
  · refine .waiting hs ?_ fun i p b hnew hi =>
      eq_true_of_ne_false fun hb => hlead ⟨i, p, b, hnew, hi, hb⟩
    obtain same | gone | ⟨i, p, g, seen, hi, -⟩ := hst.table_get? u
    · exact liveSession?_eq_none_of_kept ht.custody hst hnone same
    · exact State.liveSession?_of_get?_none gone
    · cases hwait i p _ (hcalm.new hi rfl) hi

theorem led_step (ht : m.Reachable t) (hcalm : Calm s u t) (he : m.step t e = some (t', effects))
    (hattempt : ∀ b, t'.calls i = some (.create u p b) → a.Attempt b → b.isLeading = true)
    (hs : s.liveSession? u = none) (htable : t.table.get? u = none) (hnew : s.calls i = none)
    (hi : t.calls i = some (.create u p a)) (ha : a.isLeading = true)
    (hwait : ∀ j q b, j ≠ i → s.calls j = none → t.calls j = some (.create u q b) →
      b.isWaiting = true) :
    Stage s u t' ((if a.hasDialled then [i] else []) ++ t.opensFor u effects) := by
  have hst : Shift t e t' := .of_step he
  have hnone := State.liveSession?_of_get?_none htable
  obtain ⟨b, hi', hm⟩ := hst.create_on hi
  have others : b.isInside = true → ∀ j q b', j ≠ i → s.calls j = none →
      t'.calls j = some (.create u q b') → b'.isWaiting = true := by
    intro hb j q b' hne hnewj hj
    exact isWaiting_of_other (Reachable.step ht he).gated hst hnone hi' hb
      (fun a => hwait j q a hne hnewj) hne hj
  -- only the leader can dial
  have opens : t.opensFor u effects = [] ∧ (∀ g seen frame, b = .sending g seen frame →
        ∀ g seen payload, a ≠ .dialling g seen payload) ∨
      (∃ g seen payload, a = .dialling g seen payload) ∧ b.hasDialled = true ∧
        t.opensFor u effects = [i] := by
    obtain ⟨hnil, hno⟩ | ⟨k, q, g, seen, payload, b', hk, hk', hdialled, hone⟩ :=
      opensFor_cases ht.custody he u
    · refine .inl ⟨hnil, ?_⟩
      rintro _ _ _ rfl _ _ _ rfl
      exact hno _ _ _ _ _ _ _ _ hi hi'
    · by_cases hki : k = i
      · subst hki
        rw [hi] at hk
        rw [hi'] at hk'
        cases hk
        cases hk'
        exact .inr ⟨⟨g, seen, payload, rfl⟩, hdialled, hone⟩
      · cases hwait k q _ hki (hcalm.new hk rfl) hk
  obtain hb | ⟨g, seen, rfl, rfl, hlisted⟩ :=
    hm.of_leading ha (fun g seen => hcalm.uncounted hi) hnone (hattempt b hi')
  · have htable' : t'.table.get? u = none := by
      obtain same | gone | ⟨k, q, g, seen, hk, -, hk', -⟩ := hst.table_get? u
      · rw [same, htable]
      · exact gone
      · by_cases hki : k = i
        · subst hki
          rw [hi'] at hk'
          cases hk'
          cases hb
        · cases hwait k q _ hki (hcalm.new hk rfl) hk
    have hled := Stage.led hs htable' hnew hi' hb (others (CreatePhase.isInside_of_isLeading hb))
    obtain ⟨hnil, hnot⟩ | ⟨⟨g, seen, payload, rfl⟩, hdialled, hone⟩ := opens
    · obtain hsame | ⟨⟨g, seen, payload, rfl⟩, g', seen', frame, rfl⟩ :=
        hm.hasDialled_of_leading ha hb
      · rw [hnil, List.append_nil, ← hsame]
        exact hled
      · exact absurd rfl (hnot _ _ _ rfl _ _ _)
    · rw [hdialled] at hled
      rw [hone]
      exact hled
  · obtain ⟨hnil, -⟩ | ⟨⟨_, _, _, hdialling⟩, -⟩ := opens
    · rw [hnil]
      refine .settled hlisted (.inr ⟨hs, hnew, rfl⟩) fun j q b hnewj hj => ?_
      by_cases hji : j = i
      · subst hji
        rw [hi'] at hj
        cases hj
        rfl
      · exact CreatePhase.shares_of_isWaiting (others rfl j q b hji hnewj hj)
    · cases hdialling

theorem settled_step (ht : m.Reachable t) (hcalm : Calm s u t)
    (he : m.step t e = some (t', effects)) (hlive : t.liveSession? u = some x)
    (hx : s.liveSession? u = some x ∧ opened = [] ∨
      s.liveSession? u = none ∧ s.calls x = none ∧ opened = [x])
    (hshares : ∀ i p a, s.calls i = none → t.calls i = some (.create u p a) → a.Shares x) :
    Stage s u t' (opened ++ t.opensFor u effects) := by
  have hst : Shift t e t' := .of_step he
  have hlisted := hst.listed_stays hlive hcalm.not_remove hcalm.not_shutdown
  have hopens : t.opensFor u effects = [] := by
    obtain ⟨hnil, -⟩ | ⟨i, p, g, seen, payload, b, hc, -⟩ := opensFor_cases ht.custody he u
    · exact hnil
    · cases hshares i p _ (hcalm.new hc rfl) hc
  rw [hopens, List.append_nil]
  refine .settled hlisted hx fun i p b hnew hi => ?_
  obtain ⟨-, -, rfl⟩ | ⟨a, ha, hm⟩ := hst.create_move hi
  · trivial
  · exact hm.shares (hshares i p a hnew ha) hlive hlisted

/-- **Every step goes on to the same stage or to the next**, if logins that are sent are accepted
and the session that is there for all is live. -/
theorem step (h : Stage s u t opened) (ht : m.Reachable t) (hcalm : Calm s u t)
    (he : m.step t e = some (t', effects))
    (hattempt : ∀ i p a b, s.calls i = none → t.calls i = some (.create u p a) →
      t'.calls i = some (.create u p b) → a.Attempt b → b.isLeading = true)
    (hlive : ∀ x, s.liveSession? u = some x ∨ s.calls x = none → t.table.get? u = some x →
      t.liveSession? u = some x) :
    Stage s u t' (opened ++ t.opensFor u effects) := by
  cases h with
  | waiting hs hnone hwait => exact waiting_step ht hcalm he hs hnone hwait
  | led hs htable hnew hi ha hwait =>
    exact led_step ht hcalm he (fun b => hattempt _ _ _ b hnew hi) hs htable hnew hi ha hwait
  | settled hlisted hx hshares =>
    exact settled_step ht hcalm he (hlive _ (hx.imp And.left fun h => h.2.1) hlisted) hx hshares

end Stage

end Manager

end Corelink
