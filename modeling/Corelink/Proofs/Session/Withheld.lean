import Corelink.Proofs.Session.Origin
import Corelink.Proofs.Session.Return
import Corelink.Proofs.Session.Whereabouts

/-!
# What a create gives, and what it keeps back

At its last look at the table it is decided what a `create` gives (`Reachable.gives`). If that is
not its own session, nobody else ever gets hold of that session (`Reachable.withheld`): the `create`
closes it before it returns (`shut_of_returned`). And what it gives instead is a session that was
live at one of its looks (`found_of_run`).
-/

namespace Corelink

namespace Manager

variable {m : Manager} {s t : State} {e : Event} {es : List Event} {i x : CallId} {u p : String}
  {a b phase : CreatePhase} {result : Option CallId} {session : Session} {trace : Trace}

theorem Reachable.exists_run (hs : m.Reachable s) : ∃ es trace, m.run {} es = some (s, trace) := by
  induction hs with
  | start => exact ⟨[], [], rfl⟩
  | step _ he ih =>
    obtain ⟨es, trace, hr⟩ := ih
    exact ⟨_, _, run_concat hr he⟩

/-! ### What has been decided -/

theorem CreateMove.result?_eq (h : CreateMove s t i u a b) (ha : a.isDecided = true) :
    b.result? = a.result? := by
  cases h with
  | same | undoOn | undone | leave => rfl
  | attempt h => cases h <;> cases ha
  | _ => cases ha

theorem Reachable.decided_of_run (hs : m.Reachable s) (hi : s.calls i = some (.create u p a))
    (ha : a.isDecided = true) (hr : m.run s es = some (t, trace)) :
    ∃ b, t.calls i = some (.create u p b) ∧ b.isDecided = true ∧ b.result? = a.result? := by
  refine hs.keeps (P := fun t => ∃ b, t.calls i = some (.create u p b) ∧ b.isDecided = true ∧
    b.result? = a.result?) ?_ ⟨a, hi, ha, rfl⟩ hr
  rintro s t e - hst ⟨b, hb, hdec, hresult⟩
  obtain ⟨b', hb', hm⟩ := hst.create_on hb
  exact ⟨b', hb', hm.isDecided hdec, (hm.result?_eq hdec).trans hresult⟩

/-- From here on call `i` gives this and nothing else, and it can be brought to give it. -/
structure Gives (m : Manager) (s : State) (i : CallId) (u p : String) (result : Option CallId) :
    Prop where
  only : ∀ es t trace given, m.run s es = some (t, trace) →
    t.calls i = some (.create u p (.returned given)) → given = result
  reached : ∃ es t trace, (∀ j r, .call j r ∉ es) ∧ m.run s es = some (t, trace) ∧
    t.calls i = some (.create u p (.returned result))

theorem Reachable.gives (hs : m.Reachable s) (hi : s.calls i = some (.create u p a))
    (ha : a.isDecided = true) : Gives m s i u p a.result? := by
  have only : ∀ es t trace given, m.run s es = some (t, trace) →
      t.calls i = some (.create u p (.returned given)) → given = a.result? := by
    intro es t trace given hr hgiven
    obtain ⟨b, hb, -, hresult⟩ := hs.decided_of_run hi ha hr
    rw [hgiven] at hb
    cases hb
    exact hresult
  obtain ⟨es, t, trace, given, hno, hr, hgiven⟩ := hs.can_return hi
  obtain rfl := only es t trace given hr hgiven
  exact ⟨only, es, t, trace, hno, hr, hgiven⟩

/-- A look at the table that finds a live session decides that the call gives it, and is all that is
done. -/
theorem Reachable.gives_found (hs : m.Reachable s) (hi : s.calls i = some (.create u p phase))
    (hlook : phase = .called ∨ ∃ g seen, phase = .admitted g seen)
    (hlive : s.liveSession? u = some x) :
    ∃ t, m.step s (.proceed i) = some (t, []) ∧ Gives m t i u p (some x) := by
  obtain rfl | ⟨g, seen, rfl⟩ := hlook
  · have he : m.step s (.proceed i) = some (go s i u p (.returned (some x)), []) := by
      simp only [Manager.step, proceed, hi, proceedCreate, enter, hlive]
    exact ⟨_, he, (Reachable.step hs he).gives (assign_same _ _ _) rfl⟩
  · have he : m.step s (.proceed i) = some (go s i u p (.leaving g (some x)), []) := by
      simp only [Manager.step, proceed, hi, proceedCreate, reconcile, hlive]
    exact ⟨_, he, (Reachable.step hs he).gives (assign_same _ _ _) rfl⟩

/-- What a `create` gives that is not its own was live at one of its looks at the table. -/
theorem found_of_run (hr : m.run {} es = some (t, trace))
    (hi : t.calls i = some (.create u p phase)) (hx : phase.result? = some x) (hne : x ≠ i) :
    ∃ before after s seen, es = before ++ after ∧ m.run {} before = some (s, seen) ∧
      s.liveSession? u = some x := by
  refine run_induction (P := fun es t _ => ∀ u p phase x, t.calls i = some (.create u p phase) →
    phase.result? = some x → x ≠ i → ∃ before after s seen, es = before ++ after ∧
      m.run {} before = some (s, seen) ∧ s.liveSession? u = some x) ?_ ?_ hr u p phase x hi hx hne
  · intro u p phase x hi
    cases hi
  · intro es s t e effects trace hrun ih he u p phase' x hi' hx hne
    obtain ⟨-, -, rfl⟩ | ⟨phase, hi, hm⟩ := (Shift.of_step he).create_move hi'
    · cases hx
    have kept : phase.result? = some x → ∃ before after s seen, es ++ [e] = before ++ after ∧
        m.run {} before = some (s, seen) ∧ s.liveSession? u = some x := by
      intro hbefore
      obtain ⟨before, after, s₀, seen, rfl, hs₀, hlive⟩ := ih u p phase x hi hbefore hne
      exact ⟨before, after ++ [e], s₀, seen, List.append_assoc .., hs₀, hlive⟩
    cases hm with
    | same => exact kept hx
    | undoOn | undone | leave => exact kept hx
    | reuse hlive | meet hlive | yield hlive =>
      cases hx
      exact ⟨es, [e], s, trace, rfl, hrun, hlive⟩
    | insert =>
      cases hx
      exact absurd rfl hne
    | attempt ha => cases ha <;> cases hx
    | queue | turn | discard | clear | discardOn | discarded | establish | cancel => cases hx

/-! ### What is kept back -/

/-- A session that its `create` does not give is in the hands of nobody else, and not in the
table. -/
def Withheld (s : State) : Prop :=
  ∀ {i : CallId} {u p : String} {a : CreatePhase}, s.calls i = some (.create u p a) →
    a.isDecided = true → a.result? ≠ some i →
    (∀ v, s.table.get? v ≠ some i) ∧ ∀ j c, s.calls j = some c → i ∈ c.owned j → j = i

theorem Custody.withheld_of_none (h : Custody s) (hnone : s.sessions i = none) :
    (∀ v, s.table.get? v ≠ some i) ∧ ∀ j c, s.calls j = some c → i ∈ c.owned j → j = i := by
  refine ⟨h.not_listed_of_none hnone, fun j c hc hx => ?_⟩
  obtain ⟨session, hsession, -⟩ := h.owned hc hx
  rw [hnone] at hsession
  cases hsession

theorem Shift.sessions_eq_none_of_decided (hst : Shift s e t) (hnone : s.sessions i = none)
    (hb : t.calls i = some (.create u p b)) (hdec : b.isDecided = true) :
    t.sessions i = none := by
  cases hsession : t.sessions i with
  | none => rfl
  | some session =>
    obtain ⟨old, hold, -⟩ | ⟨_, _, _, _, _, -, hmade, -⟩ := hst.session_from hsession
    · rw [hnone] at hold
      cases hold
    · rw [hb] at hmade
      cases hmade
      cases hdec

theorem Withheld.shift (h : Withheld s) (hs : m.Reachable s) (ht : m.Reachable t)
    (hst : Shift s e t) : Withheld t := by
  intro i u p b hb hdec hresult
  obtain ⟨-, -, rfl⟩ | ⟨a, ha, hm⟩ := hst.create_move hb
  · cases hdec
  have apart : s.sessions i = none → (∀ v, t.table.get? v ≠ some i) ∧
      ∀ j c, t.calls j = some c → i ∈ c.owned j → j = i := fun hnone =>
    ht.custody.withheld_of_none (hst.sessions_eq_none_of_decided hnone hb hdec)
  have kept : a.isDecided = true → (∀ v, t.table.get? v ≠ some i) ∧
      ∀ j c, t.calls j = some c → i ∈ c.owned j → j = i := by
    intro hadec
    obtain ⟨hlist, howned⟩ := h ha hadec (hm.result?_eq hadec ▸ hresult)
    have hpast : Past i t := Past.shift ⟨⟨u, p, a, ha, hadec⟩, hlist⟩ hst
    refine ⟨hpast.absent, fun j d hd hx => ?_⟩
    obtain ⟨c, hc, hxc⟩ | ⟨v, hv⟩ | hnone := Sole.owned_from hs hst hd hx
    · exact howned j c hc hxc
    · exact absurd hv (hlist v)
    · exact (apart hnone).2 j d hd hx
  -- a session that has just been refused the table is in the hands of its own call
  have own : i ∈ (Call.create u p b).owned i → (∀ v, t.table.get? v ≠ some i) ∧
      ∀ j c, t.calls j = some c → i ∈ c.owned j → j = i := fun hx =>
    ⟨ht.not_listed hb hx, fun j c hc hxc => ht.sole.unique hc hb hxc hx⟩
  cases hm with
  | same => exact kept hdec
  | undoOn | undone | leave => exact kept rfl
  | reuse | meet => exact apart (hs.custody.sessions_eq_none ha rfl)
  | attempt hattempt =>
    cases hattempt with
    | unprepared | undialled | unwritten | refused =>
      exact apart (hs.custody.sessions_eq_none ha rfl)
    | _ => cases hdec
  | cancel | yield => exact own (List.mem_singleton_self _)
  | insert => exact absurd rfl hresult
  | queue | turn | discard | clear | discardOn | discarded | establish => cases hdec

theorem Reachable.withheld (hs : m.Reachable s) : Withheld s := by
  induction hs with
  | start => exact fun h => by cases h
  | step hs he ih => exact fun hi => ih.shift hs (.step hs he) (.of_step he) hi

/-- Who gives the session of another call has none of its own. -/
def Guest (s : State) : Prop :=
  ∀ {i x : CallId} {u p : String} {a : CreatePhase}, s.calls i = some (.create u p a) →
    a.result? = some x → x ≠ i → s.sessions i = none

theorem Guest.shift (h : Guest s) (hs : m.Reachable s) (hst : Shift s e t) : Guest t := by
  intro i x u p b hb hx hne
  obtain ⟨-, -, rfl⟩ | ⟨a, ha, hm⟩ := hst.create_move hb
  · cases hx
  have stays : b.isDecided = true → s.sessions i = none → t.sessions i = none :=
    fun hdec hnone => hst.sessions_eq_none_of_decided hnone hb hdec
  cases hm with
  | same =>
    cases b with
    | undoing | leaving | returned => exact stays rfl (h ha hx hne)
    | _ => cases hx
  | undoOn | undone | leave => exact stays rfl (h ha hx hne)
  | reuse | meet => exact stays rfl (hs.custody.sessions_eq_none ha rfl)
  | yield hlive =>
    -- a login that is accepted finds nobody at its last look
    rw [State.liveSession?_of_get?_none (hs.orderly.cleared ha rfl)] at hlive
    cases hlive
  | insert =>
    cases hx
    exact absurd rfl hne
  | attempt hattempt => cases hattempt <;> cases hx
  | queue | turn | discard | clear | discardOn | discarded | establish | cancel => cases hx

theorem Reachable.guest (hs : m.Reachable s) : Guest s := by
  induction hs with
  | start => exact fun h => by cases h
  | step hs he ih => exact fun hi => ih.shift hs (.of_step he) hi

/-- **Who returns without its own session has closed it.** -/
theorem shut_of_returned (hr : m.run {} es = some (t, trace))
    (hi : t.calls i = some (.create u p (.returned result))) (hresult : result ≠ some i)
    (hsession : t.sessions i = some session) :
    session.live = false ∧ session.writer = false ∧ session.keepAlive = .ended := by
  have hs : m.Reachable t := .run .start hr
  obtain ⟨hlist, howned⟩ := hs.withheld hi rfl hresult
  have htraced := traced_of_run i hr
  have hshows := htraced.shows hsession
  have hwhere := htraced.whereabouts hsession
  generalize closings m i {} es = log at hshows hwhere
  cases hwhere with
  | listed hlisted => exact absurd hlisted (hlist _)
  | @owned j c hc hx =>
    obtain rfl := howned j c hc hx
    rw [hi] at hc
    cases hc
    cases hx
  | closed j =>
    obtain ⟨hlive, -, hwriter, hended⟩ := hshows
    exact ⟨hlive (by simp [Closing.all]), hwriter.2 (by simp [Closing.all]),
      hended (by simp [Closing.all])⟩

end Manager

end Corelink
