import Corelink.Proofs.Session.Turns

/-!
# Who answers for an open session

A session is open as long as its write half is there. Every open session is in the table, or
in the hands of a call that has still to put it in or to close it (`Custody`). A step that
hands sessions over is one of five (`Handover`): a call keeps what it has, takes sessions
from the table, makes its own, is done with closing one, or puts its own into the table.
-/

namespace Corelink

namespace CreatePhase

/-- Whether the call waits for Core no more. -/
def isAnswered : CreatePhase → Bool
  | established .. | undoing .. | leaving .. | returned _ => true
  | _ => false

end CreatePhase

namespace Call

variable {c c' : Call} {i x : CallId} {next next' : Closing}

theorem username?_of_request (h : c'.request = c.request) : c'.username? = c.username? := by
  cases c <;> cases c' <;> cases h <;> rfl

@[simp] theorem owned_start (r : Request) : r.start.owned i = [] := by
  cases r <;> rfl

theorem hasCleared_of_owned {u p : String} {a : CreatePhase} (h : x ∈ (create u p a).owned i) :
    a.hasCleared = true := by
  cases a <;> first | rfl | cases h

theorem eq_of_owned_create {u p : String} {a : CreatePhase} {y : CallId}
    (hx : x ∈ (create u p a).owned i) (hy : y ∈ (create u p a).owned i) : x = y := by
  cases a with
  | discarding | established | undoing =>
    rw [List.mem_singleton.1 hx, List.mem_singleton.1 hy]
  | _ => cases hx

@[simp] theorem owned_closeOn (next : Closing) (c : Call) :
    (c.closeOn next).owned i = c.owned i := by
  rcases c with ⟨u, p, phase⟩ | ⟨u, phase⟩ | phase <;> cases phase <;> rfl

theorem owned_closed (h : c.closing? i = some (x, next)) : c.owned i = x :: c.closed.owned i := by
  rcases c with ⟨u, p, phase⟩ | ⟨u, phase⟩ | phase
  · cases phase <;> cases h <;> rfl
  · cases phase <;> cases h
    rfl
  · rcases phase with _ | ⟨total, _ | _, next⟩ | _ <;> cases h
    rfl

theorem mem_owned_of_closing (h : c.closing? i = some (x, next)) : x ∈ c.owned i := by
  rw [owned_closed h]
  exact List.mem_cons_self

theorem closing?_closeOn (h : c.closing? i = some (x, next)) (next' : Closing) :
    (c.closeOn next').closing? i = some (x, next') := by
  rcases c with ⟨u, p, phase⟩ | ⟨u, phase⟩ | phase
  · cases phase <;> cases h <;> rfl
  · cases phase <;> cases h
    rfl
  · rcases phase with _ | ⟨total, _ | _, next⟩ | _ <;> cases h
    rfl

theorem closing?_closed (h : c.closing? i = some (x, next)) {y : CallId}
    (hy : c.closed.closing? i = some (y, next')) : next' = .mark := by
  rcases c with ⟨u, p, phase⟩ | ⟨u, phase⟩ | phase
  · cases phase <;> cases h <;> cases hy
  · cases phase <;> cases h
    cases hy
  · rcases phase with _ | ⟨total, _ | ⟨_, _ | _⟩, next⟩ | _ <;> cases h <;> cases hy
    rfl

end Call

namespace Closing

variable {x : CallId} {a b : Session} {next : Closing} {effects : List Effect}

theorem writer_of_join (h : next.step x a = some ⟨b, some join, effects⟩) : b.writer = false := by
  cases does h <;> rfl

theorem join_of_done (h : next.step x a = some ⟨b, none, effects⟩) : next = join := by
  cases does h
  rfl

end Closing

namespace Manager

variable {s t : State}

/-! ### What a shift means for sessions in the hands of a call -/

/-- What a step means for the sessions in the hands of call `i`. -/
inductive Handover (s t : State) (i : CallId) (c c' : Call) : Prop where
  | hold : c'.owned i = c.owned i → Handover s t i c c'
  | take : c.owned i = [] →
    (∀ x ∈ c'.owned i, ∃ u, s.table.get? u = some x ∧ t.table.get? u = none ∧
      ∀ v, c.username? = some v → v = u) →
    Handover s t i c c'
  | make {b : Session} : c.owned i = [] → c'.owned i = [i] → t.sessions i = some b →
    c.username? = some b.username → Handover s t i c c'
  /-- There was no such session, or its keep-alive has ended. -/
  | drop {x : CallId} : c.owned i = x :: c'.owned i →
    (s.sessions x = none ∨ c.closing? i = some (x, .join)) → Handover s t i c c'
  | place {u : String} : c.owned i = [i] → c'.owned i = [] → c.username? = some u →
    t.table.get? u = some i → Handover s t i c c'

variable {r : State} {i j x : CallId} {c c' d : Call} {e : Event}

theorem Handover.of_setCall (hr : r.calls = s.calls) (hj : s.calls j = some c)
    (own : Handover s t j c c') (hi : s.calls i = some d) :
    ∃ d', (r.setCall j c').calls i = some d' ∧ Handover s t i d d' := by
  rw [State.setCall_calls, assign_apply, hr]
  split
  · next e =>
    subst e
    rw [hj] at hi
    cases hi
    exact ⟨c', rfl, own⟩
  · exact ⟨d, hi, .hold rfl⟩

theorem CreatePhase.Attempt.owned {a b : CreatePhase} (h : a.Attempt b) (u p : String) :
    (Call.create u p b).owned i = (Call.create u p a).owned i := by
  cases h <;> rfl

theorem Shift.handover (h : Shift s e t) (hi : s.calls i = some d) :
    ∃ d', t.calls i = some d' ∧ Handover s t i d d' := by
  cases h with
  | @call j r hj =>
    refine ⟨d, ?_, .hold rfl⟩
    rw [State.setCall_calls, assign_ne]
    · exact hi
    · rintro rfl
      rw [hj] at hi
      cases hi
  | keepAlive => exact ⟨d, hi, .hold rfl⟩
  | closeOn hj => exact Handover.of_setCall rfl hj (.hold (Call.owned_closeOn _ _)) hi
  | closed hj hx _ hb =>
    cases Closing.join_of_done hb
    exact Handover.of_setCall rfl hj (.drop (Call.owned_closed hx) (.inr hx)) hi
  | unmade hj hx hs => exact Handover.of_setCall rfl hj (.drop (Call.owned_closed hx) (.inl hs)) hi
  | queue hj _ hg => exact Handover.of_setCall (holdGate_spec hg).2.2.1 hj (.hold rfl) hi
  | clear hj =>
    refine Handover.of_setCall rfl hj (.take rfl fun x hx => ?_) hi
    split at hx
    · next hu =>
      cases List.mem_singleton.1 hx
      refine ⟨_, hu, ?_, fun v hv => (Option.some.inj hv).symm⟩
      rw [State.setCall_table, Directory.get?_erase, if_pos rfl]
    · cases hx
  | attempt hj ha => exact Handover.of_setCall rfl hj (.hold (CreatePhase.Attempt.owned ha _ _)) hi
  | establish hj => exact Handover.of_setCall rfl hj (.make rfl rfl (assign_same _ _ _) rfl) hi
  | insert hj =>
    refine Handover.of_setCall rfl hj (.place rfl rfl rfl ?_) hi
    rw [State.setCall_table, Directory.get?_insert, if_pos rfl]
  | leave hj => exact Handover.of_setCall (releaseGate_calls _ _ _) hj (.hold rfl) hi
  | reuse hj | turn hj | meet hj | cancel hj | yield hj | startClosing hj | finish hj =>
    exact Handover.of_setCall rfl hj (.hold rfl) hi
  | takeOut hj =>
    refine Handover.of_setCall (passGate_calls _ _) hj (.take rfl fun x hx => ?_) hi
    split at hx
    · next hu =>
      cases List.mem_singleton.1 hx
      refine ⟨_, hu, ?_, fun v hv => (Option.some.inj hv).symm⟩
      rw [State.setCall_table, Directory.get?_erase, if_pos rfl]
    · cases hx
  | drain hj =>
    refine Handover.of_setCall rfl hj (.take rfl fun x hx => ?_) hi
    obtain ⟨⟨u, y⟩, hy, rfl⟩ := List.mem_map.1 hx
    exact ⟨u, Directory.mem_entries_iff.1 hy, rfl, fun v hv => by cases hv⟩

/-- Who stands before a step of closing stood there before the shift, or begins to close, or has
just taken the step before. -/
theorem Shift.closing_from {next' : Closing} (h : Shift s e t) (hi : t.calls i = some d)
    (hx : d.closing? i = some (x, next')) :
    next' = .mark ∨ (∃ c, s.calls i = some c ∧ c.closing? i = some (x, next')) ∨
      ∃ c a b next effects, s.calls i = some c ∧ c.closing? i = some (x, next) ∧
        s.sessions x = some a ∧ t.sessions x = some b ∧
        next.step x a = some ⟨b, some next', effects⟩ := by
  -- a call that takes any other step comes to stand before the first step of closing, if any
  have other : ∀ {r : State} {j : CallId} {c' : Call}, r.calls = s.calls →
      (r.setCall j c').calls i = some d →
      (c'.closing? j = some (x, next') → next' = .mark) →
      next' = .mark ∨ (∃ c, s.calls i = some c ∧ c.closing? i = some (x, next')) ∨
        ∃ c a b next effects, s.calls i = some c ∧ c.closing? i = some (x, next) ∧
          s.sessions x = some a ∧ t.sessions x = some b ∧
          next.step x a = some ⟨b, some next', effects⟩ := by
    intro r j c' hr hd hc'
    rw [State.setCall_calls, assign_apply, hr] at hd
    split at hd
    · next e =>
      subst e
      cases hd
      exact .inl (hc' hx)
    · exact .inr (.inl ⟨d, hd, hx⟩)
  cases h with
  | @call j r hj => exact other rfl hi (by cases r <;> exact nofun)
  | keepAlive => exact .inr (.inl ⟨d, hi, hx⟩)
  | @closeOn _ j y c a b next next' effects hj hy ha hb =>
    rw [State.setCall_calls, assign_apply] at hi
    split at hi
    · next e =>
      subst e
      cases hi
      rw [Call.closing?_closeOn hy] at hx
      cases hx
      exact .inr (.inr ⟨c, a, b, next, effects, hj, hy, ha, assign_same _ _ _, hb⟩)
    · exact .inr (.inl ⟨d, hi, hx⟩)
  | closed hj hy => exact other rfl hi (Call.closing?_closed hy)
  | unmade hj hy => exact other rfl hi (Call.closing?_closed hy)
  | queue _ _ hg => exact other (holdGate_spec hg).2.2.1 hi nofun
  | clear =>
    refine other rfl hi fun h => ?_
    split at h <;> cases h
    rfl
  | takeOut => exact other (passGate_calls _ _) hi fun h => by split at h <;> cases h
  | drain =>
    refine other rfl hi fun h => ?_
    cases hs : s.table.entries.map Prod.snd <;> rw [hs] at h <;> cases h
    rfl
  | attempt _ ha => exact other rfl hi (by cases ha <;> exact nofun)
  | leave => exact other (releaseGate_calls _ _ _) hi nofun
  | cancel | yield | startClosing =>
    refine other rfl hi fun h => ?_
    cases h
    rfl
  | reuse | turn | meet | establish | insert | finish => exact other rfl hi nofun

theorem Shift.joining (h : Shift s e t) (hi : t.calls i = some d)
    (hx : d.closing? i = some (x, .join)) :
    (∃ c, s.calls i = some c ∧ c.closing? i = some (x, .join)) ∨
      ∃ b, t.sessions x = some b ∧ b.writer = false := by
  obtain hmark | before | ⟨c, a, b, next, effects, -, -, -, hb, hstep⟩ := h.closing_from hi hx
  · cases hmark
  · exact .inl before
  · exact .inr ⟨b, hb, Closing.writer_of_join hstep⟩

/-- What leaves the table goes into the hands of the call that took it out, unless another
session is put in its place. -/
theorem Shift.table_on {u : String} (h : Shift s e t) (hx : s.table.get? u = some x) :
    t.table.get? u = some x ∨ (∃ i c, t.calls i = some c ∧ x ∈ c.owned i) ∨
      ∃ i p g seen, s.calls i = some (.create u p (.established g seen)) := by
  cases h with
  | clear | takeOut =>
    rw [State.setCall_table, Directory.get?_erase]
    split
    · next e =>
      subst e
      refine .inr (.inl ⟨_, _, assign_same _ _ _, ?_⟩)
      rw [hx]
      exact List.mem_singleton_self x
    · exact .inl hx
  | @drain _ i hi =>
    refine .inr (.inl ⟨i, _, assign_same _ _ _, ?_⟩)
    exact List.mem_map.2 ⟨(u, x), Directory.mem_entries_iff.2 hx, rfl⟩
  | @insert _ i g v p seen hi =>
    rw [State.setCall_table, Directory.get?_insert]
    split
    · next e =>
      subst e
      exact .inr (.inr ⟨i, p, g, seen, hi⟩)
    · exact .inl hx
  | queue _ _ hg => exact .inl (by rw [State.setCall_table, (holdGate_spec hg).1, hx])
  | leave => exact .inl (by rw [State.setCall_table, releaseGate_table, hx])
  | _ => exact .inl hx

/-! ### The invariant -/

/-- Sessions, the table and the calls that have sessions in their hands fit together. -/
structure Custody (s : State) : Prop where
  /-- A session bears the number of the login that made it. -/
  made : ∀ {x : CallId} {a : Session}, s.sessions x = some a →
    ∃ p b, s.calls x = some (.create a.username p b) ∧ b.isAnswered = true
  listed : ∀ {u : String} {x : CallId}, s.table.get? u = some x →
    ∃ a, s.sessions x = some a ∧ a.username = u
  owned : ∀ {i x : CallId} {c : Call}, s.calls i = some c → x ∈ c.owned i →
    ∃ a, s.sessions x = some a ∧ ∀ u, c.username? = some u → a.username = u
  shut : ∀ {i x : CallId} {c : Call} {a : Session}, s.calls i = some c →
    c.closing? i = some (x, .join) → s.sessions x = some a → a.writer = false
  found : ∀ {x : CallId} {a : Session}, s.sessions x = some a → a.writer = true →
    s.table.get? a.username = some x ∨ ∃ i c, s.calls i = some c ∧ x ∈ c.owned i

theorem CreateMove.isAnswered {u : String} {a b : CreatePhase} (h : CreateMove s t i u a b)
    (ha : a.isAnswered = true) : b.isAnswered = true := by
  cases h with
  | same => exact ha
  | attempt hatt => cases hatt <;> cases ha
  | reuse | queue | turn | meet | discard | clear | discardOn | discarded | establish => cases ha
  | cancel | yield | insert | undoOn | undone | leave => rfl

namespace Custody

theorem start : Custody {} where
  made h := by cases h
  listed h := by cases h
  owned h := by cases h
  shut h := by cases h
  found h := by cases h

theorem session_on (h : Custody s) (hst : Shift s e t) {a : Session}
    (hx : s.sessions x = some a) : ∃ b, t.sessions x = some b ∧ a.Aged b := by
  obtain ⟨b, hb⟩ := hst.session_kept hx
  obtain ⟨a', ha', hab⟩ | ⟨u, p, g, seen, r, hcall, -⟩ := hst.session_from hb
  · rw [hx] at ha'
    cases ha'
    exact ⟨b, hb, hab⟩
  · obtain ⟨q, c, hc, hans⟩ := h.made hx
    rw [hcall] at hc
    cases hc
    cases hans

/-- What the steps of closing leave behind, and no step takes back, is there before each step of
closing. -/
theorem closing_shift (h : Custody s) (hst : Shift s e t) {P : Closing → Session → Prop}
    (hmark : ∀ a, P .mark a)
    (haged : ∀ {next : Closing} {a b : Session}, P next a → a.Aged b → P next b)
    (hstep : ∀ {y : CallId} {next next' : Closing} {a b : Session} {effects : List Effect},
      P next a → next.step y a = some ⟨b, some next', effects⟩ → P next' b)
    (hP : ∀ {i x : CallId} {c : Call} {next : Closing} {a : Session}, s.calls i = some c →
      c.closing? i = some (x, next) → s.sessions x = some a → P next a)
    {next : Closing} {b : Session} (hi : t.calls i = some d) (hx : d.closing? i = some (x, next))
    (hb : t.sessions x = some b) : P next b := by
  obtain rfl | ⟨c, hc, hcx⟩ | ⟨c, a, b', next₀, effects, hc, hcx, ha, hb', hclosing⟩ :=
    hst.closing_from hi hx
  · exact hmark b
  · obtain ⟨a, ha, -⟩ := h.owned hc (Call.mem_owned_of_closing hcx)
    obtain ⟨b', hb', hab⟩ := h.session_on hst ha
    rw [hb] at hb'
    cases hb'
    exact haged (hP hc hcx ha) hab
  · rw [hb] at hb'
    cases hb'
    exact hstep (hP hc hcx ha) hclosing

theorem made_shift (h : Custody s) (hst : Shift s e t) {b : Session}
    (hx : t.sessions x = some b) :
    ∃ p c, t.calls x = some (.create b.username p c) ∧ c.isAnswered = true := by
  obtain ⟨a, ha, hab⟩ | ⟨u, p, g, seen, r, -, hcall, hu⟩ := hst.session_from hx
  · obtain ⟨p, c, hc, hans⟩ := h.made ha
    obtain ⟨c', hc', hm⟩ := hst.create_on hc
    exact ⟨p, c', hab.username ▸ hc', hm.isAnswered hans⟩
  · exact ⟨p, _, hu ▸ hcall, rfl⟩

theorem listed_shift (h : Custody s) (hst : Shift s e t) {u : String}
    (hx : t.table.get? u = some x) : ∃ b, t.sessions x = some b ∧ b.username = u := by
  have on : ∀ {a : Session}, s.sessions x = some a → a.username = u →
      ∃ b, t.sessions x = some b ∧ b.username = u := by
    intro a ha hu
    obtain ⟨b, hb, hab⟩ := h.session_on hst ha
    exact ⟨b, hb, hab.username.trans hu⟩
  obtain same | gone | ⟨i, p, g, seen, hi, -, -, hput⟩ := hst.table_get? u
  · rw [same] at hx
    obtain ⟨a, ha, hu⟩ := h.listed hx
    exact on ha hu
  · rw [gone] at hx
    cases hx
  · rw [hput] at hx
    cases hx
    obtain ⟨a, ha, hu⟩ := h.owned hi (List.mem_singleton_self _)
    exact on ha (hu u rfl)

theorem owned_shift (h : Custody s) (hst : Shift s e t) {c' : Call} (hi : t.calls i = some c')
    (hx : x ∈ c'.owned i) :
    ∃ b, t.sessions x = some b ∧ ∀ u, c'.username? = some u → b.username = u := by
  obtain ⟨r, -, rfl⟩ | ⟨c, hc⟩ := hst.call_from hi
  · rw [Call.owned_start] at hx
    cases hx
  obtain ⟨d, hd, hh⟩ := hst.handover hc
  obtain ⟨d', hd', hreq⟩ := hst.request_kept hc
  rw [hi] at hd hd'
  cases hd
  cases hd'
  rw [Call.username?_of_request hreq]
  have on : ∀ {a : Session}, s.sessions x = some a → (∀ u, c.username? = some u → a.username = u) →
      ∃ b, t.sessions x = some b ∧ ∀ u, c.username? = some u → b.username = u := by
    intro a ha hu
    obtain ⟨b, hb, hab⟩ := h.session_on hst ha
    exact ⟨b, hb, fun u hcu => hab.username.trans (hu u hcu)⟩
  cases hh with
  | hold ho =>
    rw [ho] at hx
    obtain ⟨a, ha, hu⟩ := h.owned hc hx
    exact on ha hu
  | take _ ht =>
    obtain ⟨v, hv, -, hvu⟩ := ht x hx
    obtain ⟨a, ha, hau⟩ := h.listed hv
    exact on ha fun u hcu => hau.trans (hvu u hcu).symm
  | make _ ho hb hu =>
    rw [ho, List.mem_singleton] at hx
    subst hx
    exact ⟨_, hb, fun u hcu => Option.some.inj (hu.symm.trans hcu)⟩
  | drop ho =>
    obtain ⟨a, ha, hu⟩ := h.owned hc (ho ▸ List.mem_cons_of_mem _ hx)
    exact on ha hu
  | place _ ho =>
    rw [ho] at hx
    cases hx

theorem shut_shift (h : Custody s) (hst : Shift s e t) {c' : Call} {b : Session}
    (hi : t.calls i = some c') (hx : c'.closing? i = some (x, .join))
    (hb : t.sessions x = some b) : b.writer = false := by
  obtain ⟨c, hc, hcx⟩ | ⟨b', hb', hw⟩ := hst.joining hi hx
  · obtain ⟨a, ha, -⟩ := h.owned hc (Call.mem_owned_of_closing hcx)
    obtain ⟨b', hb', hab⟩ := h.session_on hst ha
    rw [hb] at hb'
    cases hb'
    have haw := h.shut hc hcx ha
    cases hbw : b.writer with
    | false => rfl
    | true => rw [hab.writer hbw] at haw; cases haw
  · rw [hb] at hb'
    cases hb'
    exact hw

theorem found_shift (h : Custody s) (ho : Orderly s) (hst : Shift s e t) {b : Session}
    (hx : t.sessions x = some b) (hw : b.writer = true) :
    t.table.get? b.username = some x ∨ ∃ i c, t.calls i = some c ∧ x ∈ c.owned i := by
  obtain ⟨a, ha, hab⟩ | ⟨u, p, g, seen, r, -, hcall, -⟩ := hst.session_from hx
  · obtain hlisted | ⟨i, c, hc, hxc⟩ := h.found ha (hab.writer hw)
    · obtain hstill | howned | ⟨i, p, g, seen, hi⟩ := hst.table_on hlisted
      · exact .inl (hab.username ▸ hstill)
      · exact .inr howned
      · rw [ho.cleared hi rfl] at hlisted
        cases hlisted
    · obtain ⟨c', hc', hh⟩ := hst.handover hc
      cases hh with
      | hold hkeep => exact .inr ⟨i, c', hc', hkeep ▸ hxc⟩
      | take hnil | make hnil =>
        rw [hnil] at hxc
        cases hxc
      | drop hcons hgone =>
        rw [hcons, List.mem_cons] at hxc
        obtain rfl | hrest := hxc
        · obtain hnone | hjoin := hgone
          · rw [hnone] at ha
            cases ha
          · have hclosed := h.shut hc hjoin ha
            rw [hab.writer hw] at hclosed
            cases hclosed
        · exact .inr ⟨i, c', hc', hrest⟩
      | place hone _ hu hput =>
        rw [hone, List.mem_singleton] at hxc
        subst hxc
        obtain ⟨a', ha', hau⟩ := h.owned hc (hone ▸ List.mem_singleton_self _)
        rw [ha] at ha'
        cases ha'
        rw [hab.username, hau _ hu]
        exact .inl hput
  · exact .inr ⟨x, _, hcall, List.mem_singleton_self x⟩

theorem shift (h : Custody s) (ho : Orderly s) (hst : Shift s e t) : Custody t where
  made := h.made_shift hst
  listed := h.listed_shift hst
  owned := h.owned_shift hst
  shut := h.shut_shift hst
  found := h.found_shift ho hst

end Custody

theorem Reachable.custody {m : Manager} (h : m.Reachable s) : Custody s := by
  induction h with
  | start => exact .start
  | step hs he ih => exact ih.shift hs.orderly (.of_step he)

/-! ### What is not in the table -/

section
variable {u p : String} {a : CreatePhase}

theorem Custody.not_listed (h : Custody s) (hi : s.calls i = some c) (hx : x ∈ c.owned i)
    (hu : c.username? = some u) (hnone : s.table.get? u = none) (v : String) :
    s.table.get? v ≠ some x := by
  intro hv
  obtain ⟨a, ha, hau⟩ := h.owned hi hx
  obtain ⟨a', ha', rfl⟩ := h.listed hv
  rw [ha] at ha'
  cases ha'
  rw [hau u hu, hnone] at hv
  cases hv

theorem Custody.sessions_eq_none (h : Custody s) (hi : s.calls i = some (.create u p a))
    (ha : a.isAnswered = false) : s.sessions i = none := by
  cases hx : s.sessions i with
  | none => rfl
  | some b =>
    obtain ⟨q, a', hc, hans⟩ := h.made hx
    rw [hi] at hc
    cases hc
    rw [ha] at hans
    cases hans

theorem Custody.not_listed_of_none (h : Custody s) (hx : s.sessions x = none) (v : String) :
    s.table.get? v ≠ some x := by
  intro hv
  obtain ⟨a, ha, -⟩ := h.listed hv
  rw [hx] at ha
  cases ha

end

/-! ### Two open sessions of one user -/

section
variable {m : Manager} {y : CallId} {a b : Session} {u : String}

/-- Whether call `i` is a `remove` of `u` or a `shutdown` that has yet to shut session `x`. -/
def IsShutting (s : State) (u : String) (i x : CallId) : Prop :=
  ∃ c, s.calls i = some c ∧ x ∈ c.owned i ∧ c.closing? i ≠ some (x, .join) ∧
    (c.request = .remove u ∨ c.request = .shutdown)

theorem Custody.isShutting (h : Custody s) (hx : s.sessions x = some a) (hw : a.writer = true)
    (hc : s.calls i = some c) (hxc : x ∈ c.owned i)
    (hnot : ∀ p b, c ≠ .create a.username p b) : IsShutting s a.username i x := by
  obtain ⟨a', ha', hu⟩ := h.owned hc hxc
  rw [hx] at ha'
  cases ha'
  refine ⟨c, hc, hxc, fun hjoin => ?_, ?_⟩
  · rw [h.shut hc hjoin hx] at hw
    cases hw
  · cases c with
    | create v p b => exact absurd (hu v rfl ▸ rfl) (hnot p b)
    | remove v => exact .inl (congrArg Request.remove (hu v rfl).symm)
    | shutdown => exact .inr rfl

/-- While a `create` of a user has a session in its hands, none of theirs is in the table. -/
theorem Orderly.not_listed (h : Orderly s) {p : String} {b : CreatePhase}
    (hi : s.calls i = some (.create u p b)) (hx : x ∈ (Call.create u p b).owned i) :
    s.table.get? u = none :=
  h.cleared hi (Call.hasCleared_of_owned hx)

/-- **Of two open sessions of one user, one is to be shut by a `remove` or a `shutdown`** that
has taken it out of the table. No `create` leaves an older session open. -/
theorem Reachable.isShutting_of_two_open (h : m.Reachable s) (hxy : x ≠ y)
    (hx : s.sessions x = some a) (hy : s.sessions y = some b) (hu : b.username = a.username)
    (hax : a.writer = true) (hby : b.writer = true) :
    ∃ i, IsShutting s a.username i x ∨ IsShutting s a.username i y := by
  have ho := h.orderly
  have hcu := h.custody
  obtain hlx | ⟨i, c, hc, hxc⟩ := hcu.found hx hax
  · obtain hly | ⟨j, d, hd, hyd⟩ := hcu.found hy hby
    · rw [hu, hlx] at hly
      exact absurd (Option.some.inj hly) hxy
    · refine ⟨j, .inr (hu ▸ hcu.isShutting hy hby hd hyd ?_)⟩
      rintro q b' rfl
      rw [hu] at hd hyd
      rw [ho.not_listed hd hyd] at hlx
      cases hlx
  · by_cases hcreate : ∃ p b', c = .create a.username p b'
    · obtain ⟨p, b', rfl⟩ := hcreate
      obtain hly | ⟨j, d, hd, hyd⟩ := hcu.found hy hby
      · rw [hu, ho.not_listed hc hxc] at hly
        cases hly
      · refine ⟨j, .inr (hu ▸ hcu.isShutting hy hby hd hyd ?_)⟩
        rintro q d' rfl
        rw [hu] at hd hyd
        -- both creates are past the gate, so they are one call, with one session in its hands
        have hij : i = j := ho.gated.create_unique hc hd
          (CreatePhase.isInside_of_hasCleared (Call.hasCleared_of_owned hxc))
          (CreatePhase.isInside_of_hasCleared (Call.hasCleared_of_owned hyd))
        subst hij
        rw [hc] at hd
        cases hd
        exact hxy (Call.eq_of_owned_create hxc hyd)
    · refine ⟨i, .inl (hcu.isShutting hx hax hc hxc ?_)⟩
      exact fun p b' hcb => hcreate ⟨p, b', hcb⟩

/-- That a `remove` closes outside the gate shows: here it has taken session 0 out of the table,
and before it shuts the connection, Core accepts the next login of the same user. -/
theorem relogin_before_shut : ∃ s a b, Reachable .loopback s ∧
    s.sessions 0 = some a ∧ s.sessions 2 = some b ∧ a.username = "u" ∧ b.username = "u" ∧
    a.writer = true ∧ b.writer = true ∧ IsShutting s "u" 1 0 := by
  have hs : Reachable .loopback _ := .run .start (rfl : run _ {}
    [.call 0 (.create "u" "p"), .proceed 0, .proceed 0, .proceed 0, .proceed 0, .dial 0 .opened,
      .write 0 .done, .read 0 (.bytes 70 [83, 88, 49, 1, 13, 0, 0, 0, 15, 0, 0, 1, 0, 0, 0, 0, 0,
        0, 0, 0, 0, 0, 0, 0, 0, 0]), .proceed 0, .proceed 0,
      .call 1 (.remove "u"), .proceed 1,
      .call 2 (.create "u" "p"), .proceed 2, .proceed 2, .proceed 2, .proceed 2, .dial 2 .opened,
      .write 2 .done, .read 2 (.bytes 70 [83, 88, 49, 1, 13, 0, 0, 0, 15, 0, 0, 1, 0, 0, 0, 0, 0,
        0, 0, 0, 0, 0, 0, 0, 0, 0])] = some (_, _))
  exact ⟨_, _, _, hs, rfl, rfl, rfl, rfl, rfl, rfl, _, rfl, List.mem_singleton_self 0, nofun,
    .inl rfl⟩

end

end Manager

end Corelink
