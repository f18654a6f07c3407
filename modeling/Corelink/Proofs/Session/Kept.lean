import Corelink.Proofs.Session.Shutdown

/-!
# Sessions that nobody closes

A session is kept while it is in the table, and before that while its `create` has still to put it
there (`State.Keeps`). Any other call that has a session in its hands has it for good (`Apart`): the
session is past, and stays past. So a session that is kept at the end of a run has been closed by
nobody on the way (`Reachable.past_of_closing`).
-/

namespace Corelink

namespace Manager

variable {s t : State} {i x : CallId} {c c' : Call} {e : Event} {next : Closing}

/-- Whether session `x` is in the table, or about to be put there. -/
def State.Keeps (s : State) (x : CallId) : Prop :=
  (∃ u, s.table.get? u = some x) ∨
    ∃ u p g seen, s.calls x = some (.create u p (.established g seen))

theorem Past.not_keeps (h : Past x s) : ¬ s.Keeps x := by
  rintro (⟨u, hu⟩ | ⟨u, p, g, seen, hx⟩)
  · exact h.absent u hu
  · obtain ⟨v, q, a, ha, hdec⟩ := h.decided
    rw [hx] at ha
    cases ha
    cases hdec

/-- What a call has in its hands is past, but for a session that its `create` is about to put into
the table. -/
def Apart (s : State) : Prop :=
  ∀ {i x : CallId} {c : Call}, s.calls i = some c → x ∈ c.owned i →
    (∃ u p g seen, c = .create u p (.established g seen)) ∨ Past x s

namespace Apart

theorem of_take {u : String} (hcu : Custody s) (hcu' : Custody t) (ho : Orderly s)
    (hst : Shift s e t) (hx : s.table.get? u = some x) (hgone : t.table.get? u = none) :
    Past x t where
  decided := by
    obtain ⟨p, a, ha, hdec⟩ := hcu.decided ho hx
    obtain ⟨b, hb, hm⟩ := hst.create_on ha
    exact ⟨u, p, b, hb, hm.isDecided hdec⟩
  absent v hv := by
    obtain ⟨a, ha, hau⟩ := hcu.listed hx
    obtain ⟨b, hb, hab⟩ := hcu.session_on hst ha
    obtain ⟨b', hb', hbv⟩ := hcu'.listed hv
    rw [hb] at hb'
    cases hb'
    rw [← hbv, hab.username, hau, hgone] at hv
    cases hv

/-- A `create` that has its session in its hands keeps it for the table, or closes it for good. -/
theorem of_hold {u p : String} {g : CallId} {seen : Nat} (hcu : Custody t) (ho : Orderly t)
    (hst : Shift s e t) (hc : s.calls i = some (.create u p (.established g seen)))
    (hc' : t.calls i = some c') (hx : x ∈ c'.owned i) :
    (∃ u p g seen, c' = .create u p (.established g seen)) ∨ Past x t := by
  obtain ⟨b, hb, hm⟩ := hst.create_on hc
  rw [hb] at hc'
  cases hc'
  have undone : ∀ {result : Option CallId}, b = .undoing g .mark result → Past x t := by
    rintro result rfl
    refine ⟨?_, hcu.not_listed hb hx rfl (ho.not_listed hb hx)⟩
    cases List.mem_singleton.1 hx
    exact ⟨u, p, _, hb, rfl⟩
  cases hm with
  | same => exact .inl ⟨u, p, g, seen, rfl⟩
  | cancel | yield => exact .inr (undone rfl)
  | insert => cases hx
  | attempt ha => cases ha

theorem of_make {b : Session} (hcu : Custody s) (hst : Shift s e t) (hc : s.calls i = some c)
    (hc' : t.calls i = some c') (hnil : c.owned i = []) (hi : c'.owned i = [i])
    (hb : t.sessions i = some b) : ∃ u p g seen, c' = .create u p (.established g seen) := by
  obtain ⟨a, ha, -⟩ | ⟨u, p, g, seen, r, -, hcall, -⟩ := hst.session_from hb
  · -- it had a session before, so it has let go of it already
    obtain ⟨q, a', ha', hans⟩ := hcu.made ha
    rw [hc] at ha'
    cases ha'
    obtain ⟨b', hb', hm⟩ := hst.create_on hc
    rw [hc'] at hb'
    cases hb'
    cases a' with
    | leaving | returned =>
      cases hm with
      | attempt ha => cases ha
      | _ => cases hi
    | established | undoing => cases hnil
    | _ => cases hans
  · rw [hc'] at hcall
    cases hcall
    exact ⟨u, p, g, seen, rfl⟩

theorem shift (h : Apart s) (hcu : Custody s) (ho : Orderly s) (hcu' : Custody t) (ho' : Orderly t)
    (hst : Shift s e t) : Apart t := by
  intro i x c' hi hx
  obtain ⟨r, -, rfl⟩ | ⟨c, hc⟩ := hst.call_from hi
  · rw [Call.owned_start] at hx
    cases hx
  obtain ⟨d, hd, hh⟩ := hst.handover hc
  rw [hi] at hd
  cases hd
  cases hh with
  | hold hkeep =>
    obtain ⟨u, p, g, seen, rfl⟩ | hpast := h hc (hkeep ▸ hx)
    · exact of_hold hcu' ho' hst hc hi hx
    · exact .inr (hpast.shift hst)
  | take _ htaken =>
    obtain ⟨u, hu, hgone, -⟩ := htaken x hx
    exact .inr (of_take hcu hcu' ho hst hu hgone)
  | make hnil hmade hb => exact .inl (of_make hcu hst hc hi hnil hmade hb)
  | drop hcons =>
    obtain ⟨u, p, g, seen, rfl⟩ | hpast := h hc (hcons ▸ List.mem_cons_of_mem _ hx)
    · rw [← (List.cons.inj hcons).2] at hx
      cases hx
    · exact .inr (hpast.shift hst)
  | place _ hnil =>
    rw [hnil] at hx
    cases hx

end Apart

variable {m : Manager}

theorem Reachable.apart (h : m.Reachable s) : Apart s := by
  induction h with
  | start => exact fun hi => by cases hi
  | step hs he ih =>
    have ht := Reachable.step hs he
    exact fun {_ _ _} => ih.shift hs.custody hs.orderly ht.custody ht.orderly (.of_step he)

/-- **Whoever closes a session has taken it away for good.** -/
theorem Reachable.past_of_closing (h : m.Reachable s) (hc : s.calls i = some c)
    (hx : c.closing? i = some (x, next)) : Past x s := by
  obtain ⟨u, p, g, seen, rfl⟩ | hpast := h.apart hc (Call.mem_owned_of_closing hx)
  · cases hx
  · exact hpast

end Manager

end Corelink
