import Corelink.Proofs.Session.Kept
import Corelink.Proofs.Session.Served

/-!
# One pair of hands for each session

A session that is in the hands of a call is there once, in nobody else's, and not in the table
(`Sole`). Only its own next step brings a call that is closing a session on (`call_stays`), and that
step is one of closing (`closing_spec`). `closings` lists these steps over a run, session by
session.
-/

namespace Corelink

namespace Call

variable {c : Call} {i x : CallId} {next : Closing}

theorem hasReturned_of_owned (h : x ∈ c.owned i) : c.hasReturned = false := by
  rcases c with ⟨u, p, phase⟩ | ⟨u, phase⟩ | phase
  · cases phase <;> first | rfl | cases h
  · cases phase <;> first | rfl | cases h
  · cases phase <;> first | rfl | cases h

/-- The call after a step of closing, given the step that follows. -/
def after : Option Closing → Call → Call
  | some next, c => c.closeOn next
  | none, c => c.closed

end Call

namespace Manager

variable {m : Manager} {s t : State} {e : Event} {es : List Event} {i j x y : CallId}
  {c c' d : Call} {next : Closing} {effects : List Effect} {trace : Trace} {a b : Session}

/-! ### Runs -/

/-- What holds before the first event and is kept by one more, whatever run leads there, holds of
every run. -/
theorem run_induction {P : List Event → State → Trace → Prop} (start : P [] s [])
    (step : ∀ {es : List Event} {t t' : State} {e : Event} {effects : List Effect} {trace : Trace},
      m.run s es = some (t, trace) → P es t trace → m.step t e = some (t', effects) →
      P (es ++ [e]) t' (trace ++ [(e, effects)]))
    (hr : m.run s es = some (t, trace)) : P es t trace := by
  have along : ∀ {es done : List Event} {s' t : State} {before after : Trace},
      m.run s done = some (s', before) → P done s' before → m.run s' es = some (t, after) →
      P (done ++ es) t (before ++ after) := by
    intro es
    induction es with
    | nil =>
      intro done s' t before after _ h hr
      cases hr
      rwa [List.append_nil, List.append_nil]
    | cons e es ih =>
      intro done s' t before after hdone h hr
      obtain ⟨s'', effects, rest, he, hes, rfl⟩ := run_cons hr
      have hnext := ih (run_concat hdone he) (step hdone h he) hes
      rwa [List.append_assoc, List.append_assoc] at hnext
  have hnil : m.run s [] = some (s, []) := rfl
  exact along hnil start hr

/-! ### Steps of closing -/

/-- The step of closing session `x` that an event is, with the call that takes it. -/
def State.closes (s : State) (x : CallId) : Event → List (CallId × Closing)
  | .proceed i =>
    match (s.calls i).bind (Call.closing? i) with
    | some (y, next) => if y = x then [(i, next)] else []
    | none => []
  | _ => []

/-- The steps of closing session `x` in a run, each with the call that takes it. -/
def closings (m : Manager) (x : CallId) (s : State) : List Event → List (CallId × Closing)
  | [] => []
  | e :: es =>
    match m.step s e with
    | some (t, _) => s.closes x e ++ closings m x t es
    | none => []

theorem closings_concat (hr : m.run s es = some (t, trace)) {t' : State}
    (he : m.step t e = some (t', effects)) :
    closings m x s (es ++ [e]) = closings m x s es ++ t.closes x e := by
  induction es generalizing s trace with
  | nil =>
    cases hr
    simp [closings, he]
  | cons e' es ih =>
    obtain ⟨s', effects', rest, he', hes, -⟩ := run_cons hr
    simp only [List.cons_append, closings, he', ih hes, List.append_assoc]

theorem State.closes_of_closing (hc : s.calls i = some c) (hx : c.closing? i = some (y, next)) :
    s.closes x (.proceed i) = if y = x then [(i, next)] else [] := by
  simp [State.closes, hc, hx]

theorem Event.closing_cases (s : State) (e : Event) :
    (∃ i c y next, e = .proceed i ∧ s.calls i = some c ∧ c.closing? i = some (y, next)) ∨
      ∀ i c y next, s.calls i = some c → c.closing? i = some (y, next) → e ≠ .proceed i := by
  by_cases h : ∃ i c y next, e = .proceed i ∧ s.calls i = some c ∧ c.closing? i = some (y, next)
  · exact .inl h
  · exact .inr fun i c y next hc hy he => h ⟨i, c, y, next, he, hc, hy⟩

theorem State.closes_eq_nil
    (hno : ∀ i c y next, s.calls i = some c → c.closing? i = some (y, next) → e ≠ .proceed i)
    (x : CallId) : s.closes x e = [] := by
  cases e with
  | proceed i =>
    simp only [State.closes]
    cases hc : s.calls i with
    | none => rfl
    | some c =>
      cases hy : c.closing? i with
      | none => simp [hy]
      | some p =>
        obtain ⟨y, next⟩ := p
        exact absurd rfl (hno i c y next hc hy)
  | _ => rfl

theorem closing_spec (hc : s.calls i = some c) (hx : c.closing? i = some (x, next))
    (ha : s.sessions x = some a) (h : m.step s (.proceed i) = some (t, effects)) :
    ∃ b next' done, next.step x a = some ⟨b, next', done⟩ ∧ t.sessions x = some b ∧
      (∀ y, y ≠ x → t.sessions y = s.sessions y) ∧ t.table = s.table ∧
      t.calls = assign s.calls i (some (c.after next')) := by
  obtain ⟨goOn, done, hstep, hgoOn, hdone⟩ := step_of_closing m hc hx
  simp only [hstep, close, ha, Option.map_eq_some_iff] at h
  obtain ⟨⟨b, next', effects'⟩, hclosing, h⟩ := h
  refine ⟨b, next', effects', hclosing, ?_⟩
  have changed : ∀ {r : State} {c' : Call}, r = (s.setSession x b).setCall i c' →
      r.sessions x = some b ∧ (∀ y, y ≠ x → r.sessions y = s.sessions y) ∧ r.table = s.table ∧
        r.calls = assign s.calls i (some c') := by
    rintro r c' rfl
    exact ⟨assign_same _ _ _, fun y hy => assign_ne _ _ hy, rfl, rfl⟩
  cases next' with
  | some next' =>
    cases h
    exact changed (hgoOn next' _)
  | none =>
    have ht : t = (done (s.setSession x b)).1 := congrArg Prod.fst h.symm
    exact changed (ht.trans (hdone (s.setSession x b)).1)

theorem eq_proceed_of_closing (hc : s.calls i = some c) (hx : c.closing? i = some (x, next))
    (he : e.call? = some i) (h : m.step s e = some (t, effects)) : e = .proceed i := by
  cases e with
  | proceed j =>
    cases he
    rfl
  | call j r =>
    cases he
    simp [step, hc] at h
  | dial j r | write j r | read j r =>
    cases he
    simp only [step] at h
    split at h
    · next hj =>
      rw [hc] at hj
      cases hj
      cases hx
    · cases h
  | keepAlive | tick | ping | inbound => cases he

theorem call_stays (hcu : Custody s) (hc : s.calls i = some c)
    (hx : c.closing? i = some (x, next)) (hne : e ≠ .proceed i)
    (h : m.step s e = some (t, effects)) : t.calls i = some c := by
  cases he : e.session? with
  | some y =>
    obtain ⟨_, _, -, rfl, -⟩ := session_event he h
    exact hc
  | none =>
    obtain ⟨j, hj⟩ := Event.exists_call he
    by_cases hij : i = j
    · subst hij
      exact absurd (eq_proceed_of_closing hc hx hj h) hne
    · rw [(Acts.of_step hcu hj h).calls i hij, hc]

theorem session_stays (hcu : Custody s) (ha : s.sessions x = some a)
    (h : m.step s e = some (t, effects)) (hsession : e.session? ≠ some x)
    (hno : ∀ i c next, s.calls i = some c → c.closing? i = some (x, next) → e ≠ .proceed i) :
    t.sessions x = some a := by
  cases hs : e.session? with
  | some y =>
    obtain ⟨_, _, -, rfl, -⟩ := session_event hs h
    rw [State.setSession_sessions, assign_ne, ha]
    rintro rfl
    exact hsession hs
  | none =>
    obtain ⟨i, hi⟩ := Event.exists_call hs
    obtain hsame | ⟨c, next, _, _, _, hc, hy, -⟩ := (Acts.of_step hcu hi h).sessions ha
    · exact hsame
    · exact absurd (eq_proceed_of_closing hc hy hi h) (hno i c next hc hy)

/-! ### Sole owners -/

/-- Of the sessions in the hands of calls, each is there once. -/
structure Sole (s : State) : Prop where
  nodup : ∀ {i : CallId} {c : Call}, s.calls i = some c → (c.owned i).Nodup
  unique : ∀ {i j x : CallId} {c d : Call}, s.calls i = some c → s.calls j = some d →
    x ∈ c.owned i → x ∈ d.owned j → i = j

theorem Reachable.not_listed (h : m.Reachable s) (hc : s.calls i = some c) (hx : x ∈ c.owned i)
    (u : String) : s.table.get? u ≠ some x := by
  obtain ⟨v, p, g, seen, rfl⟩ | hpast := h.apart hc hx
  · exact h.custody.not_listed hc hx rfl (h.orderly.not_listed hc hx) u
  · exact hpast.absent u

theorem Custody.entries_nodup (h : Custody s) : (s.table.entries.map Prod.snd).Nodup := by
  have hkeys : (s.table.entries.map Prod.fst).Nodup := s.table.nodup
  rw [List.Nodup, List.pairwise_map] at hkeys ⊢
  refine hkeys.imp_of_mem ?_
  rintro ⟨u, x⟩ ⟨v, y⟩ hu hv hne rfl
  obtain ⟨a, ha, rfl⟩ := h.listed (Directory.mem_entries_iff.1 hu)
  obtain ⟨a', ha', rfl⟩ := h.listed (Directory.mem_entries_iff.1 hv)
  rw [ha] at ha'
  cases ha'
  exact hne rfl

theorem Call.nodup_of_create (u p : String) (b : CreatePhase) (i : CallId) :
    ((Call.create u p b).owned i).Nodup := by
  cases b <;> simp [Call.owned]

theorem Call.nodup_of_remove (u : String) (b : RemovePhase) (i : CallId) :
    ((Call.remove u b).owned i).Nodup := by
  cases b <;> simp [Call.owned]

namespace Sole

theorem start : Sole {} where
  nodup h := by cases h
  unique h := by cases h

theorem nodup_shift (h : Sole s) (hcu : Custody s) (hst : Shift s e t) (hi : t.calls i = some d) :
    (d.owned i).Nodup := by
  have goes : ∀ {r : State} {k : CallId} {c' : Call}, r.calls = s.calls →
      (r.setCall k c').calls i = some d → (c'.owned k).Nodup → (d.owned i).Nodup := by
    intro r k c' hr hd hc'
    rw [State.setCall_calls, assign_apply, hr] at hd
    split at hd
    · next e =>
      subst e
      cases hd
      exact hc'
    · exact h.nodup hd
  cases hst with
  | call => exact goes rfl hi (by rw [Call.owned_start]; exact List.nodup_nil)
  | keepAlive => exact h.nodup hi
  | closeOn hj => exact goes rfl hi (by rw [Call.owned_closeOn]; exact h.nodup hj)
  | closed hj hx => exact goes rfl hi (List.nodup_cons.1 (Call.owned_closed hx ▸ h.nodup hj)).2
  | unmade hj hx => exact goes rfl hi (List.nodup_cons.1 (Call.owned_closed hx ▸ h.nodup hj)).2
  | queue _ _ hg => exact goes (holdGate_spec hg).2.2.1 hi (Call.nodup_of_create _ _ _ _)
  | leave => exact goes (releaseGate_calls _ _ _) hi (Call.nodup_of_create _ _ _ _)
  | takeOut => exact goes (passGate_calls _ _) hi (Call.nodup_of_remove _ _ _)
  | startClosing => exact goes rfl hi (Call.nodup_of_remove _ _ _)
  | drain => exact goes rfl hi hcu.entries_nodup
  | finish => exact goes rfl hi List.nodup_nil
  | reuse | turn | meet | clear | attempt | establish | cancel | yield | insert =>
    exact goes rfl hi (Call.nodup_of_create _ _ _ _)

/-- Who comes to own a session has had it before, has taken it from the table or has just made
it. -/
theorem owned_from (hs : m.Reachable s) (hst : Shift s e t) (hi : t.calls i = some d)
    (hx : x ∈ d.owned i) : (∃ c, s.calls i = some c ∧ x ∈ c.owned i) ∨
      (∃ u, s.table.get? u = some x) ∨ s.sessions x = none := by
  obtain ⟨r, -, rfl⟩ | ⟨c, hc⟩ := hst.call_from hi
  · rw [Call.owned_start] at hx
    cases hx
  obtain ⟨d', hd', hh⟩ := hst.handover hc
  rw [hi] at hd'
  cases hd'
  cases hh with
  | hold hkeep => exact .inl ⟨c, hc, hkeep ▸ hx⟩
  | take _ htaken =>
    obtain ⟨u, hu, -⟩ := htaken x hx
    exact .inr (.inl ⟨u, hu⟩)
  | make hnil hmade hb =>
    obtain ⟨u, p, g, seen, rfl⟩ := Apart.of_make hs.custody hst hc hi hnil hmade hb
    cases List.mem_singleton.1 hx
    obtain ⟨-, -, hcalled⟩ | ⟨a, ha, hm⟩ := hst.create_move hi
    · cases hcalled
    rw [hc] at ha
    cases ha
    cases hm with
    | same => cases hnil
    | attempt hatt => cases hatt
    | establish => exact .inr (.inr (hs.custody.sessions_eq_none hc rfl))
  | drop hcons => exact .inl ⟨c, hc, hcons ▸ List.mem_cons_of_mem _ hx⟩
  | place _ hnil =>
    rw [hnil] at hx
    cases hx

theorem eq_of_owned (h : Sole s) (hs : m.Reachable s) (hst : Shift s e t)
    (hi : t.calls i = some d) (hxi : x ∈ d.owned i) (hj : s.calls j = some c)
    (hxj : x ∈ c.owned j) : i = j := by
  obtain ⟨c', hc', hx'⟩ | ⟨u, hu⟩ | hnone := owned_from hs hst hi hxi
  · exact h.unique hc' hj hx' hxj
  · exact absurd hu (hs.not_listed hj hxj u)
  · obtain ⟨a, ha, -⟩ := hs.custody.owned hj hxj
    rw [hnone] at ha
    cases ha

theorem unique_shift (h : Sole s) (hs : m.Reachable s) (hst : Shift s e t)
    (hi : t.calls i = some c) (hj : t.calls j = some d) (hxi : x ∈ c.owned i)
    (hxj : x ∈ d.owned j) : i = j := by
  -- of two calls, at most one is changed
  have before : (∃ k, ∀ l, l ≠ k → t.calls l = s.calls l) := by
    obtain ht | ⟨k, r, -, -, ht⟩ | ⟨k, _, _, -, -, ht⟩ := hst.calls_eq
    · exact ⟨0, fun l _ => by rw [ht]⟩
    · exact ⟨k, fun l hl => by rw [ht, assign_ne _ _ hl]⟩
    · exact ⟨k, fun l hl => by rw [ht, assign_ne _ _ hl]⟩
  obtain ⟨k, hk⟩ := before
  by_cases hik : i = k
  · by_cases hjk : j = k
    · rw [hik, hjk]
    · exact h.eq_of_owned hs hst hi hxi (hk j hjk ▸ hj) hxj
  · exact (h.eq_of_owned hs hst hj hxj (hk i hik ▸ hi) hxi).symm

theorem shift (h : Sole s) (hs : m.Reachable s) (hst : Shift s e t) : Sole t where
  nodup := h.nodup_shift hs.custody hst
  unique := h.unique_shift hs hst

end Sole

theorem Reachable.sole (h : m.Reachable s) : Sole s := by
  induction h with
  | start => exact .start
  | step hs he ih => exact ih.shift hs (.of_step he)

end Manager

end Corelink
