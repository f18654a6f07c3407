import Corelink.Proofs.Session.Hands
import Corelink.Proofs.Session.Sending

/-!
# Where a session is

A session is in the table, in the hands of one call that has not returned, or closed
(`Whereabouts`). The steps of closing that have been taken tell which: none of a session in the
table, those before its next one of a session that a call is closing, and all four, each once and by
one call, of a closed one. The session itself shows no more and no less (`Session.Shows`). No step
loses a session on the way from one place to another (`Whereabouts.step`).
-/

namespace Corelink

open Wire

/-! ### What closing leaves behind -/

namespace Closing

/-- The steps before this one. -/
def before : Closing → List Closing
  | mark => []
  | signal => [mark]
  | shut => [mark, signal]
  | join => [mark, signal, shut]

/-- The steps of closing a session, in order. -/
def all : List Closing :=
  [mark, signal, shut, join]

/-- The steps before the one that follows, if one does. -/
def taken : Option Closing → List Closing
  | some next => next.before
  | none => all

variable {x : CallId} {a b : Session} {next : Closing} {next' : Option Closing}
  {effects : List Effect}

theorem taken_of_step (h : next.step x a = some ⟨b, next', effects⟩) :
    taken next' = next.before ++ [next] := by
  cases does h <;> rfl

theorem before_ne_all (next : Closing) : next.before ≠ all := by
  cases next <;> exact nofun

theorem before_eq_take (next : Closing) : ∃ k, next.before = all.take k := by
  cases next with
  | mark => exact ⟨0, rfl⟩
  | signal => exact ⟨1, rfl⟩
  | shut => exact ⟨2, rfl⟩
  | join => exact ⟨3, rfl⟩

end Closing

namespace Session

/-- What a session shows of these steps of closing. -/
structure Shows (a : Session) (steps : List Closing) : Prop where
  live : .mark ∈ steps → a.live = false
  signalled : a.signalled = true ↔ .signal ∈ steps
  writer : a.writer = false ↔ .shut ∈ steps
  keepAlive : .join ∈ steps → a.keepAlive = .ended

variable {a b : Session} {steps : List Closing} {x : CallId} {next : Closing}
  {next' : Option Closing} {effects : List Effect}

theorem Shows.closing (h : a.Shows steps) (hstep : next.step x a = some ⟨b, next', effects⟩) :
    b.Shows (steps ++ [next]) := by
  obtain ⟨hl, hs, hw, hk⟩ := h
  cases Closing.does hstep with
  | mark => exact ⟨fun _ => rfl, by simpa using hs, by simpa using hw, by simpa using hk⟩
  | signal => exact ⟨by simpa using hl, by simp, by simpa using hw, by simpa using hk⟩
  | shut | shutFails | gone =>
    exact ⟨by simpa using hl, by simpa using hs, by simp, by simpa using hk⟩
  | join hended =>
    exact ⟨by simpa using hl, by simpa using hs, by simpa using hw, fun _ => hended⟩

theorem Shows.kept (h : a.Shows steps) (hab : a.Kept b) (hne : a.keepAlive ≠ .ended) :
    b.Shows steps where
  live hm := Bool.eq_false_iff.2 fun hl => Bool.eq_false_iff.1 (h.live hm) (hab.live hl)
  signalled := by rw [hab.signalled, h.signalled]
  writer := by rw [hab.writer, h.writer]
  keepAlive hj := absurd (h.keepAlive hj) hne

theorem proceed_ne_ended (h : a.proceed = some (b, effects)) : a.keepAlive ≠ .ended := by
  cases proceeds h <;> simp [*]

theorem tick_ne_ended (h : a.tick = some (b, effects)) : a.keepAlive ≠ .ended := by
  cases ticks h with
  | due hk => simp [hk]

theorem ping_ne_ended {t : Terms} {r : WriteResult} (h : a.ping t x r = some (b, effects)) :
    a.keepAlive ≠ .ended := by
  cases pings h with
  | wrote hk => simp [hk]

theorem inbound_ne_ended {r : ReadResult} (h : a.inbound x r = some (b, effects)) :
    a.keepAlive ≠ .ended := by
  cases hears h <;> simp [*]

end Session

/-- The steps of closing session `x` that call `i` has behind it. -/
def Call.behind (i x : CallId) (c : Call) : List Closing :=
  match c.closing? i with
  | some (y, next) => if y = x then next.before else []
  | none => []

namespace Call

variable {c : Call} {i x y : CallId} {next : Closing}

theorem behind_of_closing (h : c.closing? i = some (x, next)) : c.behind i x = next.before := by
  simp [behind, h]

theorem behind_of_ne (h : c.closing? i = some (y, next)) (hy : y ≠ x) : c.behind i x = [] := by
  simp [behind, h, hy]

theorem behind_of_none (h : c.closing? i = none) : c.behind i x = [] := by
  simp [behind, h]

theorem behind_closed (h : c.closing? i = some (y, next)) : c.closed.behind i x = [] := by
  unfold behind
  split
  · next z next' hz =>
    cases closing?_closed h hz
    split <;> rfl
  · rfl

theorem behind_eq_take (c : Call) (i x : CallId) :
    ∃ k, c.behind i x = Closing.all.take k ∧ c.behind i x ≠ Closing.all := by
  have hnil : ∃ k, ([] : List Closing) = Closing.all.take k ∧ [] ≠ Closing.all := ⟨0, rfl, nofun⟩
  unfold behind
  split
  · next next _ =>
    split
    · obtain ⟨k, hk⟩ := next.before_eq_take
      exact ⟨k, hk, next.before_ne_all⟩
    · exact hnil
  · exact hnil

end Call

namespace Manager

variable {m : Manager} {s t t' : State} {e : Event} {es es' : List Event} {i j x : CallId}
  {c d : Call} {next : Closing} {effects : List Effect} {trace trace' : Trace} {a b : Session}
  {u : String} {log : List (CallId × Closing)}

/-! ### Whereabouts -/

/-- Where session `x` of user `u` is, of which these steps of closing have been taken. -/
inductive Whereabouts (s : State) (x : CallId) (u : String) : List (CallId × Closing) → Prop where
  | listed : s.table.get? u = some x → Whereabouts s x u []
  | owned {i : CallId} {c : Call} : s.calls i = some c → x ∈ c.owned i →
    Whereabouts s x u ((c.behind i x).map (Prod.mk i))
  | closed (i : CallId) : (∀ j c, s.calls j = some c → x ∉ c.owned j) →
    (∀ v, s.table.get? v ≠ some x) → Whereabouts s x u (Closing.all.map (Prod.mk i))

namespace Whereabouts

theorem step_closing (hs : m.Reachable s) (h : Whereabouts s x u log) (hc : s.calls i = some c)
    (hx : c.closing? i = some (x, next)) (he : m.step s (.proceed i) = some (t, effects)) :
    Whereabouts t x u (log ++ [(i, next)]) := by
  have hown := Call.mem_owned_of_closing hx
  obtain ⟨a, ha, -⟩ := hs.custody.owned hc hown
  obtain ⟨b, next', done, hstep, -, -, htable, hcalls⟩ := closing_spec hc hx ha he
  -- whoever closes the session is its owner
  obtain rfl : log = next.before.map (Prod.mk i) := by
    cases h with
    | listed hu => exact absurd hu (hs.not_listed hc hown u)
    | @owned j d hd hxd =>
      obtain rfl := hs.sole.unique hc hd hown hxd
      rw [hc] at hd
      cases hd
      rw [Call.behind_of_closing hx]
    | closed _ hno => exact absurd hown (hno i c hc)
  have htaken := Closing.taken_of_step hstep
  rw [show next.before.map (Prod.mk i) ++ [(i, next)] = (Closing.taken next').map (Prod.mk i) by
    rw [htaken, List.map_append, List.map_singleton]]
  cases next' with
  | some next' =>
    have hafter := Call.closing?_closeOn hx next'
    rw [Closing.taken, ← Call.behind_of_closing hafter]
    refine .owned (c := c.closeOn next') ?_ (Call.mem_owned_of_closing hafter)
    rw [hcalls, assign_same]
    rfl
  | none =>
    refine .closed i (fun j d hd hxd => ?_) fun v => htable ▸ hs.not_listed hc hown v
    rw [hcalls, assign_apply] at hd
    split at hd
    · next e =>
      subst e
      cases hd
      have hnodup := hs.sole.nodup hc
      rw [Call.owned_closed hx, List.nodup_cons] at hnodup
      exact hnodup.1 hxd
    · next hne => exact hne (hs.sole.unique hd hc hxd hown)

theorem step_other (hs : m.Reachable s) (h : Whereabouts s x u log) (hc : s.calls i = some c)
    {y : CallId} (hy : c.closing? i = some (y, next)) (hne : y ≠ x)
    (he : m.step s (.proceed i) = some (t, effects)) : Whereabouts t x u log := by
  obtain ⟨a, ha, -⟩ := hs.custody.owned hc (Call.mem_owned_of_closing hy)
  obtain ⟨b, next', done, hstep, -, -, htable, hcalls⟩ := closing_spec hc hy ha he
  have howned : ∀ {z}, z ≠ y → (z ∈ (c.after next').owned i ↔ z ∈ c.owned i) := by
    intro z hz
    cases next' with
    | some next' => rw [Call.after, Call.owned_closeOn]
    | none => rw [Call.after, Call.owned_closed hy, List.mem_cons, or_iff_right hz]
  have hbehind : (c.after next').behind i x = [] := by
    cases next' with
    | some next' => exact Call.behind_of_ne (Call.closing?_closeOn hy next') hne
    | none => exact Call.behind_closed hy
  cases h with
  | listed hu => exact .listed (htable ▸ hu)
  | @owned j d hd hxd =>
    by_cases hj : j = i
    · subst hj
      rw [hc] at hd
      cases hd
      rw [Call.behind_of_ne hy hne, ← hbehind]
      exact .owned (by rw [hcalls, assign_same]) ((howned (Ne.symm hne)).2 hxd)
    · exact .owned (by rw [hcalls, assign_ne _ _ hj, hd]) hxd
  | closed k hno hlist =>
    refine .closed k (fun j d hd hxd => ?_) (htable ▸ hlist)
    rw [hcalls, assign_apply] at hd
    split at hd
    · next e =>
      subst e
      cases hd
      exact hno j c hc ((howned (Ne.symm hne)).1 hxd)
    · exact hno j d hd hxd

theorem behind_eq_nil (hst : Shift s e t) (hd : t.calls i = some d)
    (hno : ∀ c next, s.calls i = some c → c.closing? i ≠ some (x, next)) : d.behind i x = [] := by
  unfold Call.behind
  split
  · next y next hy =>
    split
    · next hyx =>
      subst hyx
      obtain rfl | ⟨c, hc, hcx⟩ | ⟨c, _, _, _, _, hc, hcx, -⟩ := hst.closing_from hd hy
      · rfl
      · exact absurd hcx (hno c _ hc)
      · exact absurd hcx (hno c _ hc)
    · rfl
  · rfl

theorem step_still (hs : m.Reachable s) (h : Whereabouts s x u log) (ha : s.sessions x = some a)
    (hu : a.username = u) (he : m.step s e = some (t, effects))
    (hno : ∀ i c y next, s.calls i = some c → c.closing? i = some (y, next) → e ≠ .proceed i) :
    Whereabouts t x u log := by
  have hst : Shift s e t := .of_step he
  cases h with
  | listed hlist =>
    obtain hstill | ⟨i, d, hd, hxd⟩ | ⟨i, p, g, seen, hi⟩ := hst.table_on hlist
    · exact .listed hstill
    · have hnil : d.behind i x = [] := behind_eq_nil hst hd fun c next hc hcx =>
        absurd hlist (hs.not_listed hc (Call.mem_owned_of_closing hcx) u)
      exact (hnil ▸ Whereabouts.owned hd hxd : Whereabouts t x u (List.map _ []))
    · rw [hs.orderly.cleared hi rfl] at hlist
      cases hlist
  | @owned i c hc hxc =>
    cases hx : c.closing? i with
    | some p =>
      exact .owned (call_stays hs.custody hc hx (hno i c _ _ hc hx) he) hxc
    | none =>
      have hnone : ∀ c' next, s.calls i = some c' → c'.closing? i ≠ some (x, next) := by
        intro c' next hc' hcx
        rw [hc] at hc'
        cases hc'
        rw [hx] at hcx
        cases hcx
      obtain ⟨d, hd, hh⟩ := hst.handover hc
      have hnil := behind_eq_nil hst hd hnone
      have keeps : x ∈ d.owned i → Whereabouts t x u ((c.behind i x).map (Prod.mk i)) := by
        intro hxd
        rw [Call.behind_of_none hx, ← hnil]
        exact .owned hd hxd
      cases hh with
      | hold hkeep => exact keeps (hkeep ▸ hxc)
      | take hempty | make hempty =>
        rw [hempty] at hxc
        cases hxc
      | @drop y hcons hgone =>
        obtain hyx | hjoin := hgone
        · obtain ⟨b, hb, -⟩ := hs.custody.owned hc (hcons ▸ List.mem_cons_self)
          rw [hyx] at hb
          cases hb
        · rw [hx] at hjoin
          cases hjoin
      | place hone _ hv hput =>
        rw [hone, List.mem_singleton] at hxc
        subst hxc
        obtain ⟨a', ha', hau⟩ := hs.custody.owned hc (hone ▸ List.mem_singleton_self _)
        rw [ha] at ha'
        cases ha'
        rw [Call.behind_of_none hx]
        exact .listed (by rw [← hu, hau _ hv, hput])
  | closed k hfree hlist =>
    refine .closed k (fun j d hd hxd => ?_) fun v hv => ?_
    · obtain ⟨c, hc, hxc⟩ | ⟨v, hv⟩ | hnone := Sole.owned_from hs hst hd hxd
      · exact hfree j c hc hxc
      · exact hlist v hv
      · rw [ha] at hnone
        cases hnone
    · obtain hsame | hgone | ⟨i, p, g, seen, hi, -, -, hput⟩ := hst.table_get? v
      · exact hlist v (hsame ▸ hv)
      · rw [hgone] at hv
        cases hv
      · rw [hput] at hv
        cases hv
        exact hfree x _ hi (List.mem_singleton_self x)

end Whereabouts

/-! ### What the session shows -/

/-- A session shows the steps of closing that are taken, and no others. -/
theorem shows_step (hs : m.Reachable s) {steps : List Closing} (ha : s.sessions x = some a)
    (h : a.Shows steps) (he : m.step s e = some (t, effects)) :
    ∃ b, t.sessions x = some b ∧ b.username = a.username ∧
      b.Shows (steps ++ (s.closes x e).map Prod.snd) := by
  obtain ⟨i, c, y, next, rfl, hc, hy⟩ | hno := Event.closing_cases s e
  · rw [State.closes_of_closing hc hy]
    by_cases hyx : y = x
    · subst hyx
      obtain ⟨b, next', done, hstep, hb, -⟩ := closing_spec hc hy ha he
      refine ⟨b, hb, (Session.Aged.of_closing hstep).username, ?_⟩
      rw [if_pos rfl]
      exact h.closing hstep
    · obtain ⟨a', ha', -⟩ := hs.custody.owned hc (Call.mem_owned_of_closing hy)
      obtain ⟨_, _, _, -, -, hsame, -⟩ := closing_spec hc hy ha' he
      refine ⟨a, by rw [hsame x (Ne.symm hyx), ha], rfl, ?_⟩
      rw [if_neg hyx, List.map_nil, List.append_nil]
      exact h
  · rw [State.closes_eq_nil hno, List.map_nil, List.append_nil]
    by_cases hown : e.session? = some x
    · obtain ⟨b, rfl, hm⟩ := Moves.of_own hown he ha
      have kept : a.Kept b → a.keepAlive ≠ .ended → ∃ b',
          (s.setSession x b).sessions x = some b' ∧ b'.username = a.username ∧ b'.Shows steps :=
        fun hab hne => ⟨b, assign_same _ _ _, hab.username, h.kept hab hne⟩
      cases hm with
      | still hne => exact absurd hown hne
      | closing hne => exact absurd hown hne
      | proceed hp => exact kept (.of_proceed hp) (Session.proceed_ne_ended hp)
      | tick ht => exact kept (.of_tick ht) (Session.tick_ne_ended ht)
      | ping hp => exact kept (.of_ping hp) (Session.ping_ne_ended hp)
      | inbound hi => exact kept (.of_inbound hi) (Session.inbound_ne_ended hi)
    · exact ⟨a, session_stays hs.custody ha he hown fun i c next => hno i c x next, rfl, h⟩

/-! ### Runs -/

/-- Where session `x` is and what it shows, if it is there. -/
structure Traced (x : CallId) (s : State) (log : List (CallId × Closing)) : Prop where
  unmade : s.sessions x = none → log = []
  whereabouts : ∀ {a : Session}, s.sessions x = some a → Whereabouts s x a.username log
  shows : ∀ {a : Session}, s.sessions x = some a → a.Shows (log.map Prod.snd)

namespace Traced

theorem start : Traced x {} [] where
  unmade _ := rfl
  whereabouts h := by cases h
  shows h := by cases h

theorem closes_of_none (hs : m.Reachable s) (hx : s.sessions x = none) (e : Event) :
    s.closes x e = [] := by
  obtain ⟨i, c, y, next, rfl, hc, hy⟩ | hno := Event.closing_cases s e
  · rw [State.closes_of_closing hc hy, if_neg]
    rintro rfl
    obtain ⟨a, ha, -⟩ := hs.custody.owned hc (Call.mem_owned_of_closing hy)
    rw [hx] at ha
    cases ha
  · exact State.closes_eq_nil hno x

theorem step (hr : m.run {} es = some (s, trace)) (h : Traced x s log)
    (he : m.step s e = some (t, effects)) : Traced x t (log ++ s.closes x e) := by
  have hs : m.Reachable s := .run .start hr
  cases hx : s.sessions x with
  | none =>
    rw [closes_of_none hs hx, h.unmade hx]
    refine ⟨fun _ => rfl, fun hb => ?_, fun hb => ?_⟩
    · obtain ⟨_, ha, -⟩ | ⟨u, p, g, seen, r, -, hc, -⟩ := (Shift.of_step he).session_from hb
      · rw [hx] at ha
        cases ha
      · exact .owned hc (List.mem_singleton_self x)
    · obtain ⟨⟨u, login, r, rfl⟩, -⟩ := (account_of_run x hr).made hs he hx hb
      exact ⟨nofun, ⟨nofun, nofun⟩, ⟨nofun, nofun⟩, nofun⟩
  | some a =>
    obtain ⟨b, hb, hu, hshows⟩ := shows_step hs hx (h.shows hx) he
    have hw := h.whereabouts hx
    have hwhere : Whereabouts t x a.username (log ++ s.closes x e) := by
      obtain ⟨i, c, y, next, rfl, hc, hy⟩ | hno := Event.closing_cases s e
      · rw [State.closes_of_closing hc hy]
        split
        · next hyx =>
          subst hyx
          exact hw.step_closing hs hc hy he
        · next hyx =>
          rw [List.append_nil]
          exact hw.step_other hs hc hy hyx he
      · rw [State.closes_eq_nil hno, List.append_nil]
        exact hw.step_still hs hx rfl he hno
    refine ⟨fun hnone => ?_, fun hb' => ?_, fun hb' => ?_⟩
    · rw [hb] at hnone
      cases hnone
    · rw [hb] at hb'
      cases hb'
      rw [hu]
      exact hwhere
    · rw [hb] at hb'
      cases hb'
      rw [List.map_append]
      exact hshows

end Traced

theorem traced_of_run (x : CallId) (hr : m.run {} es = some (t, trace)) :
    Traced x t (closings m x {} es) := by
  refine run_induction (P := fun es t _ => Traced x t (closings m x {} es)) .start ?_ hr
  intro es s t e effects trace hrun h he
  rw [closings_concat hrun he]
  exact h.step hrun he

/-! ### Closed sessions -/

/-- Of a session that all steps of closing have been taken of, nothing is left anywhere. -/
theorem Whereabouts.gone (h : Whereabouts s x u log) (hall : log.map Prod.snd = Closing.all) :
    (∀ i c, s.calls i = some c → x ∉ c.owned i) ∧ ∀ v, s.table.get? v ≠ some x := by
  cases h with
  | listed => cases hall
  | @owned i c =>
    obtain ⟨-, -, hne⟩ := c.behind_eq_take i x
    rw [List.map_map] at hall
    exact absurd ((List.map_id _).symm.trans hall) hne
  | closed _ hfree hlist => exact ⟨hfree, hlist⟩

/-- Session `x` has been closed, and shows `a`. -/
structure Buried (x : CallId) (a : Session) (log : List (CallId × Closing)) (s : State) : Prop where
  session : s.sessions x = some a
  ended : a.keepAlive = .ended
  whereabouts : Whereabouts s x a.username log
  all : log.map Prod.snd = Closing.all

/-- Nothing happens to a closed session, and nothing is written on its connection. -/
theorem Buried.step (hs : m.Reachable s) (h : Buried x a log s)
    (he : m.step s e = some (t, effects)) : Buried x a log t ∧ sendings x effects = [] := by
  obtain ⟨hfree, -⟩ := h.whereabouts.gone h.all
  refine ⟨⟨?_, h.ended, ?_, h.all⟩, ?_⟩
  · obtain ⟨b, hb, hm⟩ := Moves.of_step hs.custody he h.session
    cases hm with
    | still => exact hb
    | closing _ _ _ hc hx => exact absurd (Call.mem_owned_of_closing hx) (hfree _ _ hc)
    | proceed hp => exact absurd h.ended (Session.proceed_ne_ended hp)
    | tick ht => exact absurd h.ended (Session.tick_ne_ended ht)
    | ping hp => exact absurd h.ended (Session.ping_ne_ended hp)
    | inbound hi => exact absurd h.ended (Session.inbound_ne_ended hi)
  · obtain ⟨i, c, y, next, rfl, hc, hy⟩ | hno := Event.closing_cases s e
    · refine h.whereabouts.step_other hs hc hy ?_ he
      rintro rfl
      exact hfree i c hc (Call.mem_owned_of_closing hy)
    · exact h.whereabouts.step_still hs h.session rfl he hno
  · have hsends := Sends.of_step (x := x) he
    generalize sendings x effects = out at hsends
    cases hsends with
    | nothing => rfl
    | login hc =>
      have hnone := hs.custody.sessions_eq_none hc rfl
      rw [h.session] at hnone
      cases hnone
    | ping ha hk =>
      rw [h.session] at ha
      cases ha
      rw [h.ended] at hk
      cases hk

theorem Buried.run (hs : m.Reachable s) (h : Buried x a log s)
    (hr : m.run s es = some (t, trace)) : Buried x a log t ∧ trace.sent x = [] := by
  induction es generalizing s trace with
  | nil =>
    cases hr
    exact ⟨h, rfl⟩
  | cons e es ih =>
    obtain ⟨s', effects, rest, he, hes, rfl⟩ := run_cons hr
    obtain ⟨h', hsent⟩ := h.step hs he
    obtain ⟨ht, hrest⟩ := ih (.step hs he) h' hes
    refine ⟨ht, ?_⟩
    rw [Trace.sent, List.flatMap_cons, hsent, List.nil_append]
    exact hrest

/-! ### No session is leaked -/

/-- The places where a session can be. -/
inductive Place where
  | table
  | call (i : CallId)
  | closed
  deriving DecidableEq

/-- Whether session `x` of user `u` is there, of which these steps of closing have been taken. -/
def Place.Has (t : State) (x : CallId) (u : String) (log : List (CallId × Closing)) : Place → Prop
  | table => t.table.get? u = some x
  | call i => ∃ c, t.calls i = some c ∧ c.hasReturned = false ∧ x ∈ c.owned i
  | closed => log.map Prod.snd = [.mark, .signal, .shut, .join]

theorem Whereabouts.place (hs : m.Reachable s) (h : Whereabouts s x u log) :
    ∃ p : Place, p.Has s x u log ∧ ∀ q : Place, q.Has s x u log → q = p := by
  cases h with
  | listed hlist =>
    refine ⟨.table, hlist, fun q hq => ?_⟩
    cases q with
    | table => rfl
    | call i =>
      obtain ⟨c, hc, -, hx⟩ := hq
      exact absurd hlist (hs.not_listed hc hx u)
    | closed => cases hq
  | @owned i c hc hx =>
    refine ⟨.call i, ⟨c, hc, Call.hasReturned_of_owned hx, hx⟩, fun q hq => ?_⟩
    cases q with
    | table => exact absurd hq (hs.not_listed hc hx u)
    | call j =>
      obtain ⟨d, hd, -, hxd⟩ := hq
      rw [hs.sole.unique hd hc hxd hx]
    | closed => exact absurd hx ((Whereabouts.owned (u := u) hc hx).gone hq |>.1 i c hc)
  | closed i hfree hlist =>
    refine ⟨.closed, rfl, fun q hq => ?_⟩
    cases q with
    | table => exact absurd hq (hlist u)
    | call j =>
      obtain ⟨d, hd, -, hxd⟩ := hq
      exact absurd hxd (hfree j d hd)
    | closed => rfl

theorem Whereabouts.log_eq_take (h : Whereabouts s x u log) :
    ∃ i k, log = ([.mark, .signal, .shut, .join].take k).map (Prod.mk i) := by
  cases h with
  | listed => exact ⟨0, 0, rfl⟩
  | @owned i c =>
    obtain ⟨k, hk, -⟩ := c.behind_eq_take i x
    exact ⟨i, k, by rw [hk]; rfl⟩
  | closed i => exact ⟨i, 4, rfl⟩

/-- **No session is leaked, and none is closed twice.** At the end of every run each session that
has been established is in just one place: in the table under its own username, in the hands of one
call that has not returned, or closed. The steps of closing it are taken in order, by one call, and
each at most once. A closed session is dead, without its write half and its keep-alive, and so it
stays: no byte is written on its connection any more. When every call has returned, what is not
closed is in the table. -/
theorem no_session_leaked (hr : m.run {} es = some (t, trace)) (ha : t.sessions x = some a) :
    (∃ p : Place, p.Has t x a.username (closings m x {} es) ∧
      ∀ q : Place, q.Has t x a.username (closings m x {} es) → q = p) ∧
    (∀ u, t.table.get? u = some x → u = a.username) ∧
    (∃ i k, closings m x {} es = ([.mark, .signal, .shut, .join].take k).map (Prod.mk i)) ∧
    (Place.closed.Has t x a.username (closings m x {} es) →
      a.live = false ∧ a.writer = false ∧ a.keepAlive = .ended ∧
      ∀ es' t' trace', m.run t es' = some (t', trace') →
        t'.sessions x = some a ∧ Trace.sent x trace' = [] ∧
        Place.closed.Has t' x a.username (closings m x {} (es ++ es'))) ∧
    ((∀ i c, t.calls i = some c → c.hasReturned = true) →
      Place.table.Has t x a.username (closings m x {} es) ∨
      Place.closed.Has t x a.username (closings m x {} es)) := by
  have hs : m.Reachable t := .run .start hr
  have htraced := traced_of_run x hr
  have hw := htraced.whereabouts ha
  refine ⟨hw.place hs, fun u hu => ?_, hw.log_eq_take, fun hclosed => ?_, fun hall => ?_⟩
  · obtain ⟨a', ha', hau⟩ := hs.custody.listed hu
    rw [ha] at ha'
    cases ha'
    exact hau.symm
  · obtain ⟨hlive, -, hwriter, hended⟩ := htraced.shows ha
    rw [show (closings m x {} es).map Prod.snd = Closing.all from hclosed] at hlive hwriter hended
    have hend := hended (by decide)
    refine ⟨hlive (by decide), hwriter.2 (by decide), hend, fun es' t' trace' hr' => ?_⟩
    obtain ⟨hburied, hsent⟩ := Buried.run hs ⟨ha, hend, hw, hclosed⟩ hr'
    obtain ⟨hfree, hlist⟩ := hburied.whereabouts.gone hclosed
    have hw' := (traced_of_run x (run_append hr hr')).whereabouts hburied.session
    obtain ⟨p, hp, -⟩ := hw'.place (hs.run hr')
    refine ⟨hburied.session, hsent, ?_⟩
    cases p with
    | table => exact absurd hp (hlist _)
    | call i =>
      obtain ⟨c, hc, -, hx⟩ := hp
      exact absurd hx (hfree i c hc)
    | closed => exact hp
  · obtain ⟨p, hp, -⟩ := hw.place hs
    cases p with
    | table => exact .inl hp
    | call i =>
      obtain ⟨c, hc, hno, -⟩ := hp
      rw [hall i c hc] at hno
      cases hno
    | closed => exact .inr hp

/-- A session that a `remove` has closed is nowhere but closed. -/
theorem removed_session_is_closed : ∃ es t a trace,
    run .loopback {} es = some (t, trace) ∧ t.sessions 0 = some a ∧
    a.live = false ∧ a.writer = false ∧ a.keepAlive = .ended ∧ t.table.get? "u" = none ∧
    closings .loopback 0 {} es = [(1, .mark), (1, .signal), (1, .shut), (1, .join)] ∧
    ∀ p : Place, p.Has t 0 a.username (closings .loopback 0 {} es) → p = .closed := by
  have hr : run .loopback {} [.call 0 (.create "u" "p"), .proceed 0, .proceed 0,
      .proceed 0, .proceed 0, .dial 0 .opened, .write 0 .done, .read 0 (.bytes 70 [83, 88, 49, 1,
        13, 0, 0, 0, 15, 0, 0, 1, 0, 0, 0, 0, 0, 0, 0, 0, 0, 0, 0, 0, 0, 0]), .proceed 0,
      .proceed 0, .call 1 (.remove "u"), .proceed 1, .proceed 1, .proceed 1, .proceed 1,
      .proceed 1, .keepAlive 0, .proceed 1] = some (_, _) := rfl
  obtain ⟨⟨p, -, hp⟩, -, -, hclosed, -⟩ := no_session_leaked (x := 0) hr rfl
  obtain ⟨hlive, hwriter, hended, -⟩ := hclosed rfl
  exact ⟨_, _, _, _, hr, rfl, hlive, hwriter, hended, rfl, rfl,
    fun q hq => (hp q hq).trans (hp .closed rfl).symm⟩

end Manager

end Corelink
