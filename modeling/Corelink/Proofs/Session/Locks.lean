import Corelink.Proofs.Session.Origin
import Corelink.Proofs.Session.Return
import Corelink.Session.Locks

/-!
# Who holds which lock

A party holds at most one lock at a time, and it is the one that its next step needs, until the
work under it is done (`Guarded`). A keep-alive that writes a ping holds the lock of the write
half, and a call that still holds it has taken the write half away.

The locks add no states to the manager and take none away: what a run of `Locked` leads to is
reachable without locks (`Locked.Reachable.base`), and whatever is reachable without locks is so
with them, and with no lock held but for a ping (`Reachable.exists_locked`).
-/

namespace Corelink

namespace Call

variable {c : Call} {i x : CallId} {next : Closing}

theorem lock?_of_closing (h : c.closing? i = some (x, next)) : c.lock? i = next.lock? x := by
  rcases c with ⟨u, p, phase⟩ | ⟨u, phase⟩ | phase
  · cases phase <;> cases h <;> rfl
  · cases phase <;> cases h
    rfl
  · rcases phase with _ | ⟨total, _ | _, next⟩ | _ <;> cases h
    rfl

theorem closing?_of_lock? (h : c.lock? i = some (.writer x)) : c.closing? i = some (x, .shut) := by
  cases hc : c.closing? i with
  | none =>
    rcases c with ⟨u, p, phase⟩ | ⟨u, phase⟩ | phase
    · cases phase <;> first | cases h | cases hc
    · cases phase <;> first | cases h | cases hc
    · rcases phase with _ | ⟨total, _ | _, next⟩ | _ <;> first | cases h | cases hc
  | some p =>
    obtain ⟨y, next⟩ := p
    rw [lock?_of_closing hc] at h
    cases next <;> cases h
    rfl

theorem closing?_of_awaited? (h : c.awaited? i = some x) : c.closing? i = some (x, .join) := by
  rcases c with ⟨u, p, phase⟩ | ⟨u, phase⟩ | phase
  · cases phase with
    | discarding _ _ _ next | undoing _ next =>
      cases next <;> cases h
      rfl
    | _ => cases h
  · cases phase with
    | closing _ next =>
      cases next <;> cases h
      rfl
    | _ => cases h
  · rcases phase with _ | ⟨total, _ | _, _ | _ | _ | _⟩ | _ <;> cases h
    rfl

theorem awaited?_of_closing (h : c.closing? i = some (x, .join)) : c.awaited? i = some x := by
  rcases c with ⟨u, p, phase⟩ | ⟨u, phase⟩ | phase
  · cases phase <;> cases h <;> rfl
  · cases phase <;> cases h
    rfl
  · rcases phase with _ | ⟨total, _ | _, next⟩ | _ <;> cases h
    rfl

end Call

namespace Session

variable {a b : Session} {x : CallId} {l : Lock} {effects : List Effect}

/-- A keep-alive needs the lock of its write half from before a ping to its end. -/
theorem lock?_eq_some_iff : a.lock? x = some l ↔
    l = .writer x ∧ (a.keepAlive = .sending ∨ a.keepAlive = .writing) := by
  unfold lock?
  cases a.keepAlive <;> simp [eq_comm]

theorem sending_of_proceed (h : a.proceed = some (b, effects)) (hb : b.keepAlive = .writing) :
    a.keepAlive = .sending := by
  cases proceeds h with
  | writes hk => exact hk
  | cancelled | foundLive | foundDead | overtaken | stopped => cases hb

theorem not_writing_of_ping {t : Terms} {r : WriteResult} (h : a.ping t x r = some (b, effects)) :
    b.keepAlive ≠ .writing := by
  cases pings h with
  | wrote _ hnext =>
    obtain ⟨-, rfl⟩ | ⟨-, _, rfl⟩ := hnext <;> exact nofun

theorem waiting_of_tick (h : a.tick = some (b, effects)) :
    a.keepAlive = .waiting ∧ b.keepAlive ≠ .writing := by
  cases ticks h with
  | due hk => exact ⟨hk, nofun⟩

theorem waiting_of_inbound {r : ReadResult} (h : a.inbound x r = some (b, effects)) :
    a.keepAlive = .waiting ∧ b.keepAlive ≠ .writing := by
  cases hears h with
  | bytes hk _ first more =>
    refine ⟨hk, ?_⟩
    obtain hnext | ⟨_, hnext⟩ := a.take_keepAlive x (first :: more) <;> rw [hnext] <;> exact nofun
  | closed hk | failed hk => exact ⟨hk, nofun⟩

end Session

theorem Closing.keepAlive_eq {x : CallId} {a b : Session} {next : Closing}
    {next' : Option Closing} {effects : List Effect}
    (h : next.step x a = some ⟨b, next', effects⟩) : b.keepAlive = a.keepAlive := by
  cases does h <;> rfl

namespace Manager

variable {m : Manager} {s t : State} {e : Event} {i x : CallId} {c : Call} {a b : Session}
  {effects : List Effect}

/-! ### What a step leaves to others -/

theorem Event.call?_of_party? (h : e.party? = some (.call i)) : e.call? = some i := by
  cases e <;> cases h <;> rfl

theorem Event.session?_of_party? (h : e.party? = some (.keepAlive x)) : e.session? = some x := by
  cases e <;> cases h <;> rfl

theorem Shift.made (h : Shift s e t) (hx : s.sessions x = none) (hb : t.sessions x = some b) :
    ∃ u m login r, b = newSession x u m login r := by
  have other : ∀ {r : State} {y : CallId} {a d : Session}, s.sessions y = some a →
      r.sessions = assign s.sessions y (some d) → r.sessions x ≠ some b := by
    intro r y a d hy hr hb
    rw [hr, assign_apply] at hb
    split at hb
    · next e =>
      rw [e, hy] at hx
      cases hx
    · rw [hx] at hb
      cases hb
  cases h with
  | keepAlive ha => exact absurd hb (other ha rfl)
  | closeOn _ _ ha | closed _ _ ha => exact absurd hb (other ha rfl)
  | @establish m _ i g u p seen r r' login =>
    rw [State.setCall_sessions, State.setSession_sessions, assign_apply] at hb
    split at hb
    · next e =>
      cases hb
      exact ⟨u, m, login, r', by rw [e]⟩
    · rw [hx] at hb
      cases hb
  | queue _ _ hg =>
    rw [State.setCall_sessions, (holdGate_spec hg).2.1, hx] at hb
    cases hb
  | leave =>
    rw [State.setCall_sessions, releaseGate_sessions, hx] at hb
    cases hb
  | takeOut =>
    rw [State.setCall_sessions, passGate_sessions, hx] at hb
    cases hb
  | _ => cases hx.symm.trans hb

theorem call_kept_of_party (hcu : Custody s) (he : m.step s e = some (t, effects))
    (hc : s.calls i = some c) (hparty : e.party? ≠ some (.call i)) : t.calls i = some c := by
  refine Decidable.byContradiction fun hne => ?_
  have hown := call?_of_changed hcu he (fun h => hne (h.trans hc))
  cases e with
  | call j r => exact not_call_of_step hc hown he j r rfl
  | proceed | dial | write | read =>
    cases hown
    exact hparty rfl
  | keepAlive | tick | ping | inbound => cases hown

theorem keepAlive_kept_of_party (hcu : Custody s) (he : m.step s e = some (t, effects))
    (ha : s.sessions x = some a) (hlock : a.lock? x ≠ none)
    (hparty : e.party? ≠ some (.keepAlive x)) :
    ∃ b, t.sessions x = some b ∧ b.keepAlive = a.keepAlive := by
  have hwaiting : a.keepAlive ≠ .waiting := fun h => hlock (by rw [Session.lock?, h])
  obtain ⟨b, hb, hmoves⟩ := Moves.of_step hcu he ha
  refine ⟨b, hb, ?_⟩
  cases hmoves with
  | still => rfl
  | closing _ _ _ _ _ hstep => exact Closing.keepAlive_eq hstep
  | proceed | ping => exact absurd rfl hparty
  | tick h => exact absurd (Session.waiting_of_tick h).1 hwaiting
  | inbound h => exact absurd (Session.waiting_of_inbound h).1 hwaiting

theorem writing_from (hcu : Custody s) (he : m.step s e = some (t, effects))
    (hb : t.sessions x = some b) (hw : b.keepAlive = .writing) :
    ∃ a, s.sessions x = some a ∧
      (a.keepAlive = .writing ∧ e.party? ≠ some (.keepAlive x) ∨
        a.keepAlive = .sending ∧ e = .keepAlive x) := by
  cases ha : s.sessions x with
  | none =>
    obtain ⟨u, m, login, r, rfl⟩ := (Shift.of_step he).made ha hb
    cases hw
  | some a =>
    refine ⟨a, rfl, ?_⟩
    obtain ⟨b', hb', hmoves⟩ := Moves.of_step hcu he ha
    rw [hb] at hb'
    cases hb'
    cases hmoves with
    | still hne => exact .inl ⟨hw, fun h => hne (Event.session?_of_party? h)⟩
    | closing hne _ _ _ _ hstep =>
      exact .inl ⟨(Closing.keepAlive_eq hstep).symm.trans hw,
        fun h => hne (Event.session?_of_party? h)⟩
    | proceed h => exact .inr ⟨Session.sending_of_proceed h hw, rfl⟩
    | tick h => exact absurd hw (Session.waiting_of_tick h).2
    | ping h => exact absurd hw (Session.not_writing_of_ping h)
    | inbound h => exact absurd hw (Session.waiting_of_inbound h).2

/-- Only a keep-alive that writes a ping goes on under its lock. -/
theorem State.goesOn_iff {p : Party} : s.goesOn p = true ↔
    ∃ x a, p = .keepAlive x ∧ s.sessions x = some a ∧ a.keepAlive = .writing := by
  cases p with
  | call | query =>
    constructor
    · nofun
    · rintro ⟨_, _, h, -⟩
      cases h
  | keepAlive x =>
    simp only [goesOn, Option.any_eq_true, decide_eq_true_eq]
    constructor
    · rintro ⟨a, ha, hw⟩
      exact ⟨x, a, rfl, ha, hw⟩
    · rintro ⟨_, a, hx, ha, hw⟩
      cases hx
      exact ⟨a, ha, hw⟩

/-! ### The discipline -/

/-- How locks are held. -/
structure Locked.Guarded (s : Locked) : Prop where
  /-- As long as work is to be done under a lock, it is what the holder is about to do. -/
  inside : ∀ {l : Lock} {p : Party}, s.locks l = some ⟨p, false⟩ → s.lock? p = some l
  once : ∀ {k l : Lock} {p : Party} {d d' : Bool}, s.locks k = some ⟨p, d⟩ →
    s.locks l = some ⟨p, d'⟩ → k = l
  writing : ∀ {x : CallId} {a : Session}, s.base.sessions x = some a → a.keepAlive = .writing →
    s.locks (.writer x) = some ⟨.keepAlive x, false⟩
  /-- A keep-alive has written its ping, or a call has taken the write half away and has to await
  the end of the keep-alive. -/
  done : ∀ {x : CallId} {p : Party}, s.locks (.writer x) = some ⟨p, true⟩ → p = .keepAlive x ∨
    ∃ i c, p = .call i ∧ s.base.calls i = some c ∧ c.closing? i = some (x, .join)

namespace Locked

variable {s t : Locked} {p q : Party} {k l : Lock} {i x : CallId} {d : Bool} {e : Event}
  {r : State} {effects : List Effect}

theorem IsReady.done_eq_false (hr : s.IsReady p) (hp : s.locks l = some ⟨p, d⟩) : d = false := by
  cases d with
  | false => rfl
  | true => exact absurd hp (hr l)

theorem lock?_keepAlive (h : s.lock? (.keepAlive x) = some l) : l = .writer x ∧
    ∃ a, s.base.sessions x = some a ∧ (a.keepAlive = .sending ∨ a.keepAlive = .writing) := by
  obtain ⟨a, ha, hl⟩ := Option.bind_eq_some_iff.1 h
  obtain ⟨rfl, hk⟩ := Session.lock?_eq_some_iff.1 hl
  exact ⟨rfl, a, ha, hk⟩

theorem lock?_kept (hcu : Custody s.base) (he : m.step s.base e = some (r, effects))
    (hparty : e.party? ≠ some q) (hq : s.lock? q = some l) :
    lock? { s with base := r } q = some l := by
  cases q with
  | call j =>
    obtain ⟨c, hc, hl⟩ := Option.bind_eq_some_iff.1 hq
    exact Option.bind_eq_some_iff.2 ⟨c, call_kept_of_party hcu he hc hparty, hl⟩
  | query => exact hq
  | keepAlive x =>
    obtain ⟨a, ha, hl⟩ := Option.bind_eq_some_iff.1 hq
    obtain ⟨b, hb, hk⟩ := keepAlive_kept_of_party hcu he ha (by rw [hl]; nofun) hparty
    refine Option.bind_eq_some_iff.2 ⟨b, hb, ?_⟩
    rw [Session.lock?, hk]
    exact hl

/-- What a step of party `p` at lock `l` is to others; whether `p` holds the lock after it, and has
still work to do under it, is said by `d`. -/
structure Handles (s t : Locked) (p : Party) (l : Lock) (d : Option Bool) : Prop where
  locks : t.locks = assign s.locks l (d.map (Hold.mk p))
  /-- Before the step, `p` is the only one who may hold the lock, and it holds no other. -/
  own : ∀ {k : Lock} {q : Party} {d' : Bool}, s.locks k = some ⟨q, d'⟩ → (k = l ↔ q = p)
  others : ∀ {k : Lock} {q : Party}, q ≠ p → s.lock? q = some k → t.lock? q = some k
  inside : d = some false → t.lock? p = some l
  calls : ∀ {i : CallId} {c : Call}, p ≠ .call i → s.base.calls i = some c →
    t.base.calls i = some c
  done : ∀ {x : CallId}, l = .writer x → d = some true → p = .keepAlive x ∨
    ∃ i c, p = .call i ∧ t.base.calls i = some c ∧ c.closing? i = some (x, .join)
  writing : ∀ {x : CallId} {b : Session}, t.base.sessions x = some b → b.keepAlive = .writing →
    (∃ a, s.base.sessions x = some a ∧ a.keepAlive = .writing ∧ p ≠ .keepAlive x) ∨
      p = .keepAlive x ∧ l = .writer x ∧ d = some false

theorem lock?_assign_queries {k : CallId} {a : QueryPhase} (hne : q ≠ .query k)
    (hq : s.lock? q = some l) :
    lock? { s with queries := assign s.queries k (some a) } q = some l := by
  cases q with
  | query j =>
    simp only [lock?]
    rw [assign_ne]
    · exact hq
    · rintro rfl
      exact hne rfl
  | call | keepAlive => exact hq

namespace Guarded

theorem base (h : Guarded s) (hcu : Custody s.base) (he : m.step s.base e = some (r, effects))
    (hfree : ∀ p, e.party? = some p → s.IsReady p ∧ s.lock? p = none) :
    Guarded { s with base := r } := by
  -- who holds a lock does not take the step
  have other : ∀ {l : Lock} {p : Party} {d : Bool}, s.locks l = some ⟨p, d⟩ →
      e.party? ≠ some p := by
    intro l p d hp hparty
    obtain ⟨hr, hnone⟩ := hfree p hparty
    cases hr.done_eq_false hp
    rw [h.inside hp] at hnone
    cases hnone
  refine ⟨fun hp => lock?_kept hcu he (other hp) (h.inside hp), h.once, fun {x b} hb hw => ?_,
    fun {x p} hp => ?_⟩
  · obtain ⟨a, ha, ⟨hwa, -⟩ | ⟨hsending, rfl⟩⟩ := writing_from hcu he hb hw
    · exact h.writing ha hwa
    · have hlock : s.lock? (.keepAlive x) = some (.writer x) :=
        Option.bind_eq_some_iff.2 ⟨a, ha, Session.lock?_eq_some_iff.2 ⟨rfl, .inl hsending⟩⟩
      rw [(hfree _ rfl).2] at hlock
      cases hlock
  · obtain hx | ⟨i, c, rfl, hc, hx⟩ := h.done hp
    · exact .inl hx
    · exact .inr ⟨i, c, rfl, call_kept_of_party hcu he hc (other hp), hx⟩

theorem handles {d : Option Bool} (h : Guarded s) (hst : Handles s t p l d) : Guarded t := by
  -- who holds a lock after the step, does so by it or has done so before
  have after : ∀ {k : Lock} {q : Party} {d' : Bool}, t.locks k = some ⟨q, d'⟩ →
      k = l ∧ q = p ∧ d = some d' ∨ k ≠ l ∧ q ≠ p ∧ s.locks k = some ⟨q, d'⟩ := by
    intro k q d' hk
    rw [hst.locks, assign_apply] at hk
    split at hk
    · obtain ⟨d'', rfl, hd⟩ := Option.map_eq_some_iff.1 hk
      cases hd
      exact .inl ⟨‹_›, rfl, rfl⟩
    · next hne => exact .inr ⟨hne, fun hq => hne ((hst.own hk).2 hq), hk⟩
  refine ⟨fun hk => ?_, fun hj hk => ?_, fun {x b} hb hw => ?_, fun {x q} hq => ?_⟩
  · obtain ⟨rfl, rfl, hd⟩ | ⟨-, hq, hk⟩ := after hk
    · exact hst.inside hd
    · exact hst.others hq (h.inside hk)
  · obtain ⟨rfl, rfl, -⟩ | ⟨-, hq, hj⟩ := after hj
    · obtain ⟨rfl, -, -⟩ | ⟨-, hq, -⟩ := after hk
      · rfl
      · exact absurd rfl hq
    · obtain ⟨-, rfl, -⟩ | ⟨-, -, hk⟩ := after hk
      · exact absurd rfl hq
      · exact h.once hj hk
  · rw [hst.locks]
    obtain ⟨a, ha, hwa, hp⟩ | ⟨rfl, rfl, rfl⟩ := hst.writing hb hw
    · have hx := h.writing ha hwa
      rw [assign_ne _ _ fun hl => hp ((hst.own hx).1 hl).symm, hx]
    · exact assign_same _ _ _
  · obtain ⟨hl, rfl, hd⟩ | ⟨-, hp, hq⟩ := after hq
    · exact hst.done hl.symm hd
    · obtain hx | ⟨i, c, rfl, hc, hx⟩ := h.done hq
      · exact .inl hx
      · exact .inr ⟨i, c, rfl, hst.calls hp.symm hc, hx⟩

theorem ne_of_writing (h : Guarded s) (ha : s.base.sessions x = some a)
    (hw : a.keepAlive = .writing) (hp : ∀ k, s.locks k ≠ some ⟨p, false⟩) : p ≠ .keepAlive x := by
  rintro rfl
  exact hp _ (h.writing ha hw)

theorem of_take (h : Guarded s) (hr : s.IsReady p) (hl : s.lock? p = some l)
    (hfree : s.locks l = none) : Handles s (s.setLock l (some ⟨p, false⟩)) p l (some false) := by
  have hnone : ∀ {k : Lock} {d : Bool}, s.locks k ≠ some ⟨p, d⟩ := by
    intro k d hk
    cases hr.done_eq_false hk
    cases hl.symm.trans (h.inside hk)
    rw [hfree] at hk
    cases hk
  refine ⟨rfl, fun hk => ⟨?_, ?_⟩, fun _ hq => hq, fun _ => hl, fun _ hc => hc, nofun,
    fun ha hw => .inl ⟨_, ha, hw, h.ne_of_writing ha hw fun _ => hnone⟩⟩
  · rintro rfl
    rw [hfree] at hk
    cases hk
  · rintro rfl
    exact absurd hk hnone

theorem own_of_holds (h : Guarded s) (hp : s.locks l = some ⟨p, d⟩) {d' : Bool}
    (hk : s.locks k = some ⟨q, d'⟩) : k = l ↔ q = p := by
  constructor
  · rintro rfl
    rw [hk] at hp
    cases hp
    rfl
  · rintro rfl
    exact h.once hk hp

theorem of_give (h : Guarded s) (hp : s.locks l = some ⟨p, true⟩) :
    Handles s (s.setLock l none) p l none := by
  refine ⟨rfl, h.own_of_holds hp, fun _ hq => hq, nofun, fun _ hc => hc, nofun,
    fun ha hw => .inl ⟨_, ha, hw, h.ne_of_writing ha hw fun k hk => ?_⟩⟩
  cases h.once hk hp
  rw [hk] at hp
  cases hp

theorem of_answer {k : CallId} {a : QueryPhase} (h : Guarded s)
    (hp : s.locks .table = some ⟨.query k, false⟩) :
    Handles s ({ s with queries := assign s.queries k (some a) }.setLock .table
      (some ⟨.query k, true⟩)) (.query k) .table (some true) := by
  exact ⟨rfl, h.own_of_holds hp, lock?_assign_queries, nofun, fun _ hc => hc, nofun,
    fun ha hw => .inl ⟨_, ha, hw, nofun⟩⟩

theorem of_work (h : Guarded s) (hs : m.Reachable s.base) (hp : s.locks l = some ⟨p, false⟩)
    (hparty : e.party? = some p) (he : m.step s.base e = some (r, effects)) :
    Handles s ({ s with base := r }.setLock l (some ⟨p, !r.goesOn p⟩)) p l
      (some (!r.goesOn p)) := by
  have hcu := hs.custody
  have hlock := h.inside hp
  have hother : ∀ {q : Party}, q ≠ p → e.party? ≠ some q := by
    rintro q hq hparty'
    rw [hparty] at hparty'
    cases hparty'
    exact hq rfl
  refine ⟨rfl, h.own_of_holds hp, fun hq => lock?_kept hcu he (hother hq), fun hd => ?_,
    fun hne hc => call_kept_of_party hcu he hc (hother hne.symm), ?_, fun {x b} hb hw => ?_⟩
  · -- the keep-alive writes its ping
    obtain ⟨x, b, rfl, hb, hw⟩ := State.goesOn_iff.1 (by simpa using hd)
    obtain ⟨rfl, -⟩ := lock?_keepAlive hlock
    exact Option.bind_eq_some_iff.2 ⟨b, hb, Session.lock?_eq_some_iff.2 ⟨rfl, .inr hw⟩⟩
  · rintro x rfl -
    cases p with
    | call i =>
      -- the call takes the write half away
      obtain ⟨c, hc, hl⟩ := Option.bind_eq_some_iff.1 hlock
      have hx := Call.closing?_of_lock? hl
      obtain rfl := eq_proceed_of_closing hc hx (Event.call?_of_party? hparty) he
      obtain ⟨a, ha, -⟩ := hcu.owned hc (Call.mem_owned_of_closing hx)
      obtain ⟨b, next', done, hstep, -, -, -, hcalls⟩ := closing_spec hc hx ha he
      have hc' : r.calls i = some (c.closeOn .join) := by
        cases Closing.does hstep <;> exact hcalls ▸ assign_same _ _ _
      exact .inr ⟨i, _, rfl, hc', Call.closing?_closeOn hx .join⟩
    | query => cases e <;> cases hparty
    | keepAlive y =>
      obtain ⟨hxy, -⟩ := lock?_keepAlive hlock
      cases hxy
      exact .inl rfl
  · obtain ⟨a, ha, ⟨hwa, hne⟩ | ⟨hsending, rfl⟩⟩ := writing_from hcu he hb hw
    · exact .inl ⟨a, ha, hwa, fun hpx => hne (hpx ▸ hparty)⟩
    · cases hparty
      obtain ⟨rfl, -⟩ := lock?_keepAlive hlock
      have hgoes : r.goesOn (.keepAlive x) = true := State.goesOn_iff.2 ⟨x, b, rfl, hb, hw⟩
      exact .inr ⟨rfl, rfl, by rw [hgoes, Bool.not_true]⟩

theorem step (h : Guarded s) (hs : m.Reachable s.base) {o : Option Party} (hst : Step m s o t) :
    Guarded t := by
  cases hst with
  | take hr hl hfree => exact h.handles (h.of_take hr hl hfree)
  | work hp hparty he => exact h.handles (h.of_work hs hp hparty he)
  | answer hp => exact h.handles (h.of_answer hp)
  | give hp => exact h.handles (h.of_give hp)
  | go hr hnone hparty he =>
    refine h.base hs.custody he fun q hq => ?_
    rw [hparty] at hq
    cases hq
    exact ⟨hr, hnone⟩
  | call he | tick _ he | inbound _ he => exact h.base hs.custody he nofun
  | ask hnew =>
    refine ⟨fun {l q} hq => lock?_assign_queries ?_ (h.inside hq), h.once, h.writing, h.done⟩
    rintro rfl
    obtain ⟨a, ha, -⟩ := Option.bind_eq_some_iff.1 (h.inside hq)
    rw [hnew] at ha
    cases ha

end Guarded

/-- With locks, the manager gets nowhere that it does not get without. -/
theorem Reachable.base (h : Reachable m s) : m.Reachable s.base := by
  induction h with
  | start => exact .start
  | step _ hst ih =>
    cases hst with
    | take | answer | give | ask => exact ih
    | work _ _ he | go _ _ _ he | call he | tick _ he | inbound _ he => exact .step ih he

theorem Reachable.guarded (h : Reachable m s) : Guarded s := by
  induction h with
  | start => exact ⟨nofun, nofun, nofun, nofun⟩
  | step hs hst ih => exact ih.step hs.base hst

/-! ### Between sections -/

/-- No lock is held but for a ping that is being written. -/
def Calm (s : Locked) : Prop :=
  ∀ {l : Lock} {h : Hold}, s.locks l = some h → ∃ x a, h = ⟨.keepAlive x, false⟩ ∧
    s.base.sessions x = some a ∧ a.keepAlive = .writing

namespace Calm

theorem isReady (h : Calm s) (p : Party) : s.IsReady p := by
  intro l hl
  obtain ⟨_, _, hp, -⟩ := h hl
  cases hp

theorem kept {v : Hold} (h : Calm s) (hcu : Custody s.base)
    (he : m.step s.base e = some (r, effects)) (hl : s.locks l = some v)
    (hne : e.party? ≠ some v.holder) :
    ∃ x a, v = ⟨.keepAlive x, false⟩ ∧ r.sessions x = some a ∧ a.keepAlive = .writing := by
  obtain ⟨x, a, rfl, ha, hw⟩ := h hl
  have hlock : a.lock? x ≠ none := by rw [Session.lock?_eq_some_iff.2 ⟨rfl, .inr hw⟩]; nofun
  obtain ⟨b, hb, hk⟩ := keepAlive_kept_of_party hcu he ha hlock hne
  exact ⟨x, b, rfl, hb, hk.trans hw⟩

theorem free (h : Calm s) (hg : Guarded s) (hparty : e.party? = some p)
    (hlock : s.lock? p = some l) (he : m.step s.base e = some (r, effects)) :
    s.locks l = none ∨ s.locks l = some ⟨p, false⟩ := by
  cases hl : s.locks l with
  | none => exact .inl rfl
  | some v =>
    obtain ⟨x, a, rfl, ha, hw⟩ := h hl
    obtain ⟨rfl, -⟩ := lock?_keepAlive (hg.inside hl)
    cases p with
    | call i =>
      obtain ⟨c, hc, hneeds⟩ := Option.bind_eq_some_iff.1 hlock
      have hx := Call.closing?_of_lock? hneeds
      obtain rfl := eq_proceed_of_closing hc hx (Event.call?_of_party? hparty) he
      obtain ⟨_, _, _, hstep, -⟩ := closing_spec hc hx ha he
      simp only [Closing.step, if_pos hw] at hstep
      cases hstep
    | query => cases e <;> cases hparty
    | keepAlive y =>
      obtain ⟨hxy, -⟩ := lock?_keepAlive hlock
      cases hxy
      exact .inr rfl

theorem taken (h : Calm s) (hs : Reachable m s) (hlock : s.lock? p = some l)
    (hl : s.locks l = none ∨ s.locks l = some ⟨p, false⟩) :
    ∃ t, Reachable m t ∧ t.base = s.base ∧ t.locks l = some ⟨p, false⟩ ∧
      ∀ k, k ≠ l → t.locks k = s.locks k := by
  obtain hl | hl := hl
  · exact ⟨_, .step hs (.take (h.isReady p) hlock hl), rfl, assign_same _ _ _,
      fun k hk => assign_ne _ _ hk⟩
  · exact ⟨s, hs, rfl, hl, fun _ _ => rfl⟩

/-- A step of the manager can be taken with the lock that it needs, and between two such steps no
lock is held. -/
theorem of_step (h : Calm s) (hs : Reachable m s) (he : m.step s.base e = some (r, effects)) :
    ∃ t, Reachable m t ∧ t.base = r ∧ Calm t := by
  have hcu := hs.base.custody
  cases hparty : e.party? with
  | none =>
    refine ⟨{ s with base := r }, ?_, rfl, fun hl => h.kept hcu he hl (by rw [hparty]; nofun)⟩
    cases e with
    | call => exact .step hs (.call he)
    | tick => exact .step hs (.tick (h.isReady _) he)
    | inbound => exact .step hs (.inbound (h.isReady _) he)
    | proceed | dial | write | read | keepAlive | ping => cases hparty
  | some p =>
    cases hlock : s.lock? p with
    | none =>
      refine ⟨_, .step hs (.go (h.isReady p) hlock hparty he), rfl, fun {l v} hl =>
        h.kept hcu he hl fun hp => ?_⟩
      cases hparty.symm.trans hp
      obtain ⟨x, a, rfl, -⟩ := h hl
      rw [hs.guarded.inside hl] at hlock
      cases hlock
    | some l =>
      obtain ⟨t, ht, hbase, hl, hothers⟩ := h.taken hs hlock (h.free hs.guarded hparty hlock he)
      have hwork : Step m t (some p) _ := .work hl hparty (hbase ▸ he)
      -- the other locks are held as they were
      have hkept : ∀ {k : Lock} {v : Hold}, k ≠ l → t.locks k = some v → ∃ x a,
          v = ⟨.keepAlive x, false⟩ ∧ r.sessions x = some a ∧ a.keepAlive = .writing := by
        intro k v hk hv
        refine h.kept hcu he (hothers k hk ▸ hv) fun hp => ?_
        obtain ⟨q, d⟩ := v
        cases hparty.symm.trans hp
        exact hk (ht.guarded.once hv hl)
      cases hgoes : r.goesOn p with
      | true =>
        refine ⟨_, .step ht hwork, rfl, fun {k v} hv => ?_⟩
        simp only [setLock, assign_apply] at hv
        split at hv
        · cases hv
          obtain ⟨x, a, rfl, ha, hw⟩ := State.goesOn_iff.1 hgoes
          exact ⟨x, a, by rw [hgoes, Bool.not_true], ha, hw⟩
        · exact hkept ‹_› hv
      | false =>
        rw [hgoes] at hwork
        refine ⟨_, .step (.step ht hwork) (.give (assign_same _ _ _)), rfl, fun {k v} hv => ?_⟩
        simp only [setLock, assign_apply] at hv
        split at hv
        · cases hv
        · exact hkept ‹_› hv

end Calm

end Locked

/-- Without locks, the manager gets nowhere that it does not get with them. -/
theorem Reachable.exists_locked (hs : m.Reachable s) :
    ∃ t, Locked.Reachable m t ∧ t.base = s ∧ t.Calm := by
  induction hs with
  | start => exact ⟨{}, .start, rfl, nofun⟩
  | step _ he ih =>
    obtain ⟨t, ht, rfl, hcalm⟩ := ih
    exact hcalm.of_step ht he

end Manager

end Corelink
