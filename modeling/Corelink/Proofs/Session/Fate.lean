import Corelink.Proofs.Session.Account
import Corelink.Proofs.Session.Kept

/-!
# The fate of a session

A session that nobody closes and whose connection does not fail is undone by one thing alone, the
first framing error that its keep-alive meets (`Undisturbed`). Until then it is live and its
keep-alive goes on; afterwards the keep-alive gives that error as its reason, and the session is
dead. A keep-alive looks at bytes when it has read some, so what was handed over to it with the
answer to the login waits until it reads. Each of its steps keeps this (`Undisturbed.moves`), and so
does every run (`spared_of_run`).
-/

namespace Corelink

open Wire

/-- Whether the keep-alive has not noticed any failure. -/
def KeepAlive.isGoing : KeepAlive → Bool
  | waiting | due | sending | writing => true
  | failing _ | ended => false

namespace Manager

/-! ### What happens to the connection -/

/-- Whether the event is a failure of connection `x` that is noticed by its session. -/
def Event.breaks (x : CallId) : Event → Bool
  | .ping y r => y == x && r != .done
  | .inbound y .closed | .inbound y (.failed _) => y == x
  | _ => false

namespace Trace

/-- No event of the run is a failure of connection `x`. -/
def Unbroken (x : CallId) (trace : Trace) : Prop :=
  ∀ e ∈ trace, e.1.breaks x = false

/-- Whether this was logged. -/
def Noted (trace : Trace) (n : Notice) : Prop :=
  ∃ e ∈ trace, Effect.noted n ∈ e.2

variable {x : CallId} {trace : Trace} {e : Event} {effects : List Effect} {n : Notice}

theorem unbroken_concat :
    Unbroken x (trace ++ [(e, effects)]) ↔ Unbroken x trace ∧ e.breaks x = false := by
  simp [Unbroken, or_imp, forall_and]

theorem Noted.concat (h : Noted trace n) : Noted (trace ++ [(e, effects)]) n := by
  obtain ⟨e', he', hn⟩ := h
  exact ⟨e', List.mem_append_left _ he', hn⟩

theorem Noted.last (h : Effect.noted n ∈ effects) : Noted (trace ++ [(e, effects)]) n :=
  ⟨(e, effects), List.mem_append_right _ (List.mem_singleton_self _), h⟩

end Trace

/-! ### Fate -/

/-- Where a session stands whose keep-alive has met this framing error, if any. -/
inductive Fate (a : Session) (trace : Trace) : Option FramingError → Prop where
  | going : a.live = true → a.keepAlive.isGoing = true → Fate a trace none
  | failing {e : FramingError} : a.live = true → a.keepAlive = .failing (.badFrame e) →
    Fate a trace (some e)
  | stopped {e : FramingError} : a.live = false → a.keepAlive = .ended →
    trace.Noted (.keepAliveStopped a.username (.badFrame e)) → Fate a trace (some e)

/-- A session that nobody has closed and whose connection has not failed. -/
structure Undisturbed (a : Session) (trace : Trace) (error : Option FramingError) : Prop where
  writer : a.writer = true
  signalled : a.signalled = false
  fate : Fate a trace error

variable {m : Manager} {s t : State} {e : Event} {es : List Event} {x : CallId}
  {effects : List Effect} {trace : Trace} {a b : Session} {error : Option FramingError}
  {f : Frame} {answer later : Bytes}

theorem Fate.concat (h : Fate a trace error) : Fate a (trace ++ [(e, effects)]) error := by
  cases h with
  | going hl hk => exact .going hl hk
  | failing hl hk => exact .failing hl hk
  | stopped hl hk hn => exact .stopped hl hk hn.concat

namespace Undisturbed

theorem of_going (h : Undisturbed a trace error) (hk : a.keepAlive.isGoing = true) :
    a.live = true ∧ error = none := by
  cases h.fate with
  | going hl => exact ⟨hl, rfl⟩
  | failing _ hf =>
    rw [hf] at hk
    cases hk
  | stopped _ hf =>
    rw [hf] at hk
    cases hk

theorem proceed (h : Undisturbed a trace error) (hp : a.proceed = some (b, effects)) :
    Undisturbed b (trace ++ [(e, effects)]) error := by
  have hkept := Session.Kept.of_proceed hp
  refine ⟨hkept.writer.trans h.writer, hkept.signalled.trans h.signalled, ?_⟩
  cases Session.proceeds hp with
  | cancelled _ hs => cases h.signalled.symm.trans hs
  | foundLive hk hl =>
    obtain ⟨-, rfl⟩ := h.of_going (by rw [hk]; rfl)
    exact .going hl rfl
  | foundDead hk hdead =>
    obtain ⟨hl, -⟩ := h.of_going (by rw [hk]; rfl)
    cases hl.symm.trans hdead
  | writes hk =>
    obtain ⟨hl, rfl⟩ := h.of_going (by rw [hk]; rfl)
    exact .going hl rfl
  | overtaken _ hw => cases h.writer.symm.trans hw
  | stopped hk =>
    cases h.fate with
    | going _ hgoing =>
      rw [hk] at hgoing
      cases hgoing
    | failing _ hf =>
      rw [hk] at hf
      cases hf
      exact .stopped rfl rfl (.last (List.mem_singleton_self _))
    | stopped _ hf =>
      rw [hk] at hf
      cases hf

theorem tick (h : Undisturbed a trace error) (ht : a.tick = some (b, effects)) :
    Undisturbed b (trace ++ [(e, effects)]) error := by
  cases Session.ticks ht with
  | due hk =>
    obtain ⟨hl, rfl⟩ := h.of_going (by rw [hk]; rfl)
    exact ⟨h.writer, h.signalled, .going hl rfl⟩

theorem ping {terms : Terms} (h : Undisturbed a trace error)
    (hp : a.ping terms x .done = some (b, effects)) :
    Undisturbed b (trace ++ [(e, effects)]) error := by
  cases Session.pings hp with
  | wrote hk hnext =>
    obtain ⟨hl, rfl⟩ := h.of_going (by rw [hk]; rfl)
    obtain ⟨-, rfl⟩ | ⟨hne, -⟩ := hnext
    · exact ⟨h.writer, h.signalled, .going hl rfl⟩
    · exact absurd rfl hne

/-- What a read comes to is told by what has been received until then. -/
theorem take (h : Undisturbed a trace error) (hh : Handed x a trace f answer later)
    (hk : a.keepAlive = .waiting) {bs : Bytes} (ht : (b, effects) = a.take x bs) :
    Undisturbed b (trace ++ [(e, effects)]) (digest true (later ++ bs)).error := by
  obtain ⟨hl, -⟩ := h.of_going (by rw [hk]; rfl)
  obtain ⟨frames, -, htake⟩ := hh.take_eq bs
  rw [htake] at ht
  cases ht
  refine ⟨h.writer, h.signalled, ?_⟩
  cases (digest true (later ++ bs)).error with
  | none => exact .going hl rfl
  | some err => exact .failing hl rfl

/-- **A session that is not disturbed goes on so**, whatever its keep-alive does. -/
theorem moves (h : Undisturbed a trace (digest (trace.hasRead x) later).error)
    (hh : Handed x a trace f answer later) (hm : Moves m s x a e effects b)
    (hbreak : e.breaks x = false)
    (hclose : ∀ i c next, s.calls i = some c → c.closing? i ≠ some (x, next)) :
    ∃ later', Handed x b (trace ++ [(e, effects)]) f answer later' ∧
      Undisturbed b (trace ++ [(e, effects)])
        (digest (Trace.hasRead x (trace ++ [(e, effects)])) later').error := by
  obtain ⟨first, more, rfl, hk, -, htake⟩ | ⟨hsilent, hreceiver⟩ := hm.receiver
  · refine ⟨_, hh.inbound htake, ?_⟩
    rw [Trace.hasRead_concat, Event.feeds_bytes, Bool.or_true]
    exact h.take hh hk htake
  · refine ⟨later, hh.silent hsilent hm.aged hreceiver, ?_⟩
    rw [Trace.hasRead_concat, hsilent.feeds, Bool.or_false]
    cases hm with
    | still => exact ⟨h.writer, h.signalled, h.fate.concat⟩
    | closing _ _ _ hc hx => exact absurd hx (hclose _ _ _ hc)
    | proceed hp => exact h.proceed hp
    | tick ht => exact h.tick ht
    | @ping r b effects hp =>
      have hdone : r = .done := by simpa [Event.breaks] using hbreak
      subst hdone
      exact h.ping hp
    | inbound hi =>
      cases Session.hears hi with
      | bytes => cases hsilent.feeds.symm.trans (Event.feeds_bytes x _ _)
      | closed | failed => cases hbreak.symm.trans (beq_self_eq_true x)

end Undisturbed

/-- Session `x` is past, or it has met with nothing but what Core has sent. -/
def Spared (x : CallId) (a : Session) (t : State) (trace : Trace) : Prop :=
  Past x t ∨ ∃ f answer later, Handed x a trace f answer later ∧
    Undisturbed a trace (digest (trace.hasRead x) later).error

namespace Spared

theorem of_made (hs : m.Reachable s) (h : Account x s trace) (he : m.step s e = some (t, effects))
    (hx : s.sessions x = none) (hb : t.sessions x = some b) :
    Spared x b t (trace ++ [(e, effects)]) := by
  obtain ⟨⟨u, login, r, rfl⟩, hread, f, answer, later, hh⟩ := h.made hs he hx hb
  refine .inr ⟨f, answer, later, hh, rfl, rfl, ?_⟩
  rw [hread]
  exact .going rfl rfl

theorem step (hs : m.Reachable s) (h : Spared x a s trace) (hx : s.sessions x = some a)
    (he : m.step s e = some (t, effects)) (hbreak : e.breaks x = false)
    (hb : t.sessions x = some b) : Spared x b t (trace ++ [(e, effects)]) := by
  obtain hpast | ⟨f, answer, later, hh, hu⟩ := h
  · exact .inl (hpast.shift (.of_step he))
  obtain ⟨b', hb', hm⟩ := Moves.of_step hs.custody he hx
  rw [hb] at hb'
  cases hb'
  by_cases hclose : ∃ i c next, s.calls i = some c ∧ c.closing? i = some (x, next)
  · obtain ⟨i, c, next, hc, hcx⟩ := hclose
    exact .inl ((hs.past_of_closing hc hcx).shift (.of_step he))
  · obtain ⟨later', hh', hu'⟩ := hu.moves hh hm hbreak fun i c next hc hcx =>
      hclose ⟨i, c, next, hc, hcx⟩
    exact .inr ⟨f, answer, later', hh', hu'⟩

end Spared

/-- **A session whose connection does not fail is spared** at the end of every run. -/
theorem spared_of_run (hr : m.run {} es = some (t, trace)) (hunbroken : trace.Unbroken x)
    (ha : t.sessions x = some a) : Spared x a t trace := by
  have key : Account x t trace ∧
      (trace.Unbroken x → ∀ a, t.sessions x = some a → Spared x a t trace) := by
    refine run_invariant (P := fun t trace => Account x t trace ∧
      (trace.Unbroken x → ∀ a, t.sessions x = some a → Spared x a t trace)) ⟨.start, ?_⟩ ?_ hr
    · exact fun _ _ ha => by cases ha
    · rintro s t e effects trace hs ⟨hacc, ih⟩ he
      refine ⟨hacc.step hs he, fun hunbroken b hb => ?_⟩
      obtain ⟨hbefore, hbreak⟩ := Trace.unbroken_concat.1 hunbroken
      cases hx : s.sessions x with
      | none => exact .of_made hs hacc he hx hb
      | some a => exact (ih hbefore a hx).step hs hx he hbreak hb
  exact key.2 hunbroken a ha

end Manager

end Corelink
