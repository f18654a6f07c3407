import Corelink.Session.Manager

/-!
# What can happen to a session

A session changes by its keep-alive when that takes a step on its own, when its interval is over,
and when a write or a read of it ends; and it changes by the four steps of closing. Each of these
comes to one of a few things, which are listed here with what must hold for them.
-/

namespace Corelink

namespace Session

/-- A step that a keep-alive takes on its own. -/
inductive Proceeds (a : Session) : Session → List Effect → Prop
  | cancelled (hk : a.keepAlive = .waiting) (hs : a.signalled = true) :
    Proceeds a { a with keepAlive := .ended } []
  | foundLive (hk : a.keepAlive = .due) (hl : a.live = true) :
    Proceeds a { a with keepAlive := .sending } []
  | foundDead (hk : a.keepAlive = .due) (hl : a.live = false) :
    Proceeds a { a with keepAlive := .ended } []
  | writes (hk : a.keepAlive = .sending) (hw : a.writer = true) :
    Proceeds a { a with keepAlive := .writing } []
  | overtaken (hk : a.keepAlive = .sending) (hw : a.writer = false) :
    Proceeds a { a with keepAlive := .failing (.pingFailed (.connection .closed)) } []
  | stopped {why : StopReason} (hk : a.keepAlive = .failing why) :
    Proceeds a { a with live := false, keepAlive := .ended }
      [.noted (.keepAliveStopped a.username why)]

/-- The end of the interval. -/
inductive Ticks (a : Session) : Session → List Effect → Prop
  | due (hk : a.keepAlive = .waiting) (hs : a.signalled = false) :
    Ticks a { a with keepAlive := .due } []

/-- The end of a ping's write. -/
inductive Pings (x : CallId) (a : Session) (r : WriteResult) : Session → List Effect → Prop
  | wrote {next : KeepAlive} (hk : a.keepAlive = .writing)
    (hnext : r = .done ∧ next = .waiting ∨ r ≠ .done ∧ ∃ e, next = .failing (.pingFailed e)) :
    Pings x a r { a with keepAlive := next } [.wrote x pingFrame r]

/-- The end of a read. -/
inductive Hears (x : CallId) (a : Session) : ReadResult → Session → List Effect → Prop
  | bytes (hk : a.keepAlive = .waiting) (hs : a.signalled = false) (first : UInt8) (more : Bytes) :
    Hears x a (.bytes first more) (a.take x (first :: more)).1 (a.take x (first :: more)).2
  | closed (hk : a.keepAlive = .waiting) (hs : a.signalled = false) :
    Hears x a .closed { a with keepAlive := .failing (.coreClosed a.receiver.shortfall) } []
  | failed (hk : a.keepAlive = .waiting) (hs : a.signalled = false) (e : IoError) :
    Hears x a (.failed e) { a with keepAlive := .failing (.readFailed e) } []

variable {a b : Session} {x : CallId} {effects : List Effect}

theorem proceeds (h : a.proceed = some (b, effects)) : a.Proceeds b effects := by
  unfold proceed at h
  split at h
  · next hk =>
    split at h <;> cases h
    next hs => exact .cancelled hk hs
  · next hk =>
    cases h
    split
    · next hl => exact .foundLive hk hl
    · next hl => exact .foundDead hk (Bool.eq_false_iff.2 hl)
  · next hk =>
    cases h
    split
    · next hw => exact .writes hk hw
    · next hw => exact .overtaken hk (Bool.eq_false_iff.2 hw)
  · cases h
  · next why hk =>
    cases h
    exact .stopped hk
  · cases h

theorem ticks (h : a.tick = some (b, effects)) : a.Ticks b effects := by
  unfold tick at h
  split at h
  · next hwait =>
    cases h
    exact .due hwait.1 (Bool.eq_false_iff.2 hwait.2)
  · cases h

theorem pings {t : Terms} {r : WriteResult} (h : a.ping t x r = some (b, effects)) :
    a.Pings x r b effects := by
  unfold ping at h
  split at h
  · next hk =>
    cases h
    refine .wrote hk ?_
    cases r with
    | done => exact .inl ⟨rfl, rfl⟩
    | failed | timedOut => exact .inr ⟨by rintro ⟨⟩, _, rfl⟩
  · cases h

theorem hears {r : ReadResult} (h : a.inbound x r = some (b, effects)) :
    a.Hears x r b effects := by
  unfold inbound at h
  split at h
  · next hwait =>
    have hs := Bool.eq_false_iff.2 hwait.2
    cases r with
    | bytes first more =>
      cases h
      exact .bytes hwait.1 hs first more
    | closed =>
      cases h
      exact .closed hwait.1 hs
    | failed e =>
      cases h
      exact .failed hwait.1 hs e
    | timedOut => cases h
  · cases h

/-! ### Taking bytes in -/

theorem take_keepAlive (a : Session) (x : CallId) (bs : Bytes) :
    (a.take x bs).1.keepAlive = .waiting ∨
      ∃ e, (a.take x bs).1.keepAlive = .failing (.badFrame e) := by
  unfold take
  dsimp only
  split
  · exact .inl rfl
  · exact .inr ⟨_, rfl⟩

theorem take_effects (a : Session) (x : CallId) (bs : Bytes) :
    ∃ frames, (a.take x bs).2 = [.took x frames] :=
  ⟨_, rfl⟩

end Session

/-! ### Closing -/

namespace Closing

/-- A step of closing, what comes after it and what it does. -/
inductive Does (x : CallId) (a : Session) :
    Closing → Session → Option Closing → List Effect → Prop
  | mark : Does x a .mark { a with live := false } (some .signal) []
  | signal : Does x a .signal { a with signalled := true } (some .shut) []
  | shut (hk : a.keepAlive ≠ .writing) (hw : a.writer = true) :
    Does x a .shut { a with writer := false } (some .join) [.closed x]
  | shutFails (hk : a.keepAlive ≠ .writing) (hw : a.writer = true) (e : IoError) :
    Does x a .shut { a with writer := false } (some .join)
      [.closed x, .noted (.closeFailed a.username e)]
  | gone (hk : a.keepAlive ≠ .writing) (hw : a.writer = false) :
    Does x a .shut { a with writer := false } (some .join) []
  | join (hk : a.keepAlive = .ended) : Does x a .join a none []

theorem does {x : CallId} {a b : Session} {next : Closing} {next' : Option Closing}
    {effects : List Effect} (h : next.step x a = some ⟨b, next', effects⟩) :
    Does x a next b next' effects := by
  cases next with
  | mark =>
    cases h
    exact .mark
  | signal =>
    cases h
    exact .signal
  | shut =>
    simp only [step] at h
    split at h
    · cases h
    · next hk =>
      cases h
      split
      · next hw =>
        unfold Session.shutNotices
        split
        · exact .shutFails hk hw _
        · exact .shut hk hw
      · next hw => exact .gone hk (Bool.eq_false_iff.2 hw)
  | join =>
    simp only [step] at h
    split at h
    · next hk =>
      cases h
      exact .join hk
    · cases h

end Closing

end Corelink
