import Corelink.Session.Manager

/-!
# The manager with its locks

For `Manager.step` a section under a lock is one step. Here it is three: the lock is taken, the
work is done, and the lock is given back. In between others take their steps, and whoever needs
the same lock waits. The lock of the table is taken for every look at the table, the plain queries
included; the lock of a session's write half is taken by a call to close the connection, which it
holds until the socket is shut down, and by the keep-alive for as long as it writes a ping. A gate
is held from one step of a call to another, as it is in `Manager.State`.

A party waits for a lock, for its turn at a gate, or for the end of a keep-alive (`WaitsFor`). Who
of several waiting for a lock is the next to take it is left open.
-/

namespace Corelink

/-- Who takes steps. -/
inductive Party where
  | call (i : CallId)
  | query (k : CallId)
  /-- The keep-alive of session `x`. -/
  | keepAlive (x : CallId)
  deriving DecidableEq, Repr

inductive Lock where
  | table
  /-- The lock of the write half of session `x`. -/
  | writer (x : CallId)
  deriving DecidableEq, Repr

/-- Who holds a lock, and whether nothing is left to do under it. -/
structure Hold where
  holder : Party
  done : Bool
  deriving DecidableEq, Repr

/-- The lock under which a step of closing session `x` is taken, if it needs one. -/
def Closing.lock? (x : CallId) : Closing → Option Lock
  | shut => some (.writer x)
  | mark | signal | join => none

/-- The lock under which call `i` takes its next step, if it needs one. -/
def Call.lock? (i : CallId) : Call → Option Lock
  | create _ _ .called | create _ _ (.admitted ..) | create _ _ (.established ..)
  | create _ _ (.leaving ..) | remove _ .called | shutdown .called => some .table
  | create _ _ (.discarding _ _ x next) | remove _ (.closing x next ..)
  | shutdown (.closing _ (x :: _) next) => next.lock? x
  | create _ _ (.undoing _ next _) => next.lock? i
  | _ => none

/-- The session whose keep-alive must have ended before call `i` takes its next step. -/
def Call.awaited? (i : CallId) : Call → Option CallId
  | create _ _ (.discarding _ _ x .join) | remove _ (.closing x .join ..)
  | shutdown (.closing _ (x :: _) .join) => some x
  | create _ _ (.undoing _ .join _) => some i
  | _ => none

/-- The lock under which the keep-alive of `x` takes its next step, if it needs one. -/
def Session.lock? (x : CallId) (a : Session) : Option Lock :=
  match a.keepAlive with
  | .sending | .writing => some (.writer x)
  | .waiting | .due | .failing _ | .ended => none

/-- Whether the keep-alive is over, or has nothing to do until its interval is over or bytes
arrive. -/
def Session.isIdle (a : Session) : Bool :=
  match a.keepAlive with
  | .waiting => !a.signalled
  | .ended => true
  | .due | .sending | .writing | .failing _ => false

/-! ### Queries -/

inductive Query where
  | session (username : String)
  | hasSession (username : String)
  | online
  deriving DecidableEq, Repr

inductive Reply where
  | session (x : Option CallId)
  | hasSession (found : Bool)
  | online (usernames : List String)
  deriving DecidableEq, Repr

inductive QueryPhase where
  | asked (q : Query)
  | answered (r : Reply)
  deriving DecidableEq, Repr

/-- The lock under which a query is answered. -/
def QueryPhase.lock? : QueryPhase → Option Lock
  | asked _ => some .table
  | answered _ => none

namespace Manager

def State.answer (s : State) : Query → Reply
  | .session u => .session (s.liveSession? u)
  | .hasSession u => .hasSession (s.hasSession u)
  | .online => .online s.online

/-- Who takes the step; that a call comes in is nobody's. -/
def Event.party? : Event → Option Party
  | .proceed i | .dial i _ | .write i _ | .read i _ => some (.call i)
  | .keepAlive x | .ping x _ => some (.keepAlive x)
  | .call .. | .tick _ | .inbound .. => none

/-- Whether the party goes on under the lock that it holds: a keep-alive does so while it writes a
ping. -/
def State.goesOn (s : State) : Party → Bool
  | .keepAlive x => (s.sessions x).any (·.keepAlive = .writing)
  | .call _ | .query _ => false

/-! ### States and steps -/

structure Locked where
  base : State := {}
  locks : Lock → Option Hold := fun _ => none
  /-- Every query ever made. -/
  queries : CallId → Option QueryPhase := fun _ => none

namespace Locked

/-- The lock under which a party takes its next step, if it needs one. -/
def lock? (s : Locked) : Party → Option Lock
  | .call i => (s.base.calls i).bind (Call.lock? i)
  | .query k => (s.queries k).bind QueryPhase.lock?
  | .keepAlive x => (s.base.sessions x).bind (Session.lock? x)

/-- The party holds some lock. -/
def Holds (s : Locked) (p : Party) : Prop :=
  ∃ l done, s.locks l = some ⟨p, done⟩

/-- The party has no lock to give back before it goes on. -/
def IsReady (s : Locked) (p : Party) : Prop :=
  ∀ l, s.locks l ≠ some ⟨p, true⟩

def setLock (s : Locked) (l : Lock) (h : Option Hold) : Locked :=
  { s with locks := assign s.locks l h }

/-- The steps of a party, and the steps that come from outside. An operation on the network ends
in the step of whoever waits for it, and may always end in failure. -/
inductive Step (m : Manager) (s : Locked) : Option Party → Locked → Prop where
  | take {p : Party} {l : Lock} : s.IsReady p → s.lock? p = some l → s.locks l = none →
    Step m s (some p) (s.setLock l (some ⟨p, false⟩))
  | work {p : Party} {l : Lock} {e : Event} {t : State} {effects : List Effect} :
    s.locks l = some ⟨p, false⟩ → e.party? = some p → m.step s.base e = some (t, effects) →
    Step m s (some p) ({ s with base := t }.setLock l (some ⟨p, !t.goesOn p⟩))
  | answer {k : CallId} {q : Query} :
    s.locks .table = some ⟨.query k, false⟩ → s.queries k = some (.asked q) →
    Step m s (some (.query k))
      ({ s with queries := assign s.queries k (some (.answered (s.base.answer q))) }.setLock .table
        (some ⟨.query k, true⟩))
  | give {p : Party} {l : Lock} : s.locks l = some ⟨p, true⟩ →
    Step m s (some p) (s.setLock l none)
  /-- A step that needs no lock. -/
  | go {p : Party} {e : Event} {t : State} {effects : List Effect} :
    s.IsReady p → s.lock? p = none → e.party? = some p → m.step s.base e = some (t, effects) →
    Step m s (some p) { s with base := t }
  | call {i : CallId} {r : Request} {t : State} {effects : List Effect} :
    m.step s.base (.call i r) = some (t, effects) → Step m s none { s with base := t }
  | ask {k : CallId} {q : Query} : s.queries k = none →
    Step m s none { s with queries := assign s.queries k (some (.asked q)) }
  | tick {x : CallId} {t : State} {effects : List Effect} : s.IsReady (.keepAlive x) →
    m.step s.base (.tick x) = some (t, effects) → Step m s none { s with base := t }
  | inbound {x : CallId} {r : ReadResult} {t : State} {effects : List Effect} :
    s.IsReady (.keepAlive x) → m.step s.base (.inbound x r) = some (t, effects) →
    Step m s none { s with base := t }

/-- The states that steps from the empty table lead to. -/
inductive Reachable (m : Manager) : Locked → Prop where
  | start : Reachable m {}
  | step {s t : Locked} {p : Option Party} :
    Reachable m s → Step m s p t → Reachable m t

/-- The party can take a step of its own. -/
def CanStep (m : Manager) (s : Locked) (p : Party) : Prop :=
  ∃ t, Step m s (some p) t

/-! ### Waiting -/

/-- The party has something to do: its call has not returned, its query is not answered, its
keep-alive is not idle, or it has a lock to give back. -/
def IsBusy (s : Locked) (p : Party) : Prop :=
  s.Holds p ∨
    match p with
    | .call i => ∃ c, s.base.calls i = some c ∧ c.hasReturned = false
    | .query k => ∃ q, s.queries k = some (.asked q)
    | .keepAlive x => ∃ a, s.base.sessions x = some a ∧ a.isIdle = false

/-- Party `p` waits for a lock, and `q` holds it. -/
def AwaitsLock (s : Locked) (p q : Party) : Prop :=
  s.IsReady p ∧ q ≠ p ∧ ∃ l done, s.lock? p = some l ∧ s.locks l = some ⟨q, done⟩

/-- Call `i` waits at its gate, and it is the turn of call `j`. -/
def AwaitsTurn (s : Locked) (i j : CallId) : Prop :=
  s.IsReady (.call i) ∧ ∃ u p g seen, s.base.calls i = some (.create u p (.queued g seen)) ∧
    (s.base.gates g).owner = some j

/-- Call `i` waits for the end of the keep-alive of session `x`. -/
def AwaitsEnd (s : Locked) (i x : CallId) : Prop :=
  s.IsReady (.call i) ∧ ∃ c a, s.base.calls i = some c ∧ c.awaited? i = some x ∧
    s.base.sessions x = some a ∧ a.keepAlive ≠ .ended

/-- The party waits for a step of another. -/
inductive WaitsFor (s : Locked) : Party → Party → Prop where
  | lock {p q : Party} : s.AwaitsLock p q → WaitsFor s p q
  | turn {i j : CallId} : s.AwaitsTurn i j → WaitsFor s (.call i) (.call j)
  | finish {i x : CallId} : s.AwaitsEnd i x → WaitsFor s (.call i) (.keepAlive x)

end Locked

end Manager

end Corelink
