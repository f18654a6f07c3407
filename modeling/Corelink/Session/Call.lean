import Corelink.Session.KeepAlive

/-!
# Calls to the session manager

Three calls change the table of sessions, and each of them passes through phases. Between
two phases any other call may take a step; within one step none can, which is what the
lock of the table is for: every step that looks at the table takes it and gives it back.
A call waits only where its phase says so: for the gate of its user, for the network, for
the write half of a session, or for the end of a keep-alive.
-/

namespace Corelink

open Wire

/-- What can be asked of the manager, the plain queries aside. -/
inductive Request where
  | create (username password : String)
  | remove (username : String)
  | shutdown
  deriving DecidableEq, Repr

/-- Where a `create` stands. Most phases carry the gate that the call holds on to, and the
number of removals that the gate had seen when the call began. -/
inductive CreatePhase where
  | called
  /-- Waits for its turn at the gate. -/
  | queued (gate : CallId) (seen : Nat)
  /-- Its turn has come. -/
  | admitted (gate : CallId) (seen : Nat)
  /-- Closes the dead session that was in the table. -/
  | discarding (gate : CallId) (seen : Nat) (stale : CallId) (next : Closing)
  | ready (gate : CallId) (seen : Nat)
  | dialling (gate : CallId) (seen : Nat) (payload : Bytes)
  | sending (gate : CallId) (seen : Nat) (frame : Bytes)
  /-- Waits for the answer to its login. -/
  | awaiting (gate : CallId) (seen : Nat) (r : Receiver)
  /-- Its session is there but not in the table. -/
  | established (gate : CallId) (seen : Nat)
  /-- Closes its own session, since it must not go into the table. -/
  | undoing (gate : CallId) (next : Closing) (result : Option CallId)
  /-- Is done but for giving back the gate. -/
  | leaving (gate : CallId) (result : Option CallId)
  | returned (result : Option CallId)
  deriving DecidableEq, Repr

/-- Where a `remove` stands. `remaining` is the size of the table behind it. -/
inductive RemovePhase where
  | called
  | found (session : CallId) (remaining : Nat)
  | closing (session : CallId) (next : Closing) (wasLive : Bool) (remaining : Nat)
  | returned
  deriving DecidableEq, Repr

/-- Where a `shutdown` stands: the sessions still to be closed, the first one first. -/
inductive ShutdownPhase where
  | called
  | closing (total : Nat) (sessions : List CallId) (next : Closing)
  | returned
  deriving DecidableEq, Repr

inductive Call where
  | create (username password : String) (phase : CreatePhase)
  | remove (username : String) (phase : RemovePhase)
  | shutdown (phase : ShutdownPhase)
  deriving DecidableEq, Repr

/-- The call before its first step. -/
def Request.start : Request → Call
  | create u p => .create u p .called
  | remove u => .remove u .called
  | shutdown => .shutdown .called

namespace CreatePhase

/-- The gate that the call holds on to. -/
def gate? : CreatePhase → Option CallId
  | called | returned _ => none
  | queued g _ | admitted g _ | discarding g .. | ready g _ | dialling g .. | sending g ..
  | awaiting g .. | established g _ | undoing g .. | leaving g _ => some g

/-- Whether the call is between entering its gate and giving it back. -/
def isInside : CreatePhase → Bool
  | called | queued .. | returned _ => false
  | _ => true

/-- Whether the call has a connection open on which no login is accepted yet. -/
def isShakingHands : CreatePhase → Bool
  | sending .. | awaiting .. => true
  | _ => false

end CreatePhase

namespace Call

/-- Whose call it is; a `shutdown` is nobody's. -/
def username? : Call → Option String
  | create u _ _ | remove u _ => some u
  | shutdown _ => none

def hasReturned : Call → Bool
  | create _ _ (.returned _) | remove _ .returned | shutdown .returned => true
  | _ => false

/-- The session that a `create` gave, once it has returned. -/
def result? : Call → Option (Option CallId)
  | create _ _ (.returned r) => some r
  | _ => none

/-- The sessions that call `i` has taken out of the table, or not yet put into it, and
must see closed or put in before it returns. -/
def owned (i : CallId) : Call → List CallId
  | create _ _ (.discarding _ _ x _) => [x]
  | create _ _ (.established ..) | create _ _ (.undoing ..) => [i]
  | remove _ (.found x _) | remove _ (.closing x ..) => [x]
  | shutdown (.closing _ xs _) => xs
  | _ => []

end Call

end Corelink
