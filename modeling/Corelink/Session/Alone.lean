import Corelink.Client
import Corelink.Session.Manager

/-!
# Calls left alone

How a call goes when nothing else is going on but what it waits for: it takes its steps
one after another, the network treats its connection as a `Peer` says, and a keep-alive
whose end it awaits takes the steps that lead there. `advance` follows a call as far as
it gets. Reads can be held back, and then a call that awaits an answer stops there.
-/

namespace Corelink.Manager

open Wire

/-- How far a call has got, and the reads its connection still has to give. -/
structure Progress where
  state : State
  reads : List ReadResult := []
  effects : List Effect := []

/-- The event that brings a keep-alive nearer to its end. -/
def keepAliveEvent (s : State) (x : CallId) : Event :=
  match s.sessions x with
  | some session => if session.keepAlive = .writing then .ping x .done else .keepAlive x
  | none => .keepAlive x

/-- The event after which a step of closing session `x` can happen, or the step itself. -/
def closingEvent (s : State) (i x : CallId) (next : Closing) : Event :=
  match s.sessions x with
  | some session => if (next.step x session).isSome then .proceed i else keepAliveEvent s x
  | none => .proceed i

/-- The next event for call `i`; a read is given by `reads`, and nothing more ever comes
when they are used up. -/
def nextEvent (peer : Peer) (s : State) (reads : List ReadResult) (i : CallId) : Option Event :=
  match s.calls i with
  | none => none
  | some (.create _ _ phase) =>
    match phase with
    | .returned _ => none
    | .dialling .. => some (.dial i peer.dial)
    | .sending _ _ frame => some (.write i (peer.write frame))
    | .awaiting .. => some (.read i (reads.head?.getD .timedOut))
    | .discarding _ _ x next => some (closingEvent s i x next)
    | .undoing _ next _ => some (closingEvent s i i next)
    | _ => some (.proceed i)
  | some (.remove _ phase) =>
    match phase with
    | .returned => none
    | .closing x next _ _ => some (closingEvent s i x next)
    | _ => some (.proceed i)
  | some (.shutdown phase) =>
    match phase with
    | .returned => none
    | .closing _ (x :: _) next => some (closingEvent s i x next)
    | _ => some (.proceed i)

/-- The reads left after an event. -/
def readsAfter (peer : Peer) (reads : List ReadResult) (s : State) : Event → List ReadResult
  | .write i _ =>
    match s.calls i with
    | some (.create _ _ (.sending _ _ frame)) => peer.reads frame
    | _ => reads
  | .read .. => reads.tail
  | _ => reads

/-- Follows call `i` for so many events at most. With `held`, no read is given. -/
def advance (m : Manager) (peer : Peer) (held : Bool) (i : CallId) : Nat → Progress → Progress
  | 0, p => p
  | n + 1, p =>
    match nextEvent peer p.state p.reads i with
    | none => p
    | some e =>
      if held && (match e with | .read .. => true | _ => false) then p
      else
        match m.step p.state e with
        | none => p
        | some (s, effects) =>
          m.advance peer held i n
            { state := s, reads := readsAfter peer p.reads p.state e, effects := p.effects ++ effects }

/-- The reads that the answer to a request may take. -/
def readsFor (peer : Peer) : Request → Nat
  | .create u p =>
    let frame := (LoginRequest.mk u p).encode >>= Frame.encode .loginRequest
    match frame with
    | .ok frame => (peer.reads frame).length + 1
    | .error _ => 0
  | _ => 0

/-- Events that are enough for a request that no other call holds up: closing a session
takes four steps and at most three of its keep-alive, and reads go one by one. -/
def enough (s : State) (r : Request) (peer : Peer) : Nat :=
  32 + 8 * s.table.size + readsFor peer r

/-- Makes a call and follows it to its end. -/
def complete (m : Manager) (s : State) (i : CallId) (r : Request) (peer : Peer) : Progress :=
  match m.step s (.call i r) with
  | none => { state := s }
  | some (s, effects) =>
    m.advance peer false i (enough s r peer) { state := s, effects := effects }

/-- What a `create` that has returned gave. -/
def State.result? (s : State) (i : CallId) : Option CallId :=
  ((s.calls i).bind Call.result?).bind fun r => r

end Corelink.Manager
