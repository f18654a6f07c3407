import Corelink.Connection.Exchange
import Corelink.Notice

/-!
# Sessions and their keep-alive

A session is an open connection on which Core has accepted a login. Beside it runs its
keep-alive: at every interval it writes a ping, in between it takes in whatever Core
sends, and it ends when it is told to or when something fails. Closing a session takes
four steps, and each of them may meet the keep-alive at any of its own: the session is
marked dead, the keep-alive is told to stop, the write half is taken away, and the
keep-alive's end is awaited.

Nothing here is timed: when the interval is over, how a write ends and what a read gives
are up to the caller of each step.
-/

namespace Corelink

open Wire

/-- Calls are numbered, and a connection, its session and the gate made for a login bear
the number of the call that made them. -/
abbrev CallId := Nat

/-- What a step does beyond the state. -/
inductive Effect where
  | opened (connection : CallId)
  | wrote (connection : CallId) (frame : Bytes) (r : WriteResult)
  /-- Frames that a keep-alive took in. -/
  | took (connection : CallId) (frames : List Frame)
  | closed (connection : CallId)
  | noted (n : Notice)
  deriving DecidableEq, Repr

/-- Where a keep-alive stands. -/
inductive KeepAlive where
  /-- For the signal to stop, the end of the interval, or bytes. -/
  | waiting
  /-- The interval is over, and liveness is to be checked. -/
  | due
  /-- The write half is to be taken hold of. -/
  | sending
  /-- It holds the write half and writes a ping. -/
  | writing
  | failing (why : StopReason)
  | ended
  deriving DecidableEq, Repr

structure Session where
  username : String
  token : String
  userId : UInt64
  live : Bool := true
  /-- Whether the write half is there; without it the connection is closed. -/
  writer : Bool := true
  /-- Whether the keep-alive has been told to stop. -/
  signalled : Bool := false
  keepAlive : KeepAlive := .waiting
  /-- The reading end, with all that came behind the answer to the login. -/
  receiver : Receiver
  /-- What goes wrong when the connection is shut down, if anything does. -/
  shutFault : Option IoError := none
  deriving DecidableEq, Repr

/-- The frame that keeps a connection alive. -/
def pingFrame : Bytes :=
  Header.encode .ping (UInt32.ofNat pingPayload.length) ++ pingPayload

namespace Session

/-- A state after a step, and what the step did. -/
abbrev Step := Option (Session × List Effect)

/-! ### Keep-alive -/

/-- The step that the keep-alive takes on its own, if there is one. -/
def proceed (s : Session) : Step :=
  match s.keepAlive with
  | .waiting => if s.signalled then some ({ s with keepAlive := .ended }, []) else none
  | .due => some ({ s with keepAlive := if s.live then .sending else .ended }, [])
  | .sending =>
    let next := if s.writer then .writing else .failing (.pingFailed (.connection .closed))
    some ({ s with keepAlive := next }, [])
  | .writing => none
  | .failing why =>
    some ({ s with live := false, keepAlive := .ended }, [.noted (.keepAliveStopped s.username why)])
  | .ended => none

/-- The interval is over. The signal to stop goes before it. -/
def tick (s : Session) : Step :=
  if s.keepAlive = .waiting ∧ ¬ s.signalled then some ({ s with keepAlive := .due }, []) else none

/-- The writing of a ping ends. -/
def ping (t : Terms) (i : CallId) (s : Session) (r : WriteResult) : Step :=
  if s.keepAlive = .writing then
    let next := match t.written r with
      | .ok _ => .waiting
      | .error e => .failing (.pingFailed e)
    some ({ s with keepAlive := next }, [.wrote i pingFrame r])
  else none

/-- Bytes arrive, and all whole frames are taken in. -/
def take (i : CallId) (s : Session) (bs : Bytes) : Session × List Effect :=
  let (frames, error, receiver) := s.receiver.feed bs
  let next := match error with
    | none => .waiting
    | some e => .failing (.badFrame e)
  ({ s with keepAlive := next, receiver }, [.took i frames])

/-- A read ends; the signal to stop goes before it, and it has no bound in time. -/
def inbound (i : CallId) (s : Session) (r : ReadResult) : Step :=
  if s.keepAlive = .waiting ∧ ¬ s.signalled then
    match r with
    | .bytes b bs => some (s.take i (b :: bs))
    | .closed => some ({ s with keepAlive := .failing (.coreClosed s.receiver.shortfall) }, [])
    | .failed e => some ({ s with keepAlive := .failing (.readFailed e) }, [])
    | .timedOut => none
  else none

end Session

/-! ### Closing -/

/-- The next step of closing a session. -/
inductive Closing where
  | mark
  | signal
  | shut
  | join
  deriving DecidableEq, Repr

/-- What a step of closing comes to: the session, the step after it if there is one, and
what was done. -/
structure Closing.Progress where
  session : Session
  next : Option Closing
  effects : List Effect := []
  deriving DecidableEq, Repr

/-- What there is to tell of shutting the connection down: only that it went wrong. The
connection is given up all the same. -/
def Session.shutNotices (s : Session) : List Effect :=
  match s.shutFault with
  | some e => [.noted (.closeFailed s.username e)]
  | none => []

/-- A step of closing. The write half is out of reach while a ping is being written, and
the end of the keep-alive is awaited. There is no telling of a keep-alive that ended out of
turn, since none does: nobody else ends it, and none of its steps can break off. -/
def Closing.step (i : CallId) (s : Session) : Closing → Option Closing.Progress
  | mark => some ⟨{ s with live := false }, some signal, []⟩
  | signal => some ⟨{ s with signalled := true }, some shut, []⟩
  | shut =>
    if s.keepAlive = .writing then none
    else
      let effects := if s.writer then .closed i :: s.shutNotices else []
      some ⟨{ s with writer := false }, some join, effects⟩
  | join => if s.keepAlive = .ended then some ⟨s, none, []⟩ else none

end Corelink
