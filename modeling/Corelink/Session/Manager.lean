import Corelink.Directory
import Corelink.Session.Call
import Corelink.Settings.Basic
import Corelink.Wire.Message

/-!
# The session manager

The table of sessions and every call and keep-alive that works on it, as a system of
small steps. `Manager.step` says what one event does: a new call comes in, a call or a
keep-alive takes its next step, or an operation on the network ends. It gives nothing
where the event cannot happen. Any sequence of events that can happen is a run, so a
property of all runs is a property of every interleaving.

Calls with the same username take turns. The gate of a user is made by the first `create`
that needs one, every later `create` holds on to the same gate while it is in the
directory, and the last one out takes it from there. A gate counts the removals that pass
while it is there; a `create` that finds the count changed at the end knows that its user
has logged out in between.
-/

namespace Corelink

open Wire

/-- The turnstile for the logins of one user. -/
structure Gate where
  /-- How many removals of the user have passed. The count is taken not to wrap: a word of
  64 bits holds more than can pass in the time of one login. -/
  removals : Nat := 0
  /-- One for the directory, and one for every call that holds on to it. -/
  references : Nat := 0
  /-- The call whose turn it is. -/
  owner : Option CallId := none
  deriving DecidableEq, Repr

structure Manager where
  address : String
  settings : SessionSettings
  /-- What goes wrong when a session's connection is shut down, if anything does. It is not
  known in advance, so any function will do. -/
  shutFault : CallId → Option IoError := fun _ => none

namespace Manager

/-- The terms of a login's connection. -/
def handshakeTerms (m : Manager) : Terms :=
  ⟨m.address, m.settings.handshakeTimeout.toNat⟩

/-- The terms on which pings are written. -/
def pingTerms (m : Manager) : Terms :=
  ⟨m.address, m.settings.sendTimeout.toNat⟩

/-! ### States -/

structure State where
  /-- The session in the table under each username. -/
  table : Directory CallId := .empty
  /-- The gate of each user who has one. -/
  logins : Directory CallId := .empty
  gates : CallId → Gate := fun _ => {}
  /-- Every session ever established. -/
  sessions : CallId → Option Session := fun _ => none
  /-- Every call ever made. -/
  calls : CallId → Option Call := fun _ => none

namespace State

def setCall (s : State) (i : CallId) (c : Call) : State :=
  { s with calls := assign s.calls i (some c) }

def setSession (s : State) (i : CallId) (x : Session) : State :=
  { s with sessions := assign s.sessions i (some x) }

def setGate (s : State) (g : CallId) (x : Gate) : State :=
  { s with gates := assign s.gates g x }

section
variable (s : State) (i : CallId)

@[simp] theorem setCall_table (c : Call) : (s.setCall i c).table = s.table := rfl

@[simp] theorem setCall_logins (c : Call) : (s.setCall i c).logins = s.logins := rfl

@[simp] theorem setCall_gates (c : Call) : (s.setCall i c).gates = s.gates := rfl

@[simp] theorem setCall_sessions (c : Call) : (s.setCall i c).sessions = s.sessions := rfl

@[simp] theorem setCall_calls (c : Call) : (s.setCall i c).calls = assign s.calls i (some c) := rfl

@[simp] theorem setSession_table (x : Session) : (s.setSession i x).table = s.table := rfl

@[simp] theorem setSession_logins (x : Session) : (s.setSession i x).logins = s.logins := rfl

@[simp] theorem setSession_gates (x : Session) : (s.setSession i x).gates = s.gates := rfl

@[simp] theorem setSession_sessions (x : Session) :
    (s.setSession i x).sessions = assign s.sessions i (some x) := rfl

@[simp] theorem setSession_calls (x : Session) : (s.setSession i x).calls = s.calls := rfl

@[simp] theorem setGate_table (g : Gate) : (s.setGate i g).table = s.table := rfl

@[simp] theorem setGate_logins (g : Gate) : (s.setGate i g).logins = s.logins := rfl

@[simp] theorem setGate_gates (g : Gate) : (s.setGate i g).gates = assign s.gates i g := rfl

@[simp] theorem setGate_sessions (g : Gate) : (s.setGate i g).sessions = s.sessions := rfl

@[simp] theorem setGate_calls (g : Gate) : (s.setGate i g).calls = s.calls := rfl

end

def isLive (s : State) (i : CallId) : Bool :=
  (s.sessions i).any (·.live)

/-- The live session of a user. -/
def liveSession? (s : State) (u : String) : Option CallId :=
  (s.table.get? u).filter s.isLive

def hasSession (s : State) (u : String) : Bool :=
  (s.liveSession? u).isSome

/-- The users with a live session. -/
def online (s : State) : List String :=
  (s.table.entries.filter fun e => s.isLive e.2).map (·.1)

end State

/-- What an event does, if it can happen. -/
abbrev Step := Option (State × List Effect)

/-! ### Gates -/

/-- Holds on to the user's gate, a new one named after call `i` if there is none. -/
def holdGate (s : State) (i : CallId) (u : String) : CallId × Nat × State :=
  match s.logins.get? u with
  | some g =>
    let gate := s.gates g
    (g, gate.removals, s.setGate g { gate with references := gate.references + 1 })
  | none =>
    let s := { s with logins := s.logins.insert u i }
    (i, 0, s.setGate i { references := 2 })

/-- Gives back a gate; it leaves the directory if no other call holds on to it. -/
def releaseGate (s : State) (u : String) (g : CallId) : State :=
  let gate := { s.gates g with owner := none }
  if s.logins.get? u = some g ∧ gate.references = 2 then
    { s with logins := s.logins.erase u }.setGate g { gate with references := 0 }
  else s.setGate g { gate with references := gate.references - 1 }

/-- A removal passes the gate, if there is one. -/
def passGate (s : State) (u : String) : State :=
  match s.logins.get? u with
  | some g => s.setGate g { s.gates g with removals := (s.gates g).removals + 1 }
  | none => s

/-! ### Closing a session -/

/-- A step of closing session `x`: the call goes on with the step after it, or is done
with closing. -/
def close (s : State) (x : CallId) (next : Closing) (goOn : Closing → State → State)
    (done : State → State × List Effect) : Step :=
  match s.sessions x with
  | none => some (done s)
  | some session =>
    (next.step x session).map fun p =>
      let s := s.setSession x p.session
      match p.next with
      | some next => (goOn next s, p.effects)
      | none =>
        let (s, effects) := done s
        (s, p.effects ++ effects)

/-! ### Create -/

section
variable (s : State) (i : CallId) (u p : String)

def go (phase : CreatePhase) : State :=
  s.setCall i (.create u p phase)

/-- The first look at the table. -/
def enter : State :=
  match s.liveSession? u with
  | some x => go s i u p (.returned (some x))
  | none =>
    let (g, seen, s) := holdGate s i u
    go s i u p (.queued g seen)

/-- Takes the gate, if it is free. -/
def takeTurn (g : CallId) (seen : Nat) : Step :=
  match (s.gates g).owner with
  | some _ => none
  | none => some (go (s.setGate g { s.gates g with owner := some i }) i u p (.admitted g seen), [])

/-- The second look at the table: takes out a dead session. -/
def reconcile (g : CallId) (seen : Nat) : State × List Effect :=
  match s.liveSession? u with
  | some x => (go s i u p (.leaving g (some x)), [])
  | none =>
    let cleared := { s with table := s.table.erase u }
    match s.table.get? u with
    | some x => (go cleared i u p (.discarding g seen x .mark), [.noted (.discardingStale u)])
    | none => (go cleared i u p (.ready g seen), [])

/-- The handshake ends without a session. -/
def giveUp (g : CallId) (e : CallError) : State × List Effect :=
  (go s i u p (.leaving g none), [.noted (.handshakeFailed u e)])

/-- Encodes the login before anything is sent. -/
def prepare (g : CallId) (seen : Nat) : State × List Effect :=
  match (LoginRequest.mk u p).encode with
  | .error e => giveUp s i u p g (.validation e)
  | .ok payload => (go s i u p (.dialling g seen payload), [])

/-- The attempt to connect ends. -/
def dialled (m : Manager) (g : CallId) (seen : Nat) (payload : Bytes) (r : DialResult) :
    State × List Effect :=
  match m.handshakeTerms.dialled (m.handshakeTerms.attempt r) with
  | .error e => giveUp s i u p g e
  | .ok _ =>
    match Frame.encode .loginRequest payload with
    | .error e =>
      let (s, effects) := giveUp s i u p g (.validation e)
      (s, .opened i :: .closed i :: effects)
    | .ok frame => (go s i u p (.sending g seen frame), [.opened i])

/-- The writing of the login ends. -/
def written (m : Manager) (g : CallId) (seen : Nat) (frame : Bytes) (r : WriteResult) :
    State × List Effect :=
  match m.handshakeTerms.written r with
  | .error e =>
    let (s, effects) := giveUp s i u p g e
    (s, .wrote i frame r :: .closed i :: effects)
  | .ok _ => (go s i u p (.awaiting g seen {}), [.wrote i frame r])

/-- The session that an accepted login makes. -/
def newSession (m : Manager) (login : LoginResponse) (r : Receiver) : Session :=
  { username := u, token := login.token, userId := login.userId, receiver := r
    shutFault := m.shutFault i }

/-- Core has answered with a frame. -/
def answered (m : Manager) (g : CallId) (seen : Nat) (f : Frame) (r : Receiver) :
    State × List Effect :=
  match replyPayload .loginResponse f >>= fun b => liftFraming (LoginResponse.decode b) with
  | .error e =>
    let (s, effects) := giveUp s i u p g e
    (s, .closed i :: effects)
  | .ok login =>
    if login.ok then
      (go (s.setSession i (newSession i u m login r)) i u p (.established g seen), [])
    else
      (go s i u p (.leaving g none), [.noted (.loginRejected u login.message), .closed i])

/-- A read ends while the answer is awaited. -/
def heard (m : Manager) (g : CallId) (seen : Nat) (r : Receiver) (read : ReadResult) :
    State × List Effect :=
  match Wait.read m.handshakeTerms r read with
  | .more r => (go s i u p (.awaiting g seen r), [])
  | .failed e =>
    let (s, effects) := giveUp s i u p g e
    (s, .closed i :: effects)
  | .frame f r => answered s i u p m g seen f r

/-- The last look at the table: puts the session in, unless its user has logged out. -/
def settle (g : CallId) (seen : Nat) : State × List Effect :=
  if (s.gates g).removals ≠ seen then
    (go s i u p (.undoing g .mark none), [.noted (.loginCancelled u)])
  else
    match s.liveSession? u with
    | some x => (go s i u p (.undoing g .mark (some x)), [])
    | none =>
      let s := { s with table := s.table.insert u i }
      let userId := ((s.sessions i).map (·.userId)).getD 0
      (go s i u p (.leaving g (some i)), [.noted (.sessionCreated u userId s.table.size)])

/-- The step that a `create` takes on its own, if there is one. -/
def proceedCreate : CreatePhase → Step
  | .called => some (enter s i u p, [])
  | .queued g seen => takeTurn s i u p g seen
  | .admitted g seen => some (reconcile s i u p g seen)
  | .discarding g seen x next =>
    close s x next (fun next s => go s i u p (.discarding g seen x next))
      fun s => (go s i u p (.ready g seen), [])
  | .ready g seen => some (prepare s i u p g seen)
  | .established g seen => some (settle s i u p g seen)
  | .undoing g next result =>
    close s i next (fun next s => go s i u p (.undoing g next result))
      fun s => (go s i u p (.leaving g result), [])
  | .leaving g result => some (go (releaseGate s u g) i u p (.returned result), [])
  | .dialling .. | .sending .. | .awaiting .. | .returned _ => none

end

/-! ### Remove and shutdown -/

/-- The look at the table: a removal passes the gate, and the session is taken out. -/
def takeOut (s : State) (i : CallId) (u : String) : State × List Effect :=
  let passed := passGate s u
  let cleared := { passed with table := passed.table.erase u }
  match s.table.get? u with
  | some x => (cleared.setCall i (.remove u (.found x cleared.table.size)), [])
  | none =>
    let notice := if (s.logins.get? u).isSome then .handshakeCancelled u else .noSession u
    (cleared.setCall i (.remove u .returned), [.noted notice])

/-- The step that a `remove` takes on its own, if there is one. -/
def proceedRemove (s : State) (i : CallId) (u : String) : RemovePhase → Step
  | .called => some (takeOut s i u)
  | .found x remaining =>
    some (s.setCall i (.remove u (.closing x .mark (s.isLive x) remaining)), [])
  | .closing x next wasLive remaining =>
    close s x next (fun next s => s.setCall i (.remove u (.closing x next wasLive remaining)))
      fun s => (s.setCall i (.remove u .returned), [.noted (.sessionRemoved u wasLive remaining)])
  | .returned => none

/-- The step that a `shutdown` takes on its own, if there is one. The sessions are closed in
the order in which their users came into the table; a hash map gives them in one that is
not known in advance. -/
def proceedShutdown (s : State) (i : CallId) : ShutdownPhase → Step
  | .called =>
    let sessions := s.table.entries.map (·.2)
    some ({ s with table := .empty }.setCall i
      (.shutdown (.closing sessions.length sessions .mark)), [])
  | .closing total [] _ => some (s.setCall i (.shutdown .returned), [.noted (.sessionsClosed total)])
  | .closing total (x :: rest) next =>
    close s x next (fun next s => s.setCall i (.shutdown (.closing total (x :: rest) next)))
      fun s => (s.setCall i (.shutdown (.closing total rest .mark)), [])
  | .returned => none

/-! ### Events -/

inductive Event where
  /-- A new call comes in. -/
  | call (i : CallId) (r : Request)
  /-- A call takes its next step. -/
  | proceed (i : CallId)
  | dial (i : CallId) (r : DialResult)
  | write (i : CallId) (r : WriteResult)
  | read (i : CallId) (r : ReadResult)
  /-- A keep-alive takes its next step. -/
  | keepAlive (x : CallId)
  /-- The interval of a keep-alive is over. -/
  | tick (x : CallId)
  | ping (x : CallId) (r : WriteResult)
  | inbound (x : CallId) (r : ReadResult)
  deriving DecidableEq, Repr

/-- A step of a session, as a step of the manager. -/
def onSession (s : State) (x : CallId) (f : Session → Session.Step) : Step := do
  let session ← s.sessions x
  let (session, effects) ← f session
  return (s.setSession x session, effects)

def proceed (s : State) (i : CallId) : Step :=
  match s.calls i with
  | some (.create u p phase) => proceedCreate s i u p phase
  | some (.remove u phase) => proceedRemove s i u phase
  | some (.shutdown phase) => proceedShutdown s i phase
  | none => none

/-- What an event does, if it can happen. -/
def step (m : Manager) (s : State) : Event → Step
  | .call i r => if s.calls i = none then some (s.setCall i r.start, []) else none
  | .proceed i => proceed s i
  | .dial i r =>
    match s.calls i with
    | some (.create u p (.dialling g seen payload)) => some (dialled s i u p m g seen payload r)
    | _ => none
  | .write i r =>
    match s.calls i with
    | some (.create u p (.sending g seen frame)) => some (written s i u p m g seen frame r)
    | _ => none
  | .read i r =>
    match s.calls i with
    | some (.create u p (.awaiting g seen receiver)) => some (heard s i u p m g seen receiver r)
    | _ => none
  | .keepAlive x => onSession s x Session.proceed
  | .tick x => onSession s x Session.tick
  | .ping x r => onSession s x fun session => session.ping m.pingTerms x r
  | .inbound x r => onSession s x fun session => session.inbound x r

/-! ### Runs -/

/-- Events one after another, if they can happen, with what each of them did. -/
def run (m : Manager) (s : State) : List Event → Option (State × List (Event × List Effect))
  | [] => some (s, [])
  | e :: es => do
    let (s, effects) ← m.step s e
    let (s, trace) ← run m s es
    return (s, (e, effects) :: trace)

/-- The states that runs from the empty table lead to. -/
inductive Reachable (m : Manager) : State → Prop where
  | start : Reachable m {}
  | step {s t : State} {e : Event} {effects : List Effect} :
    Reachable m s → m.step s e = some (t, effects) → Reachable m t

section
variable {m : Manager} {s t : State} {e : Event} {es : List Event}
  {trace : List (Event × List Effect)}

theorem run_cons (h : m.run s (e :: es) = some (t, trace)) :
    ∃ s' effects rest, m.step s e = some (s', effects) ∧ m.run s' es = some (t, rest) ∧
      trace = (e, effects) :: rest := by
  simp only [run, bind, Option.bind_eq_some_iff, pure] at h
  obtain ⟨⟨s', effects⟩, he, ⟨t', rest⟩, hes, h⟩ := h
  cases h
  exact ⟨s', effects, rest, he, hes, rfl⟩

theorem Reachable.run (hs : m.Reachable s) (h : m.run s es = some (t, trace)) :
    m.Reachable t := by
  induction es generalizing s trace with
  | nil =>
    cases h
    exact hs
  | cons e es ih =>
    obtain ⟨s', effects, rest, he, hes, -⟩ := run_cons h
    exact ih (.step hs he) hes

end

end Manager

end Corelink
