import Corelink.Gateway
import Corelink.Rehearsal.Script

/-!
# Rehearsals

A client, a session manager and a gateway, all for one scripted Core, or for a Core to
which there is no route. Every operation runs to its end before the next one starts,
except in `concurrently`, where Core holds back its answers while logins wait for them.
What happens on connections that stay is told to their keep-alives at once. The notices
given and the frames that Core gets are kept until they are asked for.
-/

namespace Corelink.Rehearsal

open Wire

/-- Whether Core can be reached at all. -/
inductive Route where
  | direct
  | unreachable
  deriving DecidableEq, Repr

/-- Whose sessions: those of the session manager, or those of the gateway. -/
inductive Side where
  | manager
  | gateway
  deriving DecidableEq, Repr

/-- A connection for a session, as Core sees it. -/
structure Link where
  side : Side
  id : CallId
  /-- Who logged in on it. -/
  user : Option String := none
  /-- What Core has sent and nobody has read. -/
  inbox : List Delivery := []
  isOpen : Bool := true
  deriving DecidableEq, Repr

structure World where
  settings : Settings
  route : Route
  core : Core
  sessions : Manager.State := {}
  gatewaySessions : Manager.State := {}
  /-- Calls made so far. -/
  calls : Nat := 0
  links : List Link := []
  /-- Sessions given out, in the order they first were. -/
  known : List CallId := []
  accepted : Nat := 0
  notices : List Notice := []
  frames : List Frame := []

namespace World

/-- The world before its next operation. -/
def fresh (w : World) : World :=
  { w with notices := [], frames := [] }

def state (w : World) : Side → Manager.State
  | .manager => w.sessions
  | .gateway => w.gatewaySessions

def withState (w : World) (s : Manager.State) : Side → World
  | .manager => { w with sessions := s }
  | .gateway => { w with gatewaySessions := s }

def gateway (w : World) : Gateway :=
  w.settings.gateway

def manager (w : World) : Manager :=
  w.settings.manager

def note (w : World) (ns : List Notice) : World :=
  { w with notices := w.notices ++ ns }

/-- How the next connection is treated. -/
def peer (w : World) (timeout : Nat) : Peer :=
  match w.route with
  | .direct => w.core.peer timeout
  | .unreachable => { dial := .failed .unreachable, write := fun _ => .done, reads := fun _ => [] }

/-! ### Connections -/

/-- Core gets bytes; it says what follows them. -/
def receive (w : World) (bs : Bytes) : List Delivery × List Frame × World :=
  let frames := w.core.framesOf bs
  let (replies, core) := w.core.receiveAll frames
  (replies, frames, { w with core })

/-- What a one-shot request did. -/
def act (w : World) : Action → World
  | .dialled .opened => { w with accepted := w.accepted + 1 }
  | .wrote bs .done =>
    let (_, frames, w) := w.receive bs
    { w with frames := w.frames ++ frames }
  | _ => w

def actAll (w : World) (as : List Action) : World :=
  as.foldl act w

def updateLink (w : World) (side : Side) (i : CallId) (f : Link → Link) : World :=
  { w with links := w.links.map fun l => if l.side = side ∧ l.id = i then f l else l }

def inbox (w : World) (side : Side) (i : CallId) : List Delivery :=
  match w.links.find? fun l => l.side = side ∧ l.id = i with
  | some l => l.inbox
  | none => []

/-- Who logs in with these frames. -/
def loginName? (frames : List Frame) : Option String :=
  frames.findSome? fun f =>
    if f.header.type = MessageType.loginRequest.code then
      (LoginRequest.decode f.payload).toOption.map (·.username)
    else none

/-- What a step of a session manager did. Its pings are not worth keeping. -/
def absorb (side : Side) (w : World) : Effect → World
  | .opened i => { w with accepted := w.accepted + 1, links := w.links ++ [{ side, id := i }] }
  | .wrote i bs .done =>
    let (replies, frames, w) := w.receive bs
    let kept := frames.filter (·.header.type ≠ MessageType.ping.code)
    { w with frames := w.frames ++ kept }.updateLink side i fun l =>
      { l with
        user := l.user <|> loginName? frames
        inbox := l.inbox ++ replies
        isOpen := l.isOpen && !replies.any Delivery.ends }
  | .wrote .. | .took .. => w
  | .closed i => w.updateLink side i fun l => { l with isOpen := false }
  | .noted n => w.note [n]

def absorbAll (w : World) (side : Side) (es : List Effect) : World :=
  es.foldl (absorb side) w

/-! ### Keep-alives -/

/-- An event of a session manager, if it can happen. -/
def event (w : World) (side : Side) (e : Manager.Event) : World :=
  match w.manager.step (w.state side) e with
  | some (s, effects) => (w.withState s side).absorbAll side effects
  | none => w

/-- What has arrived on a connection is read by its keep-alive, as long as it listens. -/
def deliver (side : Side) (i : CallId) (w : World) : List Delivery → World
  | [] => w.updateLink side i fun l => { l with inbox := [] }
  | d :: rest =>
    let listening : Bool := match (w.state side).sessions i with
      | some s => s.keepAlive = .waiting && !s.signalled
      | none => false
    if listening then
      deliver side i ((w.event side (.inbound i d.event)).event side (.keepAlive i)) rest
    else w.updateLink side i fun l => { l with inbox := d :: rest }

/-- All that has arrived for sessions is read. -/
def rest (w : World) : World :=
  w.links.foldl (fun w l =>
    if ((w.state l.side).sessions l.id).isSome then deliver l.side l.id w (w.inbox l.side l.id)
    else w) w

/-! ### Calls to a session manager -/

/-- The bound on the handshake of a session. -/
def handshakeTimeout (w : World) : Nat :=
  w.settings.session.handshakeTimeout.toNat

/-- Takes a call as far as it gets; `held` is whether Core holds back its answers. -/
def follow (w : World) (side : Side) (held : Bool) (i : CallId) (r : Request) : World :=
  let peer := w.peer w.handshakeTimeout
  let waiting := w.inbox side i
  let s := w.state side
  let p := w.manager.advance peer held i (Manager.enough s r peer + waiting.length)
    { state := s, reads := waiting.map (Delivery.within w.handshakeTimeout) }
  let w := (w.withState p.state side).absorbAll side p.effects
  w.updateLink side i fun l => { l with inbox := l.inbox.drop (l.inbox.length - p.reads.length) }

/-- Makes a call without taking it any further. -/
def begin (w : World) (side : Side) (r : Request) : CallId × World :=
  (w.calls, { w with calls := w.calls + 1 }.event side (.call w.calls r))

/-- Makes a call and takes it to its end. -/
def perform (w : World) (side : Side) (r : Request) : CallId × World :=
  let (i, w) := w.begin side r
  (i, (w.follow side false i r).rest)

/-- Sessions given out are numbered from then on. -/
def know (w : World) (x : Option CallId) : World :=
  match x with
  | some i => if w.known.contains i then w else { w with known := w.known ++ [i] }
  | none => w

def create (w : World) (u p : String) : Option CallId × World :=
  let (i, w) := w.perform .manager (.create u p)
  let x := w.sessions.result? i
  (x, w.know x)

def get (w : World) (u : String) : Option CallId × World :=
  let x := w.sessions.liveSession? u
  (x, w.know x)

def remove (w : World) (side : Side) (u : String) : World :=
  (w.perform side (.remove u)).2

def shutdown (w : World) (side : Side) : World :=
  let w := (w.perform side .shutdown).2
  match side with
  | .manager => w
  | .gateway => w.note [.gatewayShutDown]

/-- What is done while Core holds back its answers. -/
inductive Meanwhile where
  | remove (username : String)
  | shutdown
  | has (username : String)
  deriving DecidableEq, Repr

/-- Does it, and gives the answer to a question. -/
def meanwhile (w : World) : Meanwhile → Option Bool × World
  | .remove u => (none, w.remove .manager u)
  | .shutdown => (none, w.shutdown .manager)
  | .has u => (some (w.sessions.hasSession u), w)

/-- What came of logins at the same time. -/
structure Concurrent where
  /-- Whether as many logins as expected waited for their answers. -/
  held : Bool
  meanwhile : List (Option Bool)
  created : List (Option CallId)

/-- Begins logins in order, does other things while Core holds back its answers to them,
and takes each login to its end. -/
def concurrently (w : World) (creates : List (String × String)) (logins : Nat)
    (others : List Meanwhile) : Concurrent × World :=
  let (ids, w) := creates.foldl (fun (ids, w) (u, p) =>
    let r := Request.create u p
    let (i, w) := w.begin .manager r
    (ids ++ [(i, r)], w)) ([], w)
  let w := ids.foldl (fun w (i, r) => w.follow .manager true i r) w
  let count := (w.frames.filter (·.header.type = MessageType.loginRequest.code)).length
  let (answers, w) := others.foldl (fun (answers, w) o =>
    let (a, w) := w.meanwhile o
    (answers ++ [a], w)) ([], w)
  let w := ids.foldl (fun w (i, r) => w.follow .manager false i r) w
  let created := ids.map fun (i, _) => w.sessions.result? i
  ({ held := logins ≤ count, meanwhile := answers, created },
    (created.foldl know w).rest)

/-! ### One-shot requests, presence and the gateway -/

/-- A one-shot request. -/
def request {α : Type} (w : World) (timeout : Nat) (ask : Peer → Answer α) :
    Except CallError α × World :=
  let a := ask (w.peer timeout)
  (a.result, w.actAll a.actions)

/-- Everyone online, with Core's list given or asked for. -/
def presence (w : World) (source : Option (Except CallError (List String))) (timeout : Nat) :
    OnlineUsers × World :=
  let (core, w) := match source with
    | some users => (users, w)
    | none => w.request timeout (w.settings.client.onlineList timeout)
  let (online, notices) := Presence.merge core w.sessions.online
  (online, w.note notices)

def register (w : World) (timeout : Nat) (m : RegisterRequest) :
    Except CallError RegisterResponse × World :=
  let (a, notices) := w.gateway.register timeout m (w.peer timeout)
  (a.result, (w.actAll a.actions).note notices)

def login (w : World) (timeout : Nat) (m : LoginRequest) :
    Except CallError LoginResponse × World :=
  let link (as : List Action) := (w.actAll as).peer w.handshakeTimeout
  let i := w.calls
  let l := w.gateway.login timeout m (w.peer timeout) link w.gatewaySessions i
  let w := { w.actAll l.probe.actions with calls := i + 1 }
  let w := (w.withState l.progress.state .gateway).absorbAll .gateway l.progress.effects
  let w := w.updateLink .gateway i fun l' =>
    { l' with inbox := l'.inbox.drop (l'.inbox.length - l.progress.reads.length) }
  (l.probe.result, w.rest)

def getOnline (w : World) : OnlineUsers × World :=
  let (online, actions, notices) :=
    w.gateway.getOnline (w.peer w.gateway.presenceTimeout) w.gatewaySessions
  (online, (w.actAll actions).note notices)

/-! ### What Core does by itself -/

/-- Core sends to every connection that a user has logged in on. -/
def send (w : World) (u : String) (ds : List Delivery) : World :=
  let links := w.links.map fun l =>
    if l.user = some u ∧ l.isOpen then
      { l with inbox := l.inbox ++ ds, isOpen := !ds.any Delivery.ends }
    else l
  rest { w with links }

/-- Whether a user has a live session on either side. -/
def isLive (w : World) (u : String) : Bool :=
  w.sessions.hasSession u || w.gatewaySessions.hasSession u

/-- The connections that Core has open. -/
def openLinks (w : World) : Nat :=
  (w.links.filter (·.isOpen)).length

/-- One ping on the session of a user, if there is one. -/
def pingOnce (w : World) (side : Side) (u : String) : World :=
  match (w.state side).liveSession? u with
  | none => w
  | some i =>
    let events : List Manager.Event := [.tick i, .keepAlive i, .keepAlive i, .ping i .done]
    rest (events.foldl (fun w e => w.event side e) w)

/-- So many pings on the sessions of a user. -/
def pings (w : World) (u : String) : Nat → World
  | 0 => w
  | n + 1 => ((w.pingOnce .manager u).pingOnce .gateway u).pings u n

end World

end Corelink.Rehearsal
