import Corelink.Presence
import Corelink.Session.Alone

/-!
# The gateway

What front ends are offered, made of one-shot requests, the session manager and presence,
all set up from one `Settings`. A login asks Core twice: a probe on a connection of its
own, whose answer is the answer to the front end, and then the login of the session that
stays.
-/

namespace Corelink

open Wire

structure Gateway where
  client : Client
  sessions : Manager
  /-- The bound on one-shot requests, in milliseconds. -/
  requestTimeout : Nat
  /-- The bound on asking Core for its list, in milliseconds. -/
  presenceTimeout : Nat

/-- The session manager of these settings. -/
def Settings.manager (s : Settings) : Manager :=
  { address := s.core.address, settings := s.session }

/-- The one-shot client of these settings. -/
def Settings.client (s : Settings) : Client :=
  { address := s.core.address }

/-- The gateway of these settings. -/
def Settings.gateway (s : Settings) : Gateway :=
  { client := s.client
    sessions := s.manager
    requestTimeout := s.core.requestTimeout.toNat
    presenceTimeout := s.presence.coreTimeout.toNat }

namespace Gateway

/-- What setting up a gateway is announced with. -/
def ready (g : Gateway) : Notice :=
  .gatewayReady g.client.address

/-- The notice that goes with the answer to a registration. -/
def registerNotices (username email : String) (a : Answer RegisterResponse) : List Notice :=
  match a.result with
  | .ok r =>
    if r.ok then [.registered username email] else [.registrationRefused username r.message]
  | .error _ => []

def register (g : Gateway) (timeout : Nat) (m : RegisterRequest) (peer : Peer) :
    Answer RegisterResponse × List Notice :=
  let a := g.client.register timeout m peer
  (a, registerNotices m.username m.email a)

/-- What a login comes to. -/
structure Login where
  /-- Core's answer to the probe. -/
  probe : Answer LoginResponse
  /-- What became of the sessions. -/
  progress : Manager.Progress

/-- Adds the notice that there is no session, if call `i` gave none. -/
def noteMissing (username : String) (i : CallId) (p : Manager.Progress) : Manager.Progress :=
  if (p.state.result? i).isSome then p
  else { p with effects := p.effects ++ [.noted (.loginWithoutSession username)] }

/-- What follows the probe: the session, if Core has accepted. -/
def follow (g : Gateway) (probe : Answer LoginResponse) (m : LoginRequest) (link : Peer)
    (s : Manager.State) (i : CallId) : Manager.Progress :=
  match probe.result with
  | .error _ => { state := s }
  | .ok r =>
    if r.ok then
      let p := g.sessions.complete s i (.create m.username m.password) link
      let accepted := Effect.noted (.loginAccepted m.username r.userId)
      noteMissing m.username i { p with effects := accepted :: p.effects }
    else { state := s, effects := [.noted (.loginFailed m.username r.message)] }

/-- A login with no other call going on. `link` is how the connection of the session is
treated, given what was done for the probe. -/
def login (g : Gateway) (timeout : Nat) (m : LoginRequest) (peer : Peer)
    (link : List Action → Peer) (s : Manager.State) (i : CallId) : Login :=
  let probe := g.client.login timeout m peer
  { probe, progress := g.follow probe m (link probe.actions) s i }

/-- Everyone online, as far as Core and the sessions tell. -/
def getOnline (g : Gateway) (peer : Peer) (s : Manager.State) :
    OnlineUsers × List Action × List Notice :=
  let core := g.client.onlineList g.presenceTimeout peer
  let (online, notices) := Presence.merge core.result s.online
  (online, core.actions, notices)

end Gateway

end Corelink
