import Corelink.Connection.Failure

/-!
# Notices

What is worth telling an operator while sessions come and go. A notice is a value; its
level and wording are functions of it.
-/

namespace Corelink

inductive Level where
  | info
  | warn
  | error
  deriving DecidableEq, Repr

def Level.text : Level → String
  | info => "INFO"
  | warn => "WARN"
  | error => "ERROR"

/-- Why a session's keep-alive gave up. -/
inductive StopReason where
  | pingFailed (e : CallError)
  | coreClosed (e : ProtocolError)
  | badFrame (e : Wire.FramingError)
  | readFailed (e : IoError)
  deriving DecidableEq, Repr

def StopReason.message : StopReason → String
  | pingFailed e => "ping failed: " ++ e.message
  | coreClosed e => "Core closed the connection (" ++ e.message ++ ")"
  | badFrame e => "bad frame from Core: " ++ e.message
  | readFailed e => "read failed: " ++ e.message

inductive Notice where
  | discardingStale (username : String)
  | handshakeFailed (username : String) (e : CallError)
  | loginRejected (username message : String)
  | loginCancelled (username : String)
  | sessionCreated (username : String) (userId : UInt64) (sessions : Nat)
  | sessionRemoved (username : String) (wasLive : Bool) (sessions : Nat)
  | handshakeCancelled (username : String)
  | noSession (username : String)
  | sessionsClosed (count : Nat)
  | closeFailed (username : String) (e : IoError)
  | keepAliveStopped (username : String) (why : StopReason)
  | coreUnreachable (e : ConnectionError)
  | coreListFailed (e : CallError)
  | onlineList (total fromCore fromSessions : Nat)
  | gatewayReady (address : String)
  | registered (username email : String)
  | registrationRefused (username message : String)
  | loginFailed (username message : String)
  | loginAccepted (username : String) (userId : UInt64)
  | loginWithoutSession (username : String)
  | gatewayShutDown
  deriving DecidableEq, Repr

namespace Notice

def level : Notice → Level
  | handshakeFailed .. | coreListFailed _ => .error
  | loginRejected .. | noSession _ | closeFailed .. | keepAliveStopped .. | coreUnreachable _
  | registrationRefused .. | loginFailed .. | loginWithoutSession _ => .warn
  | _ => .info

def message : Notice → String
  | discardingStale u => "Discarding stale session for " ++ u
  | handshakeFailed u e => "Session for " ++ u ++ " could not be established: " ++ e.message
  | loginRejected u text => "Login rejected for " ++ u ++ ": " ++ text
  | loginCancelled u =>
    "Logout for " ++ u ++ " arrived during login, discarding new session"
  | sessionCreated u id n =>
    "Session created for " ++ u ++ s!" (user_id={id.toNat}, sessions={n})"
  | sessionRemoved u wasLive n =>
    "Session removed for " ++ u ++ s!" (was_live={wasLive}, sessions={n})"
  | handshakeCancelled u => "Cancelled in-flight login for " ++ u
  | noSession u => "No session to remove for " ++ u
  | sessionsClosed n => s!"Session manager shut down ({n} sessions closed)"
  | closeFailed u e => "Error closing session socket for " ++ u ++ ": " ++ e.message
  | keepAliveStopped u why => "Keep-alive for " ++ u ++ " stopped: " ++ why.message
  | coreUnreachable e =>
    "Core unreachable for online list, using local sessions: " ++ e.message
  | coreListFailed e => "Core online list failed, using local sessions: " ++ e.message
  | onlineList n core own => s!"Online list: {n} users (core={core}, local={own})"
  | gatewayReady address => "Gateway ready for Core at " ++ address
  | registered u email => "Registered " ++ u ++ " <" ++ email ++ ">"
  | registrationRefused u text => "Registration refused for " ++ u ++ ": " ++ text
  | loginFailed u text => "Login failed for " ++ u ++ ": " ++ text
  | loginAccepted u id => "Login accepted for " ++ u ++ s!" (user_id={id.toNat})"
  | loginWithoutSession u =>
    "Login for " ++ u ++ " succeeded but no persistent session was created"
  | gatewayShutDown => "Gateway shut down"

/-- Level and wording, as a line of a log. -/
def line (n : Notice) : String :=
  n.level.text ++ " " ++ n.message

end Notice

end Corelink
