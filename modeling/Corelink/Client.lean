import Corelink.Connection.Exchange
import Corelink.Wire.Message

/-!
# One-shot requests

Each request opens a connection of its own, writes one frame, waits for one frame and
closes the connection, whatever comes of it; nothing is tried twice. `Peer` is how the
network and Core treat one connection. An `Answer` says what a request gave and what it
did on the network, so that both can be reasoned about.
-/

namespace Corelink

open Wire

/-- How the network and Core treat one connection. -/
structure Peer where
  dial : DialResult
  /-- How the writing of these bytes ends. -/
  write : Bytes → WriteResult
  /-- The reads that follow once these bytes have been written. -/
  reads : Bytes → List ReadResult

/-- What is done on the network. -/
inductive Action where
  | dialled (r : DialResult)
  | wrote (frame : Bytes) (r : WriteResult)
  | closed
  deriving DecidableEq, Repr

structure Answer (α : Type) where
  result : Except CallError α
  actions : List Action := []

namespace Answer

variable {α β : Type}

/-- The answer with its value taken further. -/
def andThen (a : Answer α) (f : α → Except CallError β) : Answer β :=
  { result := a.result.bind f, actions := a.actions }

/-- A failure before anything was done. -/
def failed (e : CallError) : Answer α :=
  { result := .error e }

end Answer

/-- Requests go to Core at this address. -/
structure Client where
  address : String
  deriving DecidableEq, Repr

namespace Client

/-- The exchange on a connection that is open; it ends with the connection closed. -/
def exchange (t : Terms) (request expected : MessageType) (payload : Bytes) (peer : Peer) :
    Answer Bytes :=
  match Frame.encode request payload with
  | .error e => ⟨.error (.validation e), [.dialled .opened, .closed]⟩
  | .ok frame =>
    let wrote := peer.write frame
    let result := do
      t.written wrote
      let (reply, _) ← (receive t {} (peer.reads frame)).1
      replyPayload expected reply
    ⟨result, [.dialled .opened, .wrote frame wrote, .closed]⟩

/-- Sends a payload and gives the payload of the reply. -/
def request (c : Client) (timeout : Nat) (type : MessageType) (payload : Bytes) (peer : Peer) :
    Answer Bytes :=
  match type.response? with
  | none => .failed (.unexpected (type.label ++ " has no response type"))
  | some expected =>
    let t : Terms := ⟨c.address, timeout⟩
    let dial := t.attempt peer.dial
    match t.dialled dial with
    | .error e => ⟨.error e, [.dialled dial]⟩
    | .ok _ => exchange t type expected payload peer

/-- Sends a message, if it can be encoded, and decodes the reply. -/
def ask {α : Type} (c : Client) (timeout : Nat) (type : MessageType)
    (encoded : Except ValidationError Bytes) (decode : Bytes → Except FramingError α)
    (peer : Peer) : Answer α :=
  match encoded with
  | .error e => .failed (.validation e)
  | .ok payload =>
    (c.request timeout type payload peer).andThen fun reply => liftFraming (decode reply)

/-- Registers an account. -/
def register (c : Client) (timeout : Nat) (m : RegisterRequest) (peer : Peer) :
    Answer RegisterResponse :=
  c.ask timeout .registerRequest m.encode RegisterResponse.decode peer

/-- Checks credentials. -/
def login (c : Client) (timeout : Nat) (m : LoginRequest) (peer : Peer) : Answer LoginResponse :=
  c.ask timeout .loginRequest m.encode LoginResponse.decode peer

/-- The users Core considers online, in its order. -/
def onlineList (c : Client) (timeout : Nat) (peer : Peer) : Answer (List String) :=
  (c.ask timeout .onlineListRequest (.ok []) OnlineListResponse.decode peer).andThen fun m =>
    .ok m.usernames

end Client

end Corelink
