import Corelink.Client
import Corelink.Directory
import Corelink.Wire.Message

/-!
# A Core that follows a script

For rehearsals without a Core. The script says how connections are treated and, for each
type of request, which replies are given one after another; the last one of a list is
given from then on. The reply `auto` is what a plain Core would do: it knows one password
and counts the logins of each user.
-/

namespace Corelink.Rehearsal

open Wire

/-- What follows a request. -/
inductive Reply where
  | auto
  | silent
  | close
  | reset
  | frame (type : UInt8) (payload : Bytes)
  | raw (bytes : Bytes) (close : Bool)
  /-- Pieces with `delay` milliseconds between them. -/
  | pieces (pieces : List Bytes) (delay : Nat) (close : Bool)
  deriving DecidableEq, Repr

/-- How connections are treated. -/
inductive Mode where
  | serve
  | down
  /-- Connections are accepted, but nothing is ever read from them. -/
  | deaf
  /-- No connection is ever completed. -/
  | full
  deriving DecidableEq, Repr

structure Script where
  mode : Mode := .serve
  online : List String := []
  login : List Reply := []
  register : List Reply := []
  list : List Reply := []
  ping : List Reply := []
  other : List Reply := []
  deriving DecidableEq, Repr

namespace Script

/-- The replies to requests of this type. -/
def replies (s : Script) (type : UInt8) : List Reply :=
  match MessageType.ofCode? type with
  | some .loginRequest => s.login
  | some .registerRequest => s.register
  | some .onlineListRequest => s.list
  | some .ping => s.ping
  | _ => s.other

def withReplies (s : Script) (type : UInt8) (rs : List Reply) : Script :=
  match MessageType.ofCode? type with
  | some .loginRequest => { s with login := rs }
  | some .registerRequest => { s with register := rs }
  | some .onlineListRequest => { s with list := rs }
  | some .ping => { s with ping := rs }
  | _ => { s with other := rs }

end Script

/-! ### Deliveries -/

/-- Something that arrives so many milliseconds after what came before it. -/
structure Delivery where
  gap : Nat
  event : ReadResult
  deriving DecidableEq, Repr

namespace Delivery

/-- What a read bounded by `timeout` gives. -/
def within (timeout : Nat) (d : Delivery) : ReadResult :=
  if d.gap < timeout then d.event else .timedOut

/-- Pieces, the first one after `gap`; a piece without bytes only takes its time. -/
def ofPieces (delay : Nat) : Nat → List Bytes → List Delivery
  | _, [] => []
  | gap, [] :: rest => ofPieces delay (gap + delay) rest
  | gap, (b :: bs) :: rest => ⟨gap, .bytes b bs⟩ :: ofPieces delay delay rest

/-- Whether the connection ends with it. -/
def ends (d : Delivery) : Bool :=
  match d.event with
  | .bytes .. | .timedOut => false
  | .closed | .failed _ => true

end Delivery

/-- Pieces and, if so said, the end of the connection. -/
def deliveries (pieces : List Bytes) (delay : Nat) (close : Bool) : List Delivery :=
  Delivery.ofPieces delay 0 pieces ++ if close then [⟨0, .closed⟩] else []

/-! ### The scripted Core -/

structure Core where
  script : Script := {}
  listening : Bool := true
  /-- How many logins of each user have been accepted. -/
  logins : Directory Nat := .empty

namespace Core

/-- The password that opens every account. -/
def password : String := "secret"

/-- The username that is taken already. -/
def takenName : String := "taken"

def acceptLogin (c : Core) (u : String) : LoginResponse × Core :=
  let n := (c.logins.get? u).getD 0 + 1
  (.accepted s!"T{n}" (UInt64.ofNat (41 + n)) u "Login successful",
    { c with logins := c.logins.insert u n })

/-- A frame with this payload, if both can be written. -/
def encodeReply (type : MessageType) (payload : Except ValidationError Bytes) : List Bytes :=
  match payload >>= Frame.encode type with
  | .ok bs => [bs]
  | .error _ => []

/-- The plain answer to a request: nothing, or one frame. -/
def answer (c : Core) (f : Frame) : List Bytes × Core :=
  match f.header.messageType? with
  | some .loginRequest =>
    match LoginRequest.decode f.payload with
    | .error _ => ([], c)
    | .ok m =>
      let (response, c) :=
        if m.password = password then c.acceptLogin m.username
        else (.rejected "Invalid username or password", c)
      (encodeReply .loginResponse response.encode, c)
  | some .registerRequest =>
    match RegisterRequest.decode f.payload with
    | .error _ => ([], c)
    | .ok m =>
      let response : RegisterResponse :=
        if m.username = takenName then ⟨false, "Username already taken"⟩ else ⟨true, ""⟩
      (encodeReply .registerResponse response.encode, c)
  | some .onlineListRequest =>
    (encodeReply .onlineListResponse (OnlineListResponse.mk c.script.online).encode, c)
  | some .ping => (encodeReply .pong (.ok f.payload), c)
  | _ => ([], c)

/-- What follows a request by one reply of the script. -/
def reply (c : Core) (f : Frame) : Reply → List Delivery × Core
  | .auto =>
    let (frames, c) := c.answer f
    (deliveries frames 0 false, c)
  | .silent => ([], c)
  | .close => (deliveries [] 0 true, c)
  | .reset => ([⟨0, .failed .reset⟩], c)
  | .frame type payload =>
    let header : Header := ⟨type, UInt32.ofNat payload.length⟩
    (deliveries [header.bytes ++ payload] 0 false, c)
  | .raw bytes close => (deliveries [bytes] 0 close, c)
  | .pieces pieces delay close => (deliveries pieces delay close, c)

/-- The next reply to requests of this type; the last one of a list stays. -/
def nextReply (c : Core) (type : UInt8) : Reply × Core :=
  match c.script.replies type with
  | [] => (.auto, c)
  | [r] => (r, c)
  | r :: rest => (r, { c with script := c.script.withReplies type rest })

/-- What follows one frame. -/
def receive (c : Core) (f : Frame) : List Delivery × Core :=
  let (r, c) := c.nextReply f.header.type
  c.reply f r

/-- The frames in bytes that have been written, if they are read at all. -/
def framesOf (c : Core) (written : Bytes) : List Frame :=
  if c.script.mode = .deaf then [] else (Parse.run UInt32.size written).frames

/-- What follows frames one after another. -/
def receiveAll (c : Core) : List Frame → List Delivery × Core
  | [] => ([], c)
  | f :: fs =>
    let (now, c) := c.receive f
    let (later, c) := c.receiveAll fs
    (now ++ later, c)

/-- Bytes that fit between two ends when nothing is read. -/
def room : Nat := 8 * 1024 * 1024

/-- How one connection is treated, with reads bounded by `timeout`. -/
def peer (c : Core) (timeout : Nat) : Peer :=
  { dial :=
      if !c.listening then .failed .refused
      else
        match c.script.mode with
        | .down => .failed .refused
        | .full => .timedOut
        | .serve | .deaf => .opened
    write := fun bs =>
      if c.script.mode = .deaf && !bs.shorterThan (room + 1) then .timedOut else .done
    reads := fun bs => (c.receiveAll (c.framesOf bs)).1.map (Delivery.within timeout) }

end Core

end Corelink.Rehearsal
