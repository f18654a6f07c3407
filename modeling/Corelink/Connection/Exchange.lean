import Corelink.Connection.Address

/-!
# Exchanges

One connection, seen from the side that opened it: it is dialled, a frame is written, and
reads give bytes, the end of the stream, a failure, or nothing in time. `Wait` is where
the wait for a frame stands; `receive` waits through a list of reads and leaves those it
did not need.
-/

namespace Corelink

open Wire

/-- How an attempt to connect ends. -/
inductive DialResult where
  | opened
  | failed (e : IoError)
  | timedOut
  deriving DecidableEq, Repr

/-- How the writing of a frame ends. -/
inductive WriteResult where
  | done
  | failed (e : IoError)
  | timedOut
  deriving DecidableEq, Repr

/-- How one read ends. A read that gives bytes gives at least one. -/
inductive ReadResult where
  | bytes (first : UInt8) (more : Bytes)
  | closed
  | failed (e : IoError)
  | timedOut
  deriving DecidableEq, Repr

/-- The address a connection goes to, and the bound on each operation in milliseconds. -/
structure Terms where
  address : String
  timeout : Nat
  deriving DecidableEq, Repr

namespace Terms

def timedOut (t : Terms) (op : Operation) : CallError :=
  .connection (.timeout t.address op t.timeout)

/-- How an attempt to connect ends, given how the network would treat it: an address that
is none fails by itself. -/
def attempt (t : Terms) (network : DialResult) : DialResult :=
  match Address.fault? t.address with
  | some e => .failed e
  | none => network

/-- What an attempt to connect comes to. -/
def dialled (t : Terms) : DialResult → Except CallError Unit
  | .opened => .ok ()
  | .failed e => .error (.connection (.connect t.address e))
  | .timedOut => .error (t.timedOut .connecting)

/-- What a write comes to. -/
def written (t : Terms) : WriteResult → Except CallError Unit
  | .done => .ok ()
  | .failed e => .error (.ofIo e)
  | .timedOut => .error (t.timedOut .writing)

end Terms

/-! ### Waiting for a frame -/

/-- What was missing when the stream ended. -/
def Wire.Receiver.shortfall (r : Receiver) : ProtocolError :=
  match r.decoder.pendingPayload with
  | some n => .incomplete .payload n r.buffer.length
  | none => .incomplete .header headerSize r.buffer.length

/-- Where the wait for one frame stands. -/
inductive Wait where
  | frame (f : Frame) (r : Receiver)
  | failed (e : CallError)
  | more (r : Receiver)
  deriving DecidableEq, Repr

namespace Wait

/-- A look at what has been received. -/
def look (r : Receiver) : Wait :=
  match r.next with
  | (.ok (some f), r) => .frame f r
  | (.ok none, r) => .more r
  | (.error e, _) => .failed (.ofFraming e)

/-- A read, then a look. -/
def read (t : Terms) (r : Receiver) : ReadResult → Wait
  | .bytes b bs => look (r.fill (b :: bs))
  | .closed => .failed (.protocol r.shortfall)
  | .failed e => .failed (.ofIo e)
  | .timedOut => .failed (t.timedOut .reading)

/-- Reads until there is a frame or a failure. No read in the list means no bytes ever. -/
def run (t : Terms) : Wait → List ReadResult → Except CallError (Frame × Receiver) × List ReadResult
  | .frame f r, rest => (.ok (f, r), rest)
  | .failed e, rest => (.error e, rest)
  | .more _, [] => (.error (t.timedOut .reading), [])
  | .more r, a :: rest => run t (read t r a) rest

end Wait

/-- Waits for one frame, and says which reads were not needed. -/
def receive (t : Terms) (r : Receiver) (reads : List ReadResult) :
    Except CallError (Frame × Receiver) × List ReadResult :=
  (Wait.look r).run t reads

/-- The payload of a frame of the expected type. -/
def replyPayload (expected : MessageType) (f : Frame) : Except CallError Bytes :=
  if f.header.type = expected.code then .ok f.payload
  else .error (.protocol (.unexpectedType expected f.header.type))

end Corelink
