import Corelink.Text.Duration
import Corelink.Wire.Frame

/-!
# Failures of calls

Why a call to Core did not give a value: the connection failed, Core did not keep to the
protocol, the request could not be written in the wire format, or something else went
wrong. Callers may fall back on what they know locally when the connection failed, so
this case is set apart by `CallError.isConnection`.
-/

namespace Corelink

open Wire

/-- What the operating system says when it cannot do its part. -/
inductive IoError where
  | refused
  | reset
  | aborted
  | notConnected
  | brokenPipe
  | timedOut
  | unexpectedEnd
  | addressNotAvailable
  | unreachable
  | invalidAddress
  | invalidPort
  | other (text : String)
  deriving DecidableEq, Repr

namespace IoError

def message : IoError → String
  | refused => "Connection refused (os error 111)"
  | reset => "Connection reset by peer (os error 104)"
  | aborted => "Software caused connection abort (os error 103)"
  | notConnected => "Transport endpoint is not connected (os error 107)"
  | brokenPipe => "Broken pipe (os error 32)"
  | timedOut => "Connection timed out (os error 110)"
  | unexpectedEnd => "unexpected end of file"
  | addressNotAvailable => "Cannot assign requested address (os error 99)"
  | unreachable => "Network is unreachable (os error 101)"
  | invalidAddress => "invalid socket address"
  | invalidPort => "invalid port value"
  | other text => text

/-- Whether it means, on an open connection, that the connection is lost. -/
def losesConnection : IoError → Bool
  | refused | reset | aborted | notConnected | brokenPipe | timedOut | unexpectedEnd
  | addressNotAvailable => true
  | unreachable | invalidAddress | invalidPort | other _ => false

end IoError

/-- The operations on a connection that are bounded in time. -/
inductive Operation where
  | connecting
  | writing
  | reading
  deriving DecidableEq, Repr

def Operation.text : Operation → String
  | connecting => "connecting to"
  | writing => "writing to"
  | reading => "reading from"

inductive ConnectionError where
  | connect (address : String) (cause : IoError)
  /-- An operation took longer than `after` milliseconds. -/
  | timeout (address : String) (operation : Operation) (after : Nat)
  | broken (cause : IoError)
  | closed
  deriving DecidableEq, Repr

def ConnectionError.message : ConnectionError → String
  | connect address cause => s!"Cannot connect to Core at {address}: " ++ cause.message
  | timeout address operation after =>
    "Timeout " ++ operation.text ++ " " ++ address ++ " after " ++ Text.duration after
  | broken cause => "IO error: " ++ cause.message
  | closed => "Connection closed"

/-- The two parts of a frame. -/
inductive FramePart where
  | header
  | payload
  deriving DecidableEq, Repr

def FramePart.text : FramePart → String
  | header => "header"
  | payload => "payload"

inductive ProtocolError where
  | framing (e : FramingError)
  | unexpectedType (expected : MessageType) (got : UInt8)
  /-- The stream ended inside a frame, or before one. -/
  | incomplete (part : FramePart) (expected received : Nat)
  deriving DecidableEq, Repr

def ProtocolError.message : ProtocolError → String
  | framing e => "Framing error: " ++ e.message
  | unexpectedType expected got =>
    s!"Unexpected message type: {got.toNat} (expected " ++ expected.label ++ ")"
  | incomplete part expected received =>
    "Incomplete " ++ part.text ++ s!": received {received} of {expected} bytes"

inductive CallError where
  | connection (e : ConnectionError)
  | protocol (e : ProtocolError)
  | validation (e : ValidationError)
  | unexpected (text : String)
  deriving DecidableEq, Repr

namespace CallError

def message : CallError → String
  | connection e => "Connection error: " ++ e.message
  | protocol e => "Protocol error: " ++ e.message
  | validation e => "Validation error: " ++ e.message
  | unexpected text => "Unexpected error: " ++ text

/-- Whether Core could not be reached, or not for long enough. -/
def isConnection : CallError → Bool
  | connection _ => true
  | _ => false

/-- An I/O failure on an open connection. -/
def ofIo (e : IoError) : CallError :=
  if e.losesConnection then .connection (.broken e) else .unexpected e.message

def ofFraming (e : FramingError) : CallError :=
  .protocol (.framing e)

end CallError

/-- A reading whose failure is one of framing. -/
def liftFraming {α : Type} : Except FramingError α → Except CallError α
  | .ok a => .ok a
  | .error e => .error (.ofFraming e)

end Corelink
