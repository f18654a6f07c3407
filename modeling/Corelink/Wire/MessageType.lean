/-!
# Message types

The eight kinds of message, their codes on the wire, and the reply each request is owed.
Codes outside this list are legal on the wire; they are reported, never guessed at.
-/

namespace Corelink.Wire

inductive MessageType where
  | ping
  | pong
  | registerRequest
  | registerResponse
  | loginRequest
  | loginResponse
  | onlineListRequest
  | onlineListResponse
  deriving DecidableEq, Repr

namespace MessageType

def code : MessageType → UInt8
  | ping => 2
  | pong => 3
  | registerRequest => 10
  | registerResponse => 11
  | loginRequest => 12
  | loginResponse => 13
  | onlineListRequest => 20
  | onlineListResponse => 21

def all : List MessageType :=
  [ping, pong, registerRequest, registerResponse, loginRequest, loginResponse,
    onlineListRequest, onlineListResponse]

/-- The type with this code, if it is a known one. -/
def ofCode? (c : UInt8) : Option MessageType :=
  all.find? (·.code = c)

def name : MessageType → String
  | ping => "PING"
  | pong => "PONG"
  | registerRequest => "REGISTER_REQ"
  | registerResponse => "REGISTER_RESP"
  | loginRequest => "LOGIN_REQ"
  | loginResponse => "LOGIN_RESP"
  | onlineListRequest => "ONLINE_LIST_REQ"
  | onlineListResponse => "ONLINE_LIST_RESP"

/-- Name and code, as messages show a type. -/
def label (t : MessageType) : String :=
  t.name ++ "(" ++ toString t.code.toNat ++ ")"

/-- The type of the answer to a request; only requests have one. -/
def response? : MessageType → Option MessageType
  | ping => some pong
  | registerRequest => some registerResponse
  | loginRequest => some loginResponse
  | onlineListRequest => some onlineListResponse
  | _ => none

@[simp] theorem ofCode?_code (t : MessageType) : ofCode? t.code = some t := by
  cases t <;> rfl

theorem code_of_ofCode? {c : UInt8} {t : MessageType} (h : ofCode? c = some t) : t.code = c := by
  have := List.find?_some h
  simpa using this

end MessageType

end Corelink.Wire
