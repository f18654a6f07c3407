import Corelink.Json.Reading
import Corelink.OnlineUsers
import Corelink.Wire.Message

/-!
# Outcomes as JSON

The three records that front ends are answered with: the answers to a registration and to
a login, and the users online. Each is written with its fields in declaration order and
read back from an object or from an array of exactly its fields.
-/

namespace Corelink

open Json (Value Document)

/-- The greatest 64-bit word. -/
def maxWord64 : Nat :=
  UInt64.size - 1

namespace Wire

namespace RegisterResponse

def toJson (m : RegisterResponse) : Value :=
  .object [("ok", .bool m.ok), ("message", .text m.message)]

def fields : List (Field Document Json.Error RegisterResponse) :=
  [.required "ok" Document.asBool fun b m => { m with ok := b },
    .required "message" Document.asText fun s m => { m with message := s }]

def ofJson (s : String) : Except Json.Error RegisterResponse :=
  Json.parse (fun d => d.asRecord fields ⟨false, ""⟩) s

end RegisterResponse

namespace LoginResponse

def toJson (m : LoginResponse) : Value :=
  .object [("ok", .bool m.ok), ("token", .text m.token),
    ("user_id", .number (.ofNat m.userId.toNat)), ("username", .text m.username),
    ("message", .text m.message)]

def fields : List (Field Document Json.Error LoginResponse) :=
  [.required "ok" Document.asBool fun b m => { m with ok := b },
    .required "token" Document.asText fun s m => { m with token := s },
    .required "user_id" (Document.asWord maxWord64) fun n m => { m with userId := UInt64.ofNat n },
    .required "username" Document.asText fun s m => { m with username := s },
    .required "message" Document.asText fun s m => { m with message := s }]

def ofJson (s : String) : Except Json.Error LoginResponse :=
  Json.parse (fun d => d.asRecord fields (rejected "")) s

end LoginResponse

end Wire

namespace OnlineUsers

def toJson (u : OnlineUsers) : Value :=
  .object [("count", .number (.ofNat u.count)), ("usernames", .array (u.usernames.map .text))]

def fields : List (Field Document Json.Error OnlineUsers) :=
  [.required "count" (Document.asWord maxWord64) fun n u => { u with count := n },
    .required "usernames" Document.asTexts fun ss u => { u with usernames := ss }]

def ofJson (s : String) : Except Json.Error OnlineUsers :=
  Json.parse (fun d => d.asRecord fields ⟨0, []⟩) s

end OnlineUsers

end Corelink
