import Corelink.Wire.Field

/-!
# Messages

The payloads of the five messages that carry fields. Each `encode` writes the fields in
wire order and fails at the first one that does not fit; each `decode` reads exactly one
payload and fails if bytes are missing or left over.
-/

namespace Corelink.Wire

/-! ### Register -/

structure RegisterRequest where
  username : String
  email : String
  password : String
  deriving DecidableEq, Repr

namespace RegisterRequest

def encode (m : RegisterRequest) : Except ValidationError Bytes := do
  let username ← Field.text "username" m.username
  let email ← Field.text "email" m.email
  let password ← Field.text "password" m.password
  return username ++ email ++ password

def reader : Reader RegisterRequest := do
  let username ← Reader.text "username"
  let email ← Reader.text "email"
  let password ← Reader.text "password"
  return { username, email, password }

def decode (p : Bytes) : Except FramingError RegisterRequest :=
  reader.decode p

end RegisterRequest

structure RegisterResponse where
  ok : Bool
  message : String
  deriving DecidableEq, Repr

namespace RegisterResponse

def encode (m : RegisterResponse) : Except ValidationError Bytes := do
  let message ← Field.text "message" m.message
  return (if m.ok then 1 else 0) :: message

def reader : Reader RegisterResponse := do
  let ok ← Reader.u8 "ok"
  let message ← Reader.text "message"
  return { ok := ok != 0, message }

def decode (p : Bytes) : Except FramingError RegisterResponse :=
  reader.decode p

end RegisterResponse

/-! ### Login -/

structure LoginRequest where
  username : String
  password : String
  deriving DecidableEq, Repr

namespace LoginRequest

def encode (m : LoginRequest) : Except ValidationError Bytes := do
  let username ← Field.text "username" m.username
  let password ← Field.text "password" m.password
  return username ++ password

def reader : Reader LoginRequest := do
  let username ← Reader.text "username"
  let password ← Reader.text "password"
  return { username, password }

def decode (p : Bytes) : Except FramingError LoginRequest :=
  reader.decode p

end LoginRequest

/-- The answer to a login. Only an accepted one carries token, user id and username. -/
structure LoginResponse where
  ok : Bool
  token : String
  userId : UInt64
  username : String
  message : String
  deriving DecidableEq, Repr

namespace LoginResponse

def accepted (token : String) (userId : UInt64) (username message : String) : LoginResponse :=
  { ok := true, token, userId, username, message }

def rejected (message : String) : LoginResponse :=
  { ok := false, token := "", userId := 0, username := "", message }

/-- The fields between `ok` and the message. -/
def encodeGrant (m : LoginResponse) : Except ValidationError Bytes := do
  let token ← Field.text "token" m.token
  let username ← Field.text "username" m.username
  return token ++ BigEndian.ofNat 8 m.userId.toNat ++ username

def encode (m : LoginResponse) : Except ValidationError Bytes := do
  let grant ← if m.ok then m.encodeGrant else .ok []
  let message ← Field.text "message" m.message
  return (if m.ok then 1 else 0) :: grant ++ message

def reader : Reader LoginResponse := do
  let ok ← Reader.u8 "ok"
  if ok != 0 then
    let token ← Reader.text "token"
    let userId ← Reader.u64 "user_id"
    let username ← Reader.text "username"
    let message ← Reader.text "message"
    return accepted token userId username message
  else
    let message ← Reader.text "message"
    return rejected message

def decode (p : Bytes) : Except FramingError LoginResponse :=
  reader.decode p

end LoginResponse

/-! ### Online list -/

structure OnlineListResponse where
  usernames : List String
  deriving DecidableEq, Repr

namespace OnlineListResponse

/-- The names one after another. -/
def encodeNames : List String → Except ValidationError Bytes
  | [] => .ok []
  | s :: rest => do
    let name ← Field.text "username" s
    let names ← encodeNames rest
    return name ++ names

/-- The number of names is checked before any name. -/
def encode (m : OnlineListResponse) : Except ValidationError Bytes :=
  if m.usernames.length > maxFieldSize then
    .error (.fieldTooLong "usernames" m.usernames.length)
  else do
    let names ← encodeNames m.usernames
    return BigEndian.ofNat 2 m.usernames.length ++ names

def reader : Reader OnlineListResponse := do
  let count ← Reader.u16 "count"
  let usernames ← Reader.textList "username" count.toNat
  return { usernames }

def decode (p : Bytes) : Except FramingError OnlineListResponse :=
  reader.decode p

end OnlineListResponse

end Corelink.Wire
