import Corelink.Notice
import Corelink.OnlineUsers

/-!
# Presence

Who is online: the users Core lists together with the users who have a live session here.
If Core's list is not to be had, the live sessions alone, and a notice says why.
-/

namespace Corelink.Presence

/-- The notice that Core's list is missing. -/
def missing : CallError → Notice
  | .connection e => .coreUnreachable e
  | e => .coreListFailed e

/-- Everyone online, with the notice to give. -/
def merge (core : Except CallError (List String)) (live : List String) : OnlineUsers × List Notice :=
  match core with
  | .ok users =>
    let all := OnlineUsers.ofList (users ++ live)
    (all, [.onlineList all.count users.length live.length])
  | .error e => (OnlineUsers.ofList live, [missing e])

end Corelink.Presence
