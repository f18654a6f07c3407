import Corelink.Wire.Header

/-!
# Settings

Everything an operator can set, with the values in force when nothing is said. Times are
in milliseconds.
-/

namespace Corelink

structure GeneralSettings where
  verbose : Bool := false
  logFilter : Option String := none
  deriving DecidableEq, Repr

structure CoreSettings where
  host : String := "127.0.0.1"
  port : UInt16 := Wire.defaultPort
  requestTimeout : UInt64 := 2000
  deriving DecidableEq, Repr

structure SessionSettings where
  handshakeTimeout : UInt64 := 5000
  keepAliveInterval : UInt64 := 5000
  sendTimeout : UInt64 := 5000
  deriving DecidableEq, Repr

structure PresenceSettings where
  coreTimeout : UInt64 := 2000
  deriving DecidableEq, Repr

structure Settings where
  general : GeneralSettings := {}
  core : CoreSettings := {}
  session : SessionSettings := {}
  presence : PresenceSettings := {}
  deriving DecidableEq, Repr

/-- Host and port of Core, with a colon between. -/
def CoreSettings.address (c : CoreSettings) : String :=
  c.host ++ ":" ++ toString c.port.toNat

/-- The interval between pings, which is never zero. -/
def SessionSettings.keepAlive (s : SessionSettings) : UInt64 :=
  max s.keepAliveInterval 1

/-- The example shown to operators who ask for one. -/
def Settings.sample : Settings :=
  { general := { logFilter := some "fsx_bridge=info" }, core := { host := "core.internal" } }

end Corelink
