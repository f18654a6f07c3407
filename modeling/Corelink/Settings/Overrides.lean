import Corelink.Port
import Corelink.Settings.Files
import Corelink.Text.Blank

/-!
# Overrides

Host and port of Core can be given from outside. They are applied on top of whatever
settings were loaded: the host first, then the port if it is one, so that a bad port
keeps the new host and the old port.
-/

namespace Corelink

structure Overrides where
  host : Option String := none
  port : Option String := none
  deriving DecidableEq, Repr

namespace Overrides

def hostVariable : String := "FSX_CORE_TCP_HOST"

def portVariable : String := "FSX_CORE_TCP_PORT"

/-- The port that a text spells, blanks at both ends aside. -/
def port? (s : String) : Option UInt16 :=
  Port.ofChars? (Text.trim s.toList)

def applyHost (o : Overrides) (s : Settings) : Settings :=
  match o.host with
  | some h => { s with core := { s.core with host := h } }
  | none => s

def applyPort (o : Overrides) (s : Settings) : Except SettingsError Unit × Settings :=
  match o.port with
  | none => (.ok (), s)
  | some text =>
    match port? text with
    | some p => (.ok (), { s with core := { s.core with port := p } })
    | none => (.error (.badOverride portVariable text), s)

/-- The overridden settings, also where the port is refused. -/
def apply (o : Overrides) (s : Settings) : Except SettingsError Unit × Settings :=
  o.applyPort (o.applyHost s)

end Overrides

end Corelink
