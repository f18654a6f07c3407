import Corelink.Json.Reading
import Corelink.Settings.Basic
import Corelink.Toml.Printer
import Corelink.Toml.Reading

/-!
# Settings as documents

Settings are read from TOML and from JSON by the same fields: whatever a document leaves
out keeps its default, unknown keys are stepped over, and a section may be written as the
list of its values. They are written as TOML, where the printer may refuse a number, and
as JSON.
-/

namespace Corelink

open Json (Value)

variable {δ ε : Type}

/-- A field that holds a 64-bit word. -/
def wordField {σ : Type} (F : Format δ ε) (name : String) (set : UInt64 → σ → σ) : Field δ ε σ :=
  .withDefault name (F.word (UInt64.size - 1)) fun n => set (UInt64.ofNat n)

namespace GeneralSettings

def fields (F : Format δ ε) : List (Field δ ε GeneralSettings) :=
  [.withDefault "verbose" F.bool fun b s => { s with verbose := b },
    .byName "log_filter" F.optionalText fun t s => { s with logFilter := t }]

end GeneralSettings

namespace CoreSettings

def fields (F : Format δ ε) : List (Field δ ε CoreSettings) :=
  [.withDefault "host" F.text fun t s => { s with host := t },
    .withDefault "port" (F.word (UInt16.size - 1)) fun n s => { s with port := UInt16.ofNat n },
    wordField F "request_timeout_ms" fun n s => { s with requestTimeout := n }]

end CoreSettings

namespace SessionSettings

def fields (F : Format δ ε) : List (Field δ ε SessionSettings) :=
  [wordField F "handshake_timeout_ms" fun n s => { s with handshakeTimeout := n },
    wordField F "keepalive_interval_ms" fun n s => { s with keepAliveInterval := n },
    wordField F "send_timeout_ms" fun n s => { s with sendTimeout := n }]

end SessionSettings

namespace PresenceSettings

def fields (F : Format δ ε) : List (Field δ ε PresenceSettings) :=
  [wordField F "core_timeout_ms" fun n s => { s with coreTimeout := n }]

end PresenceSettings

namespace Settings

def fields (F : Format δ ε) : List (Field δ ε Settings) :=
  [.inner "general" F (GeneralSettings.fields F) general fun g s => { s with general := g },
    .inner "core" F (CoreSettings.fields F) core fun c s => { s with core := c },
    .inner "session" F (SessionSettings.fields F) session fun t s => { s with session := t },
    .inner "presence" F (PresenceSettings.fields F) presence fun p s => { s with presence := p }]

/-- The settings of a document. -/
def read (F : Format δ ε) (d : δ) : Except ε Settings :=
  F.record (fields F) d {}

def ofJson (s : String) : Except Json.Error Settings :=
  Json.parse (read Json.Document.format) s

/-- The settings of a TOML text, if it is one. -/
def ofToml? (s : String) : Option Settings := do
  let root ← Toml.parse s
  (read Toml.Value.format (.table .header root)).toOption

/-! ### Writing -/

def sections (s : Settings) : List Toml.Section :=
  let filter := match s.general.logFilter with
    | some t => [("log_filter", .text t)]
    | none => []
  [⟨"general", ("verbose", .bool s.general.verbose) :: filter⟩,
    ⟨"core", [("host", .text s.core.host), ("port", .natural s.core.port.toNat),
      ("request_timeout_ms", .natural s.core.requestTimeout.toNat)]⟩,
    ⟨"session", [("handshake_timeout_ms", .natural s.session.handshakeTimeout.toNat),
      ("keepalive_interval_ms", .natural s.session.keepAliveInterval.toNat),
      ("send_timeout_ms", .natural s.session.sendTimeout.toNat)]⟩,
    ⟨"presence", [("core_timeout_ms", .natural s.presence.coreTimeout.toNat)]⟩]

/-- The settings as TOML, if they can be written so. -/
def toToml? (s : Settings) : Option String :=
  (Toml.render? s.sections).map String.ofList

def toJson (s : Settings) : Value :=
  let word (n : UInt64) : Value := .number (.ofNat n.toNat)
  let filter : Value := match s.general.logFilter with
    | some t => .text t
    | none => .null
  .object
    [("general", .object [("verbose", .bool s.general.verbose), ("log_filter", filter)]),
      ("core", .object [("host", .text s.core.host),
        ("port", .number (.ofNat s.core.port.toNat)),
        ("request_timeout_ms", word s.core.requestTimeout)]),
      ("session", .object [("handshake_timeout_ms", word s.session.handshakeTimeout),
        ("keepalive_interval_ms", word s.session.keepAliveInterval),
        ("send_timeout_ms", word s.session.sendTimeout)]),
      ("presence", .object [("core_timeout_ms", word s.presence.coreTimeout)])]

end Settings

end Corelink
