import Corelink.Files.Tree
import Corelink.Settings.Document
import Corelink.Text.Quoted

/-!
# Settings in files

Settings are loaded from one file, or from the first of the usual places that is there;
a file that is there but cannot be used is an error, never passed over. They are saved
as TOML, put into words before the file tree is touched.
-/

namespace Corelink

/-- Why settings could not be loaded, saved or overridden. -/
inductive SettingsError where
  | file (e : FileError)
  | malformed
  | unwritable
  | notFound (path : String)
  | badOverride (variableName value : String)
  deriving DecidableEq, Repr

namespace SettingsError

def message : SettingsError → String
  | file e => "IO error: " ++ e.message
  | malformed => "Parse error"
  | unwritable => "Serialize error: " ++ Toml.outOfRange
  | notFound path => "Config file not found: " ++ path
  | badOverride variableName value =>
    "Invalid value for " ++ variableName ++ ": " ++ Text.quoted value

end SettingsError

namespace Settings

/-- The settings of a TOML text. -/
def ofToml (s : String) : Except SettingsError Settings :=
  match ofToml? s with
  | some c => .ok c
  | none => .error .malformed

/-- The settings of a file. -/
def load (t : FileTree) (path : String) : Except SettingsError Settings :=
  if t.holds path then
    match t.readText path with
    | .ok s => ofToml s
    | .error e => .error (.file e)
  else .error (.notFound path)

/-- Where a user's settings are kept: `configHome` if it is absolute, else `.config`
in the home directory. -/
def userDirectory? (configHome home : Option String) : Option String :=
  match configHome with
  | some d => if Path.isAbsolute d then some d else fallback
  | none => fallback
where
  fallback := (home.filter (!·.isEmpty)).map (Path.under · ".config")

/-- The usual places, in the order they are tried. -/
def usualPlaces (configHome home : Option String) : List String :=
  ((userDirectory? configHome home).map (Path.under · "fsx-bridge/config.toml")).toList ++
    ["./fsx-bridge.toml", "./config.toml"]

/-- The settings of the first file that is there, or the defaults. -/
def loadFirst (t : FileTree) (places : List String) : Except SettingsError Settings :=
  match places.find? t.holds with
  | some path => load t path
  | none => .ok {}

/-- What a change of the file tree gives, with the error put in the words of settings. -/
def ofOutcome : FileTree.Outcome → Except SettingsError Unit × FileTree
  | (.ok _, t) => (.ok (), t)
  | (.error e, t) => (.error (.file e), t)

/-- Writes the settings to a file, making the directories above it. -/
def save (s : Settings) (t : FileTree) (path : String) : Except SettingsError Unit × FileTree :=
  match s.toToml? with
  | none => (.error .unwritable, t)
  | some text =>
    match t.makeParents path with
    | (.ok _, t) => ofOutcome (t.write path (Utf8.encode text))
    | r => ofOutcome r

end Settings

end Corelink
