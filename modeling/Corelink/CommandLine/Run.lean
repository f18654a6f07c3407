import Corelink.CommandLine.Help
import Corelink.Outcome
import Corelink.Rehearsal.World
import Corelink.Settings.Overrides

/-!
# Running a command

From the words of a command line, the variables of the environment and the files to what
is printed, what is reported and how the program ends. Settings come from the file that
is named, which then must be good, or else from the usual places, where a bad file counts
as none; the overrides are applied on top. `Surroundings.core` is the Core that the
settings lead to.
-/

namespace Corelink.CommandLine

open Rehearsal

/-- What a run depends on. -/
structure Surroundings where
  overrides : Overrides
  /-- The directory for settings, as the environment names it. -/
  configHome : Option String
  home : Option String
  tree : FileTree
  /-- A gateway for these settings, before its first operation. -/
  core : Settings → World

/-- How a run ends. -/
structure Ending where
  exitCode : Nat := 0
  stdout : String := ""
  /-- What is reported when the run fails. -/
  error : Option String := none
  tree : FileTree
  /-- The gateway in the end, if there was one. -/
  world : Option World := none

/-- The line that says which program this is. -/
def versionLine : String :=
  "fsx-bridge 0.1.0\n"

/-! ### Settings -/

/-- The settings before the overrides. -/
def loadSettings (s : Surroundings) (config : Option String) : Except SettingsError Settings :=
  match config with
  | some path => Settings.load s.tree path
  | none =>
    match Settings.loadFirst s.tree (Settings.usualPlaces s.configHome s.home) with
    | .ok c => .ok c
    | .error _ => .ok {}

/-- The settings in force. -/
def settings (s : Surroundings) (config : Option String) : Except SettingsError Settings := do
  let c ← loadSettings s config
  let (result, c) := s.overrides.apply c
  result
  return c

/-! ### Commands -/

def failed (t : FileTree) (error : String) : Ending :=
  { exitCode := 1, error := some error, tree := t }

/-- A value on lines of its own. -/
def printed (v : Json.Value) : String :=
  String.ofList v.pretty ++ "\n"

/-- Prints the answer of the gateway, or fails with its error. -/
def answered {α : Type} (t : FileTree) (r : Except CallError α) (toJson : α → Json.Value)
    (w : World) : Ending :=
  match r with
  | .ok a => { stdout := printed (toJson a), tree := t, world := some w }
  | .error e => { failed t e.message with world := some w }

/-- Keeps a session until the operator interrupts, and then logs out. -/
def hold (u : String) (w : World) : World :=
  if w.gatewaySessions.hasSession u then w.remove .gateway u else w

/-- Settings as TOML, or the reason why they have none. -/
def printSettings (t : FileTree) (c : Settings) : Ending :=
  match c.toToml? with
  | some text => { stdout := text ++ "\n", tree := t }
  | none => failed t Toml.outOfRange

/-- Prints the example, or writes it to a file. -/
def generate (t : FileTree) (output : Option String) : Ending :=
  match Settings.sample.toToml?, output with
  | none, _ => failed t Toml.outOfRange
  | some text, none => { stdout := text ++ "\n", tree := t }
  | some text, some path =>
    match t.write path (Utf8.encode text) with
    | (.ok _, t) => { stdout := "Configuration written to: " ++ path ++ "\n", tree := t }
    | (.error e, t) => failed t e.message

def runCommand (s : Surroundings) (c : Settings) : Command → Ending
  | .register m =>
    let w := s.core c
    let (r, w) := w.register w.gateway.requestTimeout m
    answered s.tree r Wire.RegisterResponse.toJson w
  | .login m keep =>
    let w := s.core c
    let (r, w) := w.login w.gateway.requestTimeout m
    let w := match r with
      | .ok response => if keep && response.ok then hold m.username w else w
      | .error _ => w
    let w := match r with
      | .ok _ => w.shutdown .gateway
      | .error _ => w
    answered s.tree r Wire.LoginResponse.toJson w
  | .online =>
    let (online, w) := (s.core c).getOnline
    { stdout := printed online.toJson, tree := s.tree, world := some w }
  | .config generated output =>
    if generated then generate s.tree output else printSettings s.tree c

/-- A run of the program. -/
def run (s : Surroundings) (words : List String) : Ending :=
  match parse words with
  | .error .usage => { exitCode := 2, tree := s.tree }
  | .error (.help command) => { stdout := helpText command, tree := s.tree }
  | .error .version => { stdout := versionLine, tree := s.tree }
  | .ok i =>
    match settings s i.config with
    | .error e => failed s.tree e.message
    | .ok c => runCommand s c i.command

end Corelink.CommandLine
