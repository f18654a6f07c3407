import Corelink.CommandLine.Options
import Corelink.Wire.Message

/-!
# Invocations

What an operator can ask for: one of four commands, with a settings file and a wish for
more log lines given before or behind the command. What is given behind it counts.
-/

namespace Corelink.CommandLine

open Wire

inductive Command where
  | register (m : RegisterRequest)
  /-- With `hold`, the session is kept until the operator interrupts. -/
  | login (m : LoginRequest) (hold : Bool)
  | online
  | config (generate : Bool) (output : Option String)
  deriving DecidableEq, Repr

structure Invocation where
  config : Option String
  verbose : Bool
  command : Command
  deriving DecidableEq, Repr

/-! ### Options -/

/-- Options that stand before or behind the command. -/
def commonOptions : List OptionSpec :=
  [{ short := some 'c', long := "config", kind := .path, about := "Path to configuration file" },
    { short := some 'v', long := "verbose", kind := .flag, about := "Enable verbose output" }]

def helpOption : OptionSpec :=
  { short := some 'h', long := "help", kind := .help, about := "Print help" }

def versionOption : OptionSpec :=
  { short := some 'V', long := "version", kind := .version, about := "Print version" }

def topOptions : List OptionSpec :=
  commonOptions ++ [helpOption, versionOption]

def usernameOption : OptionSpec :=
  { short := some 'u', long := "username", kind := .text, required := true }

def emailOption : OptionSpec :=
  { short := some 'e', long := "email", kind := .text, required := true }

def passwordOption : OptionSpec :=
  { short := some 'p', long := "password", kind := .text, required := true }

def holdOption : OptionSpec :=
  { short := none, long := "hold", kind := .flag
    about := "Keep the session alive until Ctrl+C, then log out" }

def generateOption : OptionSpec :=
  { short := none, long := "generate", kind := .flag, about := "Generate sample configuration" }

def outputOption : OptionSpec :=
  { short := some 'o', long := "output", kind := .path
    about := "Output path for generated config" }

/-- A command, with the options of its own. -/
structure CommandSpec where
  name : String
  about : String
  options : List OptionSpec
  deriving DecidableEq, Repr

def commands : List CommandSpec :=
  [⟨"register", "Register a new account", [usernameOption, emailOption, passwordOption]⟩,
    ⟨"login", "Log in and open a persistent session", [usernameOption, passwordOption, holdOption]⟩,
    ⟨"online", "List online users", []⟩,
    ⟨"config", "Show current configuration", [generateOption, outputOption]⟩]

/-- The command that asks for the help text, about another command if one is named. -/
def helpCommand : String := "help"

def commandNames : List String :=
  commands.map (·.name) ++ [helpCommand]

/-! ### Reading -/

/-- The value of an option that must be given. -/
def need (g : Given) (o : OptionSpec) : Except Stop String :=
  match g.value? o.long with
  | some value => .ok value
  | none => .error .usage

/-- A command of this name with these options. -/
def commandOf (name : String) (g : Given) : Except Stop Command :=
  match name with
  | "register" => do
    let username ← need g usernameOption
    let email ← need g emailOption
    let password ← need g passwordOption
    return .register { username, email, password }
  | "login" => do
    let username ← need g usernameOption
    let password ← need g passwordOption
    return .login { username, password } (g.has holdOption.long)
  | "online" => .ok .online
  | "config" => .ok (.config (g.has generateOption.long) (g.value? outputOption.long))
  | _ => .error .usage

/-- The words behind the help command name at most one command. -/
def helpOn : List String → Stop
  | [] => .help none
  | [name] => if commandNames.contains name then .help (some name) else .usage
  | _ => .usage

/-- Reads all words of a command line but the program's name. -/
def parse (words : List String) : Except Stop Invocation := do
  let top ← scan topOptions commandNames [] none words
  match top.command with
  | none => .error .usage
  | some (name, rest) =>
    if name = helpCommand then .error (helpOn rest)
    else
      let own := ((commands.find? (·.name = name)).map (·.options)).getD []
      let options := own ++ commonOptions ++ [helpOption]
      let inner ← (scan options [] [] none rest).mapError (·.behind name)
      let command ← commandOf name inner.given
      return {
        config := inner.given.value? "config" <|> top.given.value? "config"
        verbose := inner.given.has "verbose" || top.given.has "verbose"
        command }

end Corelink.CommandLine
