import Corelink.CommandLine.Invocation

/-!
# Help texts

The program and each command have a help text: what it is for, how it is used, and the
options that may stand with it.
-/

namespace Corelink.CommandLine

namespace OptionSpec

/-- The option in full, with a name for its value. -/
def usage (o : OptionSpec) : String :=
  "--" ++ o.long ++ if o.takesValue then " <" ++ o.long.toUpper ++ ">" else ""

def label (o : OptionSpec) : String :=
  (match o.short with
  | some c => "-" ++ c.toString ++ ", "
  | none => "    ") ++ o.usage

/-- What options in one place are ordered by: the letter, a capital behind its small one, or
the name. -/
def key (o : OptionSpec) : List Char :=
  match o.short with
  | some c => [c.toLower, if c.isLower then '0' else '1']
  | none => o.long.toList

def precedes (o p : OptionSpec) : Bool :=
  o.key.lex p.key fun c d => c.toNat < d.toNat

end OptionSpec

/-- The options of two lists by their places there. -/
def interleave : (own common : List OptionSpec) → List OptionSpec
  | o :: own, p :: common =>
    (if o.precedes p then [o, p] else [p, o]) ++ interleave own common
  | own, [] => own
  | [], common => common

/-- A heading, and rows of two columns under it. -/
def rows (heading : String) (cells : List (String × String)) : List String :=
  let width := (cells.map (·.1.length)).foldl max 0
  heading :: cells.map fun (label, about) =>
    "  " ++ label ++ String.ofList (List.replicate (width - label.length) ' ') ++ "  " ++ about

def optionRows (options : List OptionSpec) : List String :=
  rows "Options:" (options.map fun o => (o.label, o.about))

/-- What the help command is for. -/
def helpAbout : String :=
  "Print this message or the help of the given subcommand(s)"

def programHelp : List String :=
  ["Talk to Core over its framed TCP protocol", "",
    "Usage: fsx-bridge [OPTIONS] <COMMAND>", ""] ++
  rows "Commands:" (commands.map (fun c => (c.name, c.about)) ++ [(helpCommand, helpAbout)]) ++
  [""] ++ optionRows topOptions

def CommandSpec.help (c : CommandSpec) : List String :=
  let required := (c.options.filter (·.required)).map fun o => " " ++ o.usage
  [c.about, "", "Usage: fsx-bridge " ++ c.name ++ " [OPTIONS]" ++ String.join required, ""] ++
  optionRows (interleave c.options commonOptions ++ [helpOption])

/-- The help text of the help command itself. -/
def helpHelp : List String :=
  [helpAbout, "", "Usage: fsx-bridge help [COMMAND]...", ""] ++
  rows "Arguments:" [("[COMMAND]...", "Print help for the subcommand(s)")]

/-- The lines of the help text of a command, or of the program. -/
def helpLines : Option String → List String
  | none => programHelp
  | some name =>
    match commands.find? (·.name = name) with
    | some c => c.help
    | none => helpHelp

def helpText (command : Option String) : String :=
  String.join ((helpLines command).map (· ++ "\n"))

end Corelink.CommandLine
