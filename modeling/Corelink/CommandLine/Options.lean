/-!
# Options on a command line

Words are read from left to right. A word that begins with a dash names an option, in
full behind two dashes or by one letter behind one; the value of an option is attached to
it, with or without an equals sign, or is the word that follows, which then must not look
like an option itself. Any other word must be one of the commands, and the words behind
it are left to that command. An option is given at most once.
-/

namespace Corelink.CommandLine

/-- What an option is for. -/
inductive OptionKind where
  /-- It is there or not. -/
  | flag
  /-- It has a value. -/
  | text
  /-- It has a value that is not empty. -/
  | path
  /-- It ends everything and asks for the help text. -/
  | help
  /-- It ends everything and asks for the version. -/
  | version
  deriving DecidableEq, Repr

structure OptionSpec where
  /-- Its letter, if it has one. -/
  short : Option Char
  long : String
  kind : OptionKind
  /-- Whether the command cannot do without it. -/
  required : Bool := false
  /-- What the help text says of it. -/
  about : String := ""
  deriving DecidableEq, Repr

namespace OptionSpec

def takesValue (o : OptionSpec) : Bool :=
  o.kind = .text || o.kind = .path

end OptionSpec

/-- Why reading a command line ends before its time. -/
inductive Stop where
  | usage
  /-- The help text of a command, or of the program. -/
  | help (command : Option String)
  | version
  deriving DecidableEq, Repr

/-- Behind a command it is that command's help text that is asked for. -/
def Stop.behind (command : String) : Stop → Stop
  | help _ => help (some command)
  | stop => stop

/-- The options given so far, by their long names. -/
abbrev Given := List (String × String)

namespace Given

def has (g : Given) (long : String) : Bool :=
  g.any (·.1 = long)

def value? (g : Given) (long : String) : Option String :=
  (g.find? (·.1 = long)).map (·.2)

/-- One more option, unless it is there already or its value will not do. -/
def add (g : Given) (o : OptionSpec) (value : String) : Except Stop Given :=
  match o.kind with
  | .help => .error (.help none)
  | .version => .error .version
  | kind =>
    if g.has o.long || (kind = .path && value.isEmpty) then .error .usage
    else .ok (g ++ [(o.long, value)])

end Given

/-- What a row of words comes to. -/
structure Scan where
  given : Given
  /-- The command, with the words behind it. -/
  command : Option (String × List String)
  deriving DecidableEq, Repr

/-- The value attached behind an option's letter. -/
def attached? : List Char → Option String
  | [] => none
  | '=' :: cs => some (String.ofList cs)
  | cs => some (String.ofList cs)

/-- Letters behind one dash: options without a value, and at the end perhaps one with a
value. If its value is still to come, the option is given back. -/
def scanLetters (options : List OptionSpec) (g : Given) :
    List Char → Except Stop (Given × Option OptionSpec)
  | [] => .ok (g, none)
  | c :: cs =>
    match options.find? (·.short = some c) with
    | none => .error .usage
    | some o =>
      if o.takesValue then
        match attached? cs with
        | some value => do return (← g.add o value, none)
        | none => .ok (g, some o)
      else do scanLetters options (← g.add o "") cs

/-- An option in full, with what follows its first equals sign. -/
def scanName (options : List OptionSpec) (g : Given) (cs : List Char) :
    Except Stop (Given × Option OptionSpec) :=
  let name := String.ofList (cs.takeWhile (· ≠ '='))
  match options.find? (·.long = name), cs.dropWhile (· ≠ '=') with
  | none, _ => .error .usage
  | some o, [] => if o.takesValue then .ok (g, some o) else do return (← g.add o "", none)
  | some o, _ :: value =>
    if o.takesValue then do return (← g.add o (String.ofList value), none) else .error .usage

/-- Reads words; `pending` is the option whose value must come next. -/
def scan (options : List OptionSpec) (commands : List String) (g : Given) :
    Option OptionSpec → List String → Except Stop Scan
  | none, [] => .ok ⟨g, none⟩
  | some _, [] => .error .usage
  | pending, word :: rest =>
    match pending, word.toList with
    | none, ['-', '-'] => if rest.isEmpty then .ok ⟨g, none⟩ else .error .usage
    | none, '-' :: '-' :: cs => do
      let (g, pending) ← scanName options g cs
      scan options commands g pending rest
    | none, '-' :: c :: cs => do
      let (g, pending) ← scanLetters options g (c :: cs)
      scan options commands g pending rest
    | none, _ =>
      if commands.contains word then .ok ⟨g, some (word, rest)⟩ else .error .usage
    | some _, '-' :: _ :: _ => .error .usage
    | some o, _ => do scan options commands (← g.add o word) none rest

end Corelink.CommandLine
