import Corelink.Text.Hex
import Corelink.Toml.Value

/-!
# Writing TOML

A document of one level of tables: a header each, `key = value` lines in order, an empty
line between two tables. A text takes the first of four forms that can hold it, so that
few texts need an escape. Numbers are checked one by one as they are written: one that is
greater than an integer of a document can be ends the writing without a result.
-/

namespace Corelink.Toml

open Text (hexDigit)

/-- The length of the longest run of `q`; `now` counts the run that ends here. -/
def longestRun (q : Char) : List Char → (now : Nat) → Nat
  | [], now => now
  | c :: cs, now => if c = q then longestRun q cs (now + 1) else max now (longestRun q cs 0)

/-- Controls that no form holds as they are. -/
def isControl (c : Char) : Bool :=
  (c.toNat < 0x20 || c.toNat = 0x7F) && c ≠ '\t' && c ≠ '\n'

/-- How a text is written. -/
inductive Form where
  /-- Between double quotes, escaped. -/
  | basic
  /-- Between single quotes, as it is. -/
  | literal
  /-- Between three double quotes, escaped but for line ends. -/
  | longBasic
  /-- Between three single quotes, as it is. -/
  | longLiteral
  deriving DecidableEq, Repr

/-- The first form that fits. -/
def Form.choose (cs : List Char) : Form :=
  let control := cs.any isControl
  let backslash := cs.any (· = '\\')
  let newline := cs.any (· = '\n')
  let double := longestRun '\x22' cs 0
  let single := longestRun '\x27' cs 0
  if !control && !backslash && !newline && double = 0 then .basic
  else if !control && !newline && single = 0 then .literal
  else if !control && !backslash && double ≤ 2 then .longBasic
  else if !control && single ≤ 2 then .longLiteral
  else if newline then .longBasic
  else .basic

/-- An escaped character other than a double quote; `long` texts keep their line ends. -/
def escapeChar (long : Bool) (c : Char) : List Char :=
  if c = '\x08' then ['\\', 'b']
  else if c = '\t' then ['\\', 't']
  else if c = '\n' then if long then ['\n'] else ['\\', 'n']
  else if c = '\x0c' then ['\\', 'f']
  else if c = '\r' then ['\\', 'r']
  else if c = '\\' then ['\\', '\\']
  else if c.toNat < 0x20 || c.toNat = 0x7F then
    ['\\', 'u', '0', '0', hexDigit true (c.toNat / 16), hexDigit true (c.toNat % 16)]
  else [c]

/-- The inside of an escaped text. Of a run of double quotes a long text escapes every
third one; `run` counts those since the last escape. -/
def escape (long : Bool) : List Char → (run : Nat) → List Char
  | [], _ => []
  | c :: cs, run =>
    if c = '\x22' then
      if long && run < 2 then c :: escape long cs (run + 1)
      else '\\' :: c :: escape long cs 0
    else escapeChar long c ++ escape long cs 0

/-- A text in its form. A long text that holds a line end begins on a line of its own. -/
def renderText (s : String) : List Char :=
  let cs := s.toList
  let first := if cs.any (· = '\n') then ['\n'] else []
  match Form.choose cs with
  | .basic => '\x22' :: escape false cs 0 ++ ['\x22']
  | .literal => '\x27' :: cs ++ ['\x27']
  | .longBasic => ['\x22', '\x22', '\x22'] ++ first ++ escape true cs 0 ++ ['\x22', '\x22', '\x22']
  | .longLiteral => ['\x27', '\x27', '\x27'] ++ first ++ cs ++ ['\x27', '\x27', '\x27']

/-- A value that a line can hold. -/
inductive Scalar where
  | bool (b : Bool)
  | natural (n : Nat)
  | text (s : String)
  deriving DecidableEq, Repr

def Scalar.render? : Scalar → Option (List Char)
  | .bool true => some "true".toList
  | .bool false => some "false".toList
  | .natural n => if n ≤ maxInteger then some (Nat.toDigits 10 n) else none
  | .text s => some (renderText s)

/-- A header and the lines under it. The keys need no quotes. -/
structure Section where
  name : String
  lines : List (String × Scalar)
  deriving DecidableEq, Repr

def renderLine? (l : String × Scalar) : Option (List Char) := do
  let value ← l.2.render?
  return l.1.toList ++ [' ', '=', ' '] ++ value ++ ['\n']

def Section.render? (s : Section) : Option (List Char) := do
  let lines ← s.lines.mapM renderLine?
  return '[' :: s.name.toList ++ [']', '\n'] ++ lines.flatten

/-- The sections with an empty line between them. -/
def render? : List Section → Option (List Char)
  | [] => some []
  | [s] => s.render?
  | s :: t :: rest => do
    let front ← s.render?
    let behind ← render? (t :: rest)
    return front ++ '\n' :: behind

/-- Why a document could not be written. -/
def outOfRange : String :=
  "out-of-range value for u64 type"

end Corelink.Toml
