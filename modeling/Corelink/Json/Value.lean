import Corelink.Text.Hex

/-!
# JSON values

Values, and the two ways they are written: without blanks (`compact`), and with two
blanks of indentation a level (`pretty`). A number is kept as it is written.
-/

namespace Corelink.Json

open Text (hexDigit)

/-- The exponent of a number as written: its sign, if there is one, and its digits. -/
structure Exponent where
  negative : Option Bool
  digits : List Char
  deriving DecidableEq, Repr

/-- A number as written. -/
structure Number where
  negative : Bool
  whole : List Char
  fraction : Option (List Char)
  exponent : Option Exponent
  deriving DecidableEq, Repr

def Number.ofNat (n : Nat) : Number :=
  { negative := false, whole := Nat.toDigits 10 n, fraction := none, exponent := none }

def Exponent.render (e : Exponent) : List Char :=
  let sign := match e.negative with
    | none => []
    | some true => ['-']
    | some false => ['+']
  'e' :: sign ++ e.digits

def Number.render (n : Number) : List Char :=
  let sign := if n.negative then ['-'] else []
  let fraction := match n.fraction with
    | none => []
    | some ds => '.' :: ds
  let exponent := match n.exponent with
    | none => []
    | some e => e.render
  sign ++ n.whole ++ fraction ++ exponent

inductive Value where
  | null
  | bool (b : Bool)
  | number (n : Number)
  | text (s : String)
  | array (items : List Value)
  | object (members : List (String × Value))
  deriving Repr

/-! ### Writing -/

/-- A character of a text. Only quote, backslash and controls are escaped. -/
def renderChar (c : Char) : List Char :=
  if c = '\x22' then ['\\', '\x22']
  else if c = '\\' then ['\\', '\\']
  else if c = '\x08' then ['\\', 'b']
  else if c = '\x0c' then ['\\', 'f']
  else if c = '\n' then ['\\', 'n']
  else if c = '\r' then ['\\', 'r']
  else if c = '\t' then ['\\', 't']
  else if c.toNat < 0x20 then
    ['\\', 'u', '0', '0', hexDigit false (c.toNat / 16), hexDigit false (c.toNat % 16)]
  else [c]

def renderText (s : String) : List Char :=
  '\x22' :: s.toList.flatMap renderChar ++ ['\x22']

/-- A value that is not an array or an object. -/
def renderScalar : Value → List Char
  | .bool true => "true".toList
  | .bool false => "false".toList
  | .number n => n.render
  | .text s => renderText s
  | _ => "null".toList

mutual

def Value.compact : Value → List Char
  | .array items => '[' :: compactItems items ++ [']']
  | .object members => '\x7b' :: compactMembers members ++ ['\x7d']
  | v => renderScalar v

def compactItems : List Value → List Char
  | [] => []
  | [v] => v.compact
  | v :: w :: rest => v.compact ++ ',' :: compactItems (w :: rest)

def compactMembers : List (String × Value) → List Char
  | [] => []
  | [(k, v)] => renderText k ++ ':' :: v.compact
  | (k, v) :: m :: rest => renderText k ++ ':' :: v.compact ++ ',' :: compactMembers (m :: rest)

end

/-- A new line at this level of indentation. -/
def newLine (level : Nat) : List Char :=
  '\n' :: List.replicate (2 * level) ' '

mutual

def Value.prettyAt (level : Nat) : Value → List Char
  | .array [] => ['[', ']']
  | .object [] => ['\x7b', '\x7d']
  | .array (v :: rest) =>
    '[' :: newLine (level + 1) ++ v.prettyAt (level + 1) ++ prettyItems level rest
  | .object ((k, v) :: rest) =>
    '\x7b' :: newLine (level + 1) ++ renderText k ++ ':' :: ' ' :: v.prettyAt (level + 1)
      ++ prettyMembers level rest
  | v => renderScalar v

/-- The items after the first one, and the end of the array. -/
def prettyItems (level : Nat) : List Value → List Char
  | [] => newLine level ++ [']']
  | v :: rest => ',' :: newLine (level + 1) ++ v.prettyAt (level + 1) ++ prettyItems level rest

/-- The members after the first one, and the end of the object. -/
def prettyMembers (level : Nat) : List (String × Value) → List Char
  | [] => newLine level ++ ['\x7d']
  | (k, v) :: rest =>
    ',' :: newLine (level + 1) ++ renderText k ++ ':' :: ' ' :: v.prettyAt (level + 1)
      ++ prettyMembers level rest

end

def Value.pretty (v : Value) : List Char :=
  v.prettyAt 0

end Corelink.Json
