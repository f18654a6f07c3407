import Corelink.Decimal
import Corelink.Text.Hex
import Corelink.Toml.Value

/-!
# TOML scalars

Keys, texts, numbers, booleans and dates at the front of some characters. Every scanner
gives what it read and what is left, or nothing. A scanner may stop early; what it leaves
is then refused by whoever asked, because nothing but a blank, a comma, a closing bracket,
a comment or a line end may follow a value.
-/

namespace Corelink.Toml

open Text (hexValue?)

/-! ### Characters -/

def isBlank (c : Char) : Bool :=
  c = ' ' || c = '\t'

def skipBlanks (cs : List Char) : List Char :=
  cs.dropWhile isBlank

/-- What follows a line end at the front. A lone carriage return is none. -/
def newline? : List Char → Option (List Char)
  | '\n' :: cs => some cs
  | '\r' :: '\n' :: cs => some cs
  | _ => none

/-- Characters that may stand for themselves: no control but the tab. -/
def isPlain (c : Char) : Bool :=
  c = '\t' || (0x20 ≤ c.toNat && c.toNat ≠ 0x7F)

/-- Characters of a key without quotes. -/
def isBare (c : Char) : Bool :=
  c.isAlphanum || c = '_' || c = '-'

/-! ### Texts -/

/-- The character with this code point, if it is one. -/
def scalar? (n : Nat) : Option Char :=
  if n.isValidChar then some (Char.ofNat n) else none

/-- The character that exactly `k` hexadecimal digits at the front name. -/
def scanHex (k : Nat) (cs : List Char) : Option (Char × List Char) := do
  let digits ← (cs.take k).mapM hexValue?
  guard (digits.length = k)
  let c ← scalar? (digits.foldl (fun n d => 16 * n + d) 0)
  return (c, cs.drop k)

/-- The character of an escape, after its backslash. -/
def scanEscape : List Char → Option (Char × List Char)
  | [] => none
  | c :: cs =>
    if c = 'b' then some ('\x08', cs)
    else if c = 't' then some ('\t', cs)
    else if c = 'n' then some ('\n', cs)
    else if c = 'f' then some ('\x0c', cs)
    else if c = 'r' then some ('\r', cs)
    else if c = '\x22' then some ('\x22', cs)
    else if c = '\\' then some ('\\', cs)
    else if c = 'u' then scanHex 4 cs
    else if c = 'U' then scanHex 8 cs
    else none

/-- The rest of a text in double quotes; `acc` holds its characters so far, last first. -/
def scanBasic : Nat → List Char → List Char → Option (String × List Char)
  | 0, _, _ => none
  | _ + 1, _, [] => none
  | fuel + 1, acc, c :: cs =>
    if c = '\x22' then some (String.ofList acc.reverse, cs)
    else if c = '\\' then do
      let (e, rest) ← scanEscape cs
      scanBasic fuel (e :: acc) rest
    else if isPlain c then scanBasic fuel (c :: acc) cs
    else none

/-- The rest of a text in single quotes. -/
def scanLiteral (cs : List Char) : Option (String × List Char) :=
  match cs.dropWhile (fun c => isPlain c && c ≠ '\x27') with
  | '\x27' :: rest =>
    some (String.ofList (cs.takeWhile fun c => isPlain c && c ≠ '\x27'), rest)
  | _ => none

/-- The closing of a text in three quotes `q`. One or two more quotes at the end belong
to the text. -/
def closing? (q : Char) (cs : List Char) : Option (List Char × List Char) :=
  let run := (cs.take 5).takeWhile (· = q)
  if run.length ≥ 3 then some (run.drop 3, cs.drop run.length) else none

/-- Blanks and line ends. -/
def skipBlankLines : Nat → List Char → List Char
  | 0, cs => cs
  | fuel + 1, cs =>
    match newline? (skipBlanks cs) with
    | some rest => skipBlankLines fuel rest
    | none => skipBlanks cs

/-- What follows a backslash at the end of a line and the blank space after it. -/
def continuation? (cs : List Char) : Option (List Char) :=
  (newline? (skipBlanks cs)).map fun rest => skipBlankLines (rest.length + 1) rest

/-- The rest of a text in three double quotes. -/
def scanLongBasic : Nat → List Char → List Char → Option (String × List Char)
  | 0, _, _ => none
  | _ + 1, _, [] => none
  | fuel + 1, acc, c :: cs =>
    if c = '\x22' then
      match closing? '\x22' (c :: cs) with
      | some (quotes, rest) => some (String.ofList (acc.reverse ++ quotes), rest)
      | none => scanLongBasic fuel (c :: acc) cs
    else if c = '\\' then
      match continuation? cs with
      | some rest => scanLongBasic fuel acc rest
      | none => do
        let (e, rest) ← scanEscape cs
        scanLongBasic fuel (e :: acc) rest
    else
      match newline? (c :: cs) with
      | some rest => scanLongBasic fuel ('\n' :: acc) rest
      | none => if isPlain c then scanLongBasic fuel (c :: acc) cs else none

/-- The rest of a text in three single quotes. -/
def scanLongLiteral : Nat → List Char → List Char → Option (String × List Char)
  | 0, _, _ => none
  | _ + 1, _, [] => none
  | fuel + 1, acc, c :: cs =>
    if c = '\x27' then
      match closing? '\x27' (c :: cs) with
      | some (quotes, rest) => some (String.ofList (acc.reverse ++ quotes), rest)
      | none => scanLongLiteral fuel (c :: acc) cs
    else
      match newline? (c :: cs) with
      | some rest => scanLongLiteral fuel ('\n' :: acc) rest
      | none => if isPlain c then scanLongLiteral fuel (c :: acc) cs else none

/-- A long text begins after a line end, if one follows its opening quotes. -/
def skipFirstNewline (cs : List Char) : List Char :=
  (newline? cs).getD cs

/-- A text in any of the four forms. -/
def scanText : List Char → Option (String × List Char)
  | '\x22' :: '\x22' :: '\x22' :: cs =>
    scanLongBasic (cs.length + 1) [] (skipFirstNewline cs)
  | '\x22' :: cs => scanBasic (cs.length + 1) [] cs
  | '\x27' :: '\x27' :: '\x27' :: cs =>
    scanLongLiteral (cs.length + 1) [] (skipFirstNewline cs)
  | '\x27' :: cs => scanLiteral cs
  | _ => none

/-! ### Keys -/

/-- One part of a key. -/
def scanSimpleKey : List Char → Option (String × List Char)
  | '\x22' :: cs => scanBasic (cs.length + 1) [] cs
  | '\x27' :: cs => scanLiteral cs
  | cs =>
    let bare := cs.takeWhile isBare
    if bare.isEmpty then none else some (String.ofList bare, cs.dropWhile isBare)

/-- A key and the blanks around it: its parts, joined by dots. -/
def scanKeyParts : Nat → List Char → Option (List String × List Char)
  | 0, _ => none
  | fuel + 1, cs => do
    let (k, rest) ← scanSimpleKey (skipBlanks cs)
    match skipBlanks rest with
    | '.' :: rest =>
      let (ks, rest) ← scanKeyParts fuel rest
      return (k :: ks, rest)
    | rest => return ([k], rest)

/-- A key has at least one part and fewer than this many. -/
def depthLimit : Nat := 80

def scanKey (cs : List Char) : Option (List String × List Char) := do
  let (ks, rest) ← scanKeyParts (cs.length + 1) cs
  guard (ks.length < depthLimit)
  return (ks, rest)

/-! ### Numbers -/

/-- Digits of a class, single underscores between them, without the underscores. -/
def scanDigits (isDigit : Char → Bool) : List Char → Option (List Char × List Char)
  | [] => none
  | c :: cs =>
    if !isDigit c then none
    else
      match cs with
      | '_' :: rest => (scanDigits isDigit rest).map fun r => (c :: r.1, r.2)
      | d :: rest =>
        if isDigit d then (scanDigits isDigit (d :: rest)).map fun r => (c :: r.1, r.2)
        else some ([c], d :: rest)
      | [] => some ([c], [])

def scanSign : List Char → Bool × List Char
  | '+' :: cs => (false, cs)
  | '-' :: cs => (true, cs)
  | cs => (false, cs)

/-- A sign and decimal digits, of which the first is zero only if it stands alone. -/
def scanDecimal (cs : List Char) : Option (Bool × List Char × List Char) := do
  let (negative, cs) := scanSign cs
  match cs with
  | '0' :: rest => return (negative, ['0'], rest)
  | cs =>
    let (digits, rest) ← scanDigits Char.isDigit cs
    return (negative, digits, rest)

/-- An integer in another base than ten has no sign. -/
def scanRadix (base : Nat) (cs : List Char) : Option (Value × List Char) := do
  let isDigit (c : Char) : Bool := match hexValue? c with
    | some v => v < base
    | none => false
  let (digits, rest) ← scanDigits isDigit cs
  let n := digits.foldl (fun n c => base * n + (hexValue? c).getD 0) 0
  guard (n ≤ maxInteger)
  return (.integer n, rest)

def scanInteger : List Char → Option (Value × List Char)
  | '0' :: 'x' :: cs => scanRadix 16 cs
  | '0' :: 'o' :: cs => scanRadix 8 cs
  | '0' :: 'b' :: cs => scanRadix 2 cs
  | cs => do
    let (negative, digits, rest) ← scanDecimal cs
    let n := Decimal.ofDigits digits
    guard (if negative then n ≤ maxInteger + 1 else n ≤ maxInteger)
    return (.integer (if negative then -(n : Int) else n), rest)

/-- The exponent at the front. -/
def scanExponent : List Char → Option (Int × List Char)
  | c :: cs =>
    if c = 'e' || c = 'E' then do
      let (negative, cs) := scanSign cs
      let (digits, rest) ← scanDigits Char.isDigit cs
      let n := Decimal.ofDigits digits
      return (if negative then -(n : Int) else n, rest)
    else none
  | [] => none

/-- A fraction, an exponent or both. -/
def scanFraction : List Char → Option (List Char × Int × List Char)
  | '.' :: cs => do
    let (digits, rest) ← scanDigits Char.isDigit cs
    match scanExponent rest with
    | some (e, rest) => return (digits, e, rest)
    | none => return (digits, 0, rest)
  | cs => do
    let (e, rest) ← scanExponent cs
    return ([], e, rest)

/-- A float. One that rounds to positive infinity is refused. -/
def scanFinite (cs : List Char) : Option (Value × List Char) := do
  let (negative, whole, rest) ← scanDecimal cs
  let (fraction, e, rest) ← scanFraction rest
  guard (negative || !Decimal.roundsToInfinity (whole ++ fraction) (e - fraction.length))
  return (.float, rest)

/-- An infinity or a value that is no number. -/
def scanSpecial (cs : List Char) : Option (Value × List Char) :=
  match (scanSign cs).2 with
  | 'i' :: 'n' :: 'f' :: rest => some (.float, rest)
  | 'n' :: 'a' :: 'n' :: rest => some (.float, rest)
  | _ => none

/-! ### Dates -/

/-- Exactly `k` digits whose value lies between the bounds. -/
def scanPart (k lo hi : Nat) (cs : List Char) : Option (Nat × List Char) := do
  let digits := cs.take k
  guard (digits.length = k && digits.all Char.isDigit)
  let n := Decimal.ofDigits digits
  guard (lo ≤ n && n ≤ hi)
  return (n, cs.drop k)

def scanMark (c : Char) : List Char → Option (List Char)
  | d :: cs => if c = d then some cs else none
  | [] => none

def isLeapYear (y : Nat) : Bool :=
  y % 4 = 0 && (y % 100 ≠ 0 || y % 400 = 0)

def daysInMonth (y m : Nat) : Nat :=
  if m = 2 then if isLeapYear y then 29 else 28
  else if m = 4 || m = 6 || m = 9 || m = 11 then 30
  else 31

def scanDay (cs : List Char) : Option (List Char) := do
  let (y, cs) ← scanPart 4 0 9999 cs
  let cs ← scanMark '-' cs
  let (m, cs) ← scanPart 2 1 12 cs
  let cs ← scanMark '-' cs
  let (_, cs) ← scanPart 2 1 (daysInMonth y m) cs
  return cs

/-- A time of day; the seconds may be those of a leap second. -/
def scanTime (cs : List Char) : Option (List Char) := do
  let (_, cs) ← scanPart 2 0 23 cs
  let cs ← scanMark ':' cs
  let (_, cs) ← scanPart 2 0 59 cs
  let cs ← scanMark ':' cs
  let (_, cs) ← scanPart 2 0 60 cs
  match cs with
  | '.' :: d :: rest => return if d.isDigit then rest.dropWhile Char.isDigit else cs
  | _ => return cs

def scanOffset : List Char → Option (List Char)
  | c :: cs =>
    if c = 'Z' || c = 'z' then some cs
    else if c = '+' || c = '-' then do
      let (_, cs) ← scanPart 2 0 23 cs
      let cs ← scanMark ':' cs
      let (_, cs) ← scanPart 2 0 59 cs
      return cs
    else none
  | [] => none

/-- What may follow a day: a time, and what may follow that: an offset. -/
def scanTimeOfDay : List Char → Option (List Char)
  | c :: cs =>
    if c = 'T' || c = 't' || c = ' ' then do
      let cs ← scanTime cs
      return (scanOffset cs).getD cs
    else none
  | [] => none

def scanDate (cs : List Char) : Option (Value × List Char) :=
  match scanDay cs with
  | some rest => some (.date, (scanTimeOfDay rest).getD rest)
  | none => (scanTime cs).map fun rest => (.date, rest)

/-! ### Scalars -/

def scanBool : List Char → Option (Value × List Char)
  | 't' :: 'r' :: 'u' :: 'e' :: cs => some (.bool true, cs)
  | 'f' :: 'a' :: 'l' :: 's' :: 'e' :: cs => some (.bool false, cs)
  | _ => none

/-- A date, a float or an integer, the first that fits. -/
def scanNumber (cs : List Char) : Option (Value × List Char) :=
  scanDate cs <|> scanFinite cs <|> scanSpecial cs <|> scanInteger cs

def scanScalar (cs : List Char) : Option (Value × List Char) :=
  ((scanText cs).map fun r => (.text r.1, r.2)) <|> scanBool cs <|> scanNumber cs

end Corelink.Toml
