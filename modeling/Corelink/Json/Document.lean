import Corelink.Decimal
import Corelink.Json.Value

/-!
# JSON documents

`Document.ofText` reads any text. Where the text stops being JSON the document holds a
`Break`, and reading ends there; what came before is kept, so that whoever takes values
out of the document meets its faults in reading order. A break answers differently to a
reader that wants the value at that place and to one that only steps over it: a number
cut off by the end of the text is *truncated* to the former and *malformed* to the latter,
and a text with an unpaired surrogate is a fault to the former alone.
-/

namespace Corelink.Json

open Text (hexValue?)

/-- Why no value comes out of a text. -/
inductive Error where
  /-- The text is not JSON. -/
  | malformed
  /-- The text ends too early. -/
  | truncated
  /-- The text is JSON, but not of the wanted shape. -/
  | mismatch
  deriving DecidableEq, Repr

/-- The place where a text stops being JSON. -/
structure Break where
  /-- The answer to a reader that wants the value. -/
  wanted : Error
  /-- The answer to a reader that steps over it. -/
  skipped : Error
  deriving DecidableEq, Repr

/-- A break that is the same to every reader. -/
def Break.both (e : Error) : Break :=
  ⟨e, e⟩

inductive Document where
  | null
  | bool (b : Bool)
  | number (n : Number)
  /-- A text; if it holds an unpaired surrogate, there is only its fault. -/
  | text (s : Except Error String)
  | array (items : List Document) (cut : Option Break)
  | object (members : List (Except Error String × Document)) (cut : Option Break)
  | broken (b : Break)

/-! ### Blanks and literals -/

def isBlank (c : Char) : Bool :=
  c = ' ' || c = '\n' || c = '\t' || c = '\r'

def skipBlanks (cs : List Char) : List Char :=
  cs.dropWhile isBlank

/-- What is left after the expected characters. -/
def expect : List Char → List Char → Except Error (List Char)
  | [], cs => .ok cs
  | _ :: _, [] => .error .truncated
  | e :: es, c :: cs => if e = c then expect es cs else .error .malformed

/-! ### Numbers -/

/-- The fault of missing digits before `rest`. -/
def missingDigits : List Char → Break
  | [] => ⟨.truncated, .malformed⟩
  | _ :: _ => .both .malformed

/-- The exponent at the front, if there is one. -/
def scanExponent : List Char → Except Break (Option Exponent × List Char)
  | c :: cs =>
    if c = 'e' || c = 'E' then
      let (sign, cs) := match cs with
        | '+' :: r => (some false, r)
        | '-' :: r => (some true, r)
        | r => (none, r)
      let digits := cs.takeWhile Char.isDigit
      let rest := cs.dropWhile Char.isDigit
      if digits.isEmpty then .error (missingDigits rest) else .ok (some ⟨sign, digits⟩, rest)
    else .ok (none, c :: cs)
  | [] => .ok (none, [])

/-- The fraction at the front, if there is one. -/
def scanFraction : List Char → Except Break (Option (List Char) × List Char)
  | '.' :: cs =>
    let digits := cs.takeWhile Char.isDigit
    let rest := cs.dropWhile Char.isDigit
    if digits.isEmpty then .error (missingDigits rest) else .ok (some digits, rest)
  | cs => .ok (none, cs)

/-- The number at the front, after its sign. -/
def scanUnsigned (negative : Bool) (cs : List Char) : Except Break (Number × List Char) := do
  let whole := cs.takeWhile Char.isDigit
  let rest := cs.dropWhile Char.isDigit
  if whole.isEmpty then .error (missingDigits rest)
  else if whole.head? = some '0' && whole.length > 1 then .error (.both .malformed)
  else
    let (fraction, rest) ← scanFraction rest
    let (exponent, rest) ← scanExponent rest
    return ({ negative, whole, fraction, exponent }, rest)

namespace Number

/-- The number, if it is written without sign, fraction and exponent. -/
def toNat? (n : Number) : Option Nat :=
  if n.negative || n.fraction.isSome || n.exponent.isSome then none
  else some (Decimal.ofDigits n.whole)

/-- The power of ten that the exponent means. -/
def power (n : Number) : Int :=
  match n.exponent with
  | none => 0
  | some e =>
    if e.negative = some true then -(Decimal.ofDigits e.digits : Int)
    else Decimal.ofDigits e.digits

/-- Appends digits to `n` for as long as the result fits a 64-bit word, and counts the digits
left over. -/
def gather (n : Nat) : List Char → Nat × Nat
  | [] => (n, 0)
  | c :: cs =>
    let m := 10 * n + Decimal.digitValue c
    if m < UInt64.size then gather m cs else (n, cs.length + 1)

/-- Whether the number is beyond the range of a double. It is taken as a 64-bit word times a
power of ten: each digit of the whole part that the word has no room for counts as a further
zero, and the fraction goes on from the same word. -/
def isOutOfRange (n : Number) : Bool :=
  let fraction := n.fraction.getD []
  let (w, zeros) := gather 0 n.whole
  let (w, unread) := gather w fraction
  Decimal.productOverflows w (n.power + zeros - (fraction.length - unread : Nat))

end Number

/-! ### Texts -/

/-- The code unit of four hexadecimal digits. -/
def codeUnit? (a b c d : Char) : Option Nat := do
  return 4096 * (← hexValue? a) + 256 * (← hexValue? b) + 16 * (← hexValue? c) + (← hexValue? d)

/-- The character of a one-letter escape. -/
def escape? (c : Char) : Option Char :=
  if c = '\x22' || c = '\\' || c = '/' then some c
  else if c = 'b' then some '\x08'
  else if c = 'f' then some '\x0c'
  else if c = 'n' then some '\n'
  else if c = 'r' then some '\r'
  else if c = 't' then some '\t'
  else none

/-- A text under way: its characters so far, last first; the leading surrogate that waits
for its partner; the first fault that only a reader of the text minds. -/
structure Progress where
  chars : List Char := []
  high : Option Nat := none
  fault : Option Error := none

namespace Progress

/-- An unpaired surrogate before this place is a fault from here on. -/
def settle (p : Progress) : Progress :=
  match p.high with
  | none => p
  | some _ => { p with high := none, fault := p.fault.or (some .malformed) }

def push (p : Progress) (c : Char) : Progress :=
  let q := p.settle
  { q with chars := c :: q.chars }

/-- Adds a code unit given by an escape. -/
def pushUnit (p : Progress) (n : Nat) : Progress :=
  match p.high with
  | some h =>
    if 0xDC00 ≤ n ∧ n ≤ 0xDFFF then
      { p with
        high := none
        chars := Char.ofNat (0x10000 + 1024 * (h - 0xD800) + (n - 0xDC00)) :: p.chars }
    else
      let q := p.settle
      if 0xD800 ≤ n ∧ n ≤ 0xDBFF then { q with high := some n }
      else { q with chars := Char.ofNat n :: q.chars }
  | none =>
    if 0xDC00 ≤ n ∧ n ≤ 0xDFFF then { p with fault := p.fault.or (some .malformed) }
    else if 0xD800 ≤ n ∧ n ≤ 0xDBFF then { p with high := some n }
    else { p with chars := Char.ofNat n :: p.chars }

/-- The text, now that its closing quote has come. -/
def finish (p : Progress) : Except Error String :=
  let q := p.settle
  match q.fault with
  | some e => .error e
  | none => .ok (String.ofList q.chars.reverse)

/-- The break of a text that goes wrong here. -/
def cut (p : Progress) (e : Error) : Break :=
  ⟨p.fault.getD e, e⟩

end Progress

/-- The rest of a text after its opening quote, and what follows the text. -/
def scanText (p : Progress) : List Char → Except Break (Except Error String × List Char)
  | [] => .error (p.cut .truncated)
  | '\x22' :: cs => .ok (p.finish, cs)
  | '\\' :: 'u' :: a :: b :: c :: d :: cs =>
    match codeUnit? a b c d with
    | some n => scanText (p.pushUnit n) cs
    | none => .error (p.cut .malformed)
  | '\\' :: 'u' :: cs =>
    .error (p.cut (if (String.ofList cs).utf8ByteSize < 4 then .truncated else .malformed))
  | ['\\'] => .error (p.cut .truncated)
  | '\\' :: e :: cs =>
    match escape? e with
    | some c => scanText (p.push c) cs
    | none => .error (p.settle.cut .malformed)
  | c :: cs =>
    if c.toNat < 0x20 then .error (p.settle.cut .malformed) else scanText (p.push c) cs

/-! ### Documents -/

mutual

/-- The document at the front, which starts at a character that is not blank. -/
def scanDocument : Nat → List Char → Document × List Char
  | 0, _ => (.broken (.both .malformed), [])
  | _ + 1, [] => (.broken (.both .truncated), [])
  | fuel + 1, c :: cs =>
    if c = 'n' then
      match expect "ull".toList cs with
      | .ok rest => (.null, rest)
      | .error e => (.broken (.both e), [])
    else if c = 't' then
      match expect "rue".toList cs with
      | .ok rest => (.bool true, rest)
      | .error e => (.broken (.both e), [])
    else if c = 'f' then
      match expect "alse".toList cs with
      | .ok rest => (.bool false, rest)
      | .error e => (.broken (.both e), [])
    else if c = '\x22' then
      match scanText {} cs with
      | .ok (s, rest) => (.text s, rest)
      | .error b => (.broken b, [])
    else if c = '[' then
      match skipBlanks cs with
      | ']' :: rest => (.array [] none, rest)
      | [] => (.array [] (some (.both .truncated)), [])
      | rest => scanItems fuel [] rest
    else if c = '\x7b' then
      match skipBlanks cs with
      | '\x7d' :: rest => (.object [] none, rest)
      | [] => (.object [] (some (.both .truncated)), [])
      | rest => scanMembers fuel [] rest
    else
      let number := if c = '-' then scanUnsigned true cs
        else if c.isDigit then scanUnsigned false (c :: cs)
        else .error (.both .malformed)
      match number with
      | .ok (n, rest) => (.number n, rest)
      | .error b => (.broken b, [])

/-- An array from an item on; the items before it come last first. -/
def scanItems : Nat → List Document → List Char → Document × List Char
  | 0, items, _ => (.array items.reverse (some (.both .malformed)), [])
  | fuel + 1, items, cs =>
    let (item, rest) := scanDocument fuel cs
    match item with
    | .broken _ => (.array (item :: items).reverse none, [])
    | _ =>
      match skipBlanks rest with
      | ']' :: rest => (.array (item :: items).reverse none, rest)
      | ',' :: rest => scanItems fuel (item :: items) (skipBlanks rest)
      | [] => (.array (item :: items).reverse (some (.both .truncated)), [])
      | _ => (.array (item :: items).reverse (some (.both .malformed)), [])

/-- An object from a key on; the members before it come last first. -/
def scanMembers : Nat → List (Except Error String × Document) → List Char → Document × List Char
  | 0, members, _ => (.object members.reverse (some (.both .malformed)), [])
  | fuel + 1, members, cs =>
    match cs with
    | '\x22' :: cs =>
      match scanText {} cs with
      | .error b => (.object members.reverse (some b), [])
      | .ok (key, rest) =>
        let (value, rest) := match skipBlanks rest with
          | ':' :: rest => scanDocument fuel (skipBlanks rest)
          | [] => (.broken (.both .truncated), [])
          | _ => (.broken (.both .malformed), [])
        match value with
        | .broken _ => (.object ((key, value) :: members).reverse none, [])
        | _ =>
          match skipBlanks rest with
          | '\x7d' :: rest => (.object ((key, value) :: members).reverse none, rest)
          | ',' :: rest => scanMembers fuel ((key, value) :: members) (skipBlanks rest)
          | [] => (.object ((key, value) :: members).reverse (some (.both .truncated)), [])
          | _ => (.object ((key, value) :: members).reverse (some (.both .malformed)), [])
    | [] => (.object members.reverse (some (.both .truncated)), [])
    | _ => (.object members.reverse (some (.both .malformed)), [])

end

/-- A text as a document, and what follows the document. No character is looked at by more
than two scans that call one another, so the text's length bounds them. -/
def Document.ofText (s : String) : Document × List Char :=
  let cs := skipBlanks s.toList
  scanDocument (2 * cs.length + 1) cs

end Corelink.Json
