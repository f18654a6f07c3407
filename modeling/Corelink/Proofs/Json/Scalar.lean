import Corelink.Json.Document
import Corelink.Proofs.Decimal

/-!
# Texts and numbers are scanned

A text may be written in many ways: each of its characters as itself, as a letter after a backslash,
or as code units in hexadecimal digits (`Glyph`). However it is written, it is scanned up to its
closing quote (`scanText_spell`), and what is written of a text is one of these ways
(`Glyph.exists_quoted`). A number is scanned as it is spelled, wherever no more digits follow
(`scanUnsigned_spell`).
-/

namespace Corelink.Json

open Text (hexDigit hexValue? hexValue?_hexDigit)

variable {c : Char} {rest : List Char}

/-! ### Texts -/

/-- A piece of a text between its quotes. -/
inductive Glyph where
  /-- A character that stands for itself. -/
  | plain (c : Char) (h : 0x20 ≤ c.toNat ∧ c ≠ '\x22' ∧ c ≠ '\\')
  /-- A character given by a letter. -/
  | letter (e c : Char) (h : escape? e = some c)
  /-- A code unit given by its digits. -/
  | unit (a b c d : Char) (n : Nat) (h : codeUnit? a b c d = some n)

namespace Glyph

def spell : Glyph → List Char
  | plain c _ => [c]
  | letter e _ _ => ['\\', e]
  | unit a b c d _ _ => ['\\', 'u', a, b, c, d]

/-- A text under way, and this piece of it. -/
def add (p : Progress) : Glyph → Progress
  | plain c _ => p.push c
  | letter _ c _ => p.push c
  | unit _ _ _ _ n _ => p.pushUnit n

/-- The text of these pieces; its fault, if a surrogate in it has no partner. -/
def text (gs : List Glyph) : Except Error String :=
  (gs.foldl add {}).finish

/-- The text as it is written. -/
def quoted (gs : List Glyph) : List Char :=
  '\x22' :: (gs.flatMap spell ++ ['\x22'])

end Glyph

theorem scanText_glyph (p : Progress) (g : Glyph) (rest : List Char) :
    scanText p (g.spell ++ rest) = scanText (g.add p) rest := by
  cases g with
  | plain c h =>
    obtain ⟨hcontrol, hquote, hback⟩ := h
    rw [Glyph.spell, List.singleton_append, scanText, if_neg (Nat.not_lt.2 hcontrol)]
    · rfl
    · exact hquote
    all_goals
      intros
      exact hback ‹_›
  | letter e c h =>
    rw [Glyph.spell, List.cons_append, List.singleton_append, scanText, h]
    · rfl
    -- the letter of a code unit gives no character by itself
    all_goals
      intros
      subst_vars
      cases h
  | unit a b c d n h =>
    simp only [Glyph.spell, List.cons_append, List.nil_append, scanText, h]
    rfl

/-- **A text is scanned** up to its closing quote, however it is written. -/
theorem scanText_spell (gs : List Glyph) (p : Progress) (rest : List Char) :
    scanText p (gs.flatMap Glyph.spell ++ '\x22' :: rest) =
      .ok ((gs.foldl Glyph.add p).finish, rest) := by
  induction gs generalizing p with
  | nil => rw [List.flatMap_nil, List.nil_append, scanText, List.foldl_nil]
  | cons g gs ih =>
    rw [List.flatMap_cons, List.append_assoc, scanText_glyph, ih, List.foldl_cons]

theorem codeUnit?_control (h : c.toNat < 0x20) :
    codeUnit? '0' '0' (hexDigit false (c.toNat / 16)) (hexDigit false (c.toNat % 16)) =
      some c.toNat := by
  have hzero : hexValue? '0' = some 0 := rfl
  rw [codeUnit?, hzero, hexValue?_hexDigit false (c.toNat / 16) (by omega),
    hexValue?_hexDigit false (c.toNat % 16) (by omega)]
  show some _ = some _
  congr 1
  omega

theorem Progress.pushUnit_control (acc : List Char) (h : c.toNat < 0x20) :
    Progress.pushUnit { chars := acc } c.toNat = { chars := c :: acc } := by
  simp only [pushUnit]
  rw [if_neg (by omega), if_neg (by omega), Char.ofNat_toNat]

namespace Glyph

theorem exists_spell (c : Char) :
    ∃ g : Glyph, g.spell = renderChar c ∧
      ∀ acc, g.add { chars := acc } = { chars := c :: acc } := by
  have escaped {e : Char} (he : escape? e = some c) : ∃ g : Glyph, g.spell = ['\\', e] ∧
      ∀ acc, g.add { chars := acc } = { chars := c :: acc } := ⟨.letter e c he, rfl, fun _ => rfl⟩
  unfold renderChar
  split
  · next h => exact escaped (by rw [h]; rfl)
  split
  · next h => exact escaped (by rw [h]; rfl)
  split
  · next h => exact escaped (by rw [h]; rfl)
  split
  · next h => exact escaped (by rw [h]; rfl)
  split
  · next h => exact escaped (by rw [h]; rfl)
  split
  · next h => exact escaped (by rw [h]; rfl)
  split
  · next h => exact escaped (by rw [h]; rfl)
  split
  · next h =>
    exact ⟨.unit _ _ _ _ _ (codeUnit?_control h), rfl, fun acc => Progress.pushUnit_control acc h⟩
  · next hquote hback _ _ _ _ _ hcontrol =>
    exact ⟨.plain c ⟨Nat.not_lt.1 hcontrol, hquote, hback⟩, rfl, fun _ => rfl⟩

theorem exists_flatMap_spell (cs : List Char) :
    ∃ gs : List Glyph, gs.flatMap spell = cs.flatMap renderChar ∧
      ∀ acc, gs.foldl add { chars := acc } = { chars := cs.reverse ++ acc } := by
  induction cs with
  | nil => exact ⟨[], rfl, fun _ => rfl⟩
  | cons c cs ih =>
    obtain ⟨g, hg, hadd⟩ := exists_spell c
    obtain ⟨gs, hgs, hall⟩ := ih
    refine ⟨g :: gs, by rw [List.flatMap_cons, List.flatMap_cons, hg, hgs], fun acc => ?_⟩
    rw [List.foldl_cons, hadd, hall, List.reverse_cons, List.append_assoc, List.singleton_append]

/-- **What is written of a text stands for it**, whatever it holds. -/
theorem exists_quoted (s : String) : ∃ gs, quoted gs = renderText s ∧ text gs = .ok s := by
  obtain ⟨gs, hspell, hall⟩ := exists_flatMap_spell s.toList
  refine ⟨gs, by rw [quoted, hspell, renderText, List.cons_append], ?_⟩
  rw [text, show ({} : Progress) = { chars := [] } from rfl, hall, List.append_nil]
  show Except.ok (String.ofList s.toList.reverse.reverse) = _
  rw [List.reverse_reverse, String.ofList_toList]

end Glyph

/-! ### Numbers -/

/-- At least one digit, and nothing else. -/
def Digits (ds : List Char) : Prop :=
  ds ≠ [] ∧ ∀ d ∈ ds, d.isDigit = true

/-- Nothing here goes on with a number. -/
def Stops (rest : List Char) : Prop :=
  ∀ c ∈ rest.head?, c.isDigit = false ∧ c ≠ '.' ∧ c ≠ 'e' ∧ c ≠ 'E'

/-- Digits wherever the form asks for them, and no zero before another digit. -/
structure Number.WellFormed (n : Number) : Prop where
  whole : Digits n.whole
  leading : n.whole.head? = some '0' → n.whole.length = 1
  fraction : ∀ ds ∈ n.fraction, Digits ds
  exponent : ∀ e ∈ n.exponent, Digits e.digits

theorem Number.wellFormed_ofNat (n : Nat) : (ofNat n).WellFormed where
  whole := ⟨Nat.toDigits_ne_nil, Decimal.all_isDigit_toDigits n⟩
  leading := by
    show (Nat.toDigits 10 n).head? = some '0' → (Nat.toDigits 10 n).length = 1
    by_cases h : n = 0
    · subst h
      exact fun _ => rfl
    · obtain ⟨c, cs, heq, hne⟩ := Decimal.toDigits_eq_cons h
      rw [heq]
      exact fun hc => absurd (Option.some.inj hc) hne
  fraction := by rintro _ ⟨⟩
  exponent := by rintro _ ⟨⟩

theorem Number.toNat?_ofNat (n : Nat) : (ofNat n).toNat? = some n :=
  congrArg some (Decimal.ofDigits_toDigits n)

theorem Digits.isEmpty {ds : List Char} (h : Digits ds) : ds.isEmpty = false :=
  List.isEmpty_eq_false_iff.2 h.1

theorem Digits.span {ds : List Char} (h : Digits ds)
    (hrest : ∀ c ∈ rest.head?, c.isDigit = false) :
    (ds ++ rest).takeWhile Char.isDigit = ds ∧ (ds ++ rest).dropWhile Char.isDigit = rest := by
  rw [List.takeWhile_append_of_pos h.2, List.dropWhile_append_of_pos h.2]
  cases rest with
  | nil => exact ⟨List.append_nil ds, rfl⟩
  | cons c cs =>
    have hc : ¬c.isDigit = true := Bool.eq_false_iff.1 (hrest c rfl)
    rw [List.takeWhile_cons_of_neg hc, List.dropWhile_cons_of_neg hc]
    exact ⟨List.append_nil ds, rfl⟩

theorem scanExponent_of_stops (h : Stops rest) : scanExponent rest = .ok (none, rest) := by
  cases rest with
  | nil => rfl
  | cons c cs =>
    obtain ⟨-, -, he, hE⟩ := h c rfl
    simp only [scanExponent, he, hE, decide_false, Bool.or_self, Bool.false_eq_true, if_false]

theorem scanExponent_spell {letter : Char} (hletter : letter = 'e' ∨ letter = 'E') {e : Exponent}
    (he : Digits e.digits) (h : Stops rest) :
    scanExponent (letter :: (e.render.tail ++ rest)) = .ok (some e, rest) := by
  obtain ⟨sign, ds⟩ := e
  obtain ⟨hdigits, hrest⟩ := he.span fun c hc => (h c hc).1
  have hempty := he.isEmpty
  have hboth : (letter = 'e' || letter = 'E') = true := by simpa using hletter
  simp only at hdigits hrest hempty
  cases sign with
  | some negative =>
    cases negative <;>
      simp only [scanExponent, Exponent.render, List.cons_append, List.nil_append, List.tail_cons,
        hboth, if_true, hdigits, hrest, hempty, Bool.false_eq_true, if_false]
  | none =>
    -- a digit is no sign
    obtain ⟨d, ds, rfl⟩ := List.exists_cons_of_ne_nil he.1
    have hd : d.isDigit = true := he.2 d List.mem_cons_self
    rw [List.cons_append] at hdigits hrest
    show scanExponent (letter :: d :: (ds ++ rest)) = _
    rw [scanExponent]
    · simp only [hdigits, hrest, hempty, hboth, if_pos, Bool.false_eq_true, if_false]
    all_goals
      rintro r ⟨⟩
      exact absurd hd (by decide)

namespace Number

/-- How a fraction is spelled, if there is one. -/
def fractionPart (f : Option (List Char)) : List Char :=
  match f with
  | none => []
  | some ds => '.' :: ds

/-- How an exponent is spelled with this letter, if there is one. -/
def exponentPart (letter : Char) (e : Option Exponent) : List Char :=
  match e with
  | none => []
  | some e => letter :: e.render.tail

/-- The number without its sign, with this letter before its exponent. -/
def unsigned (letter : Char) (n : Number) : List Char :=
  n.whole ++ (fractionPart n.fraction ++ exponentPart letter n.exponent)

/-- The number with this letter before its exponent. -/
def spell (letter : Char) (n : Number) : List Char :=
  (if n.negative then ['-'] else []) ++ n.unsigned letter

theorem render_eq_spell (n : Number) : n.render = n.spell 'e' := by
  obtain ⟨negative, whole, fraction, exponent⟩ := n
  cases fraction <;> cases exponent <;> simp [render, spell, unsigned, fractionPart, exponentPart,
    Exponent.render]

theorem spell_of_negative {n : Number} (h : n.negative = true) (letter : Char) :
    n.spell letter = '-' :: n.unsigned letter := by
  rw [spell, h, if_pos rfl, List.singleton_append]

theorem spell_of_not_negative {n : Number} (h : n.negative = false) (letter : Char) :
    n.spell letter = n.unsigned letter := by
  rw [spell, h, if_neg Bool.false_ne_true, List.nil_append]

variable {f : Option (List Char)} {e : Option Exponent} {letter : Char}
  (hletter : letter = 'e' ∨ letter = 'E')

include hletter in
theorem head?_exponentPart (h : Stops rest) :
    ∀ c ∈ (exponentPart letter e ++ rest).head?, c.isDigit = false ∧ c ≠ '.' := by
  cases e with
  | none => exact fun c hc => ⟨(h c hc).1, (h c hc).2.1⟩
  | some e =>
    rintro _ ⟨⟩
    obtain rfl | rfl := hletter <;> decide

theorem head?_fractionPart (h : ∀ c ∈ rest.head?, c.isDigit = false ∧ c ≠ '.') :
    ∀ c ∈ (fractionPart f ++ rest).head?, c.isDigit = false := by
  cases f with
  | none => exact fun c hc => (h c hc).1
  | some ds =>
    rintro _ ⟨⟩
    decide

include hletter in
theorem scanExponent_exponentPart (he : ∀ x ∈ e, Digits x.digits) (h : Stops rest) :
    scanExponent (exponentPart letter e ++ rest) = .ok (e, rest) := by
  cases e with
  | none => exact scanExponent_of_stops h
  | some e => exact scanExponent_spell hletter (he e rfl) h

theorem scanFraction_fractionPart (hf : ∀ ds ∈ f, Digits ds)
    (h : ∀ c ∈ rest.head?, c.isDigit = false ∧ c ≠ '.') :
    scanFraction (fractionPart f ++ rest) = .ok (f, rest) := by
  cases f with
  | none =>
    rw [fractionPart, List.nil_append]
    unfold scanFraction
    split
    · exact absurd rfl (h '.' rfl).2
    · rfl
  | some ds =>
    obtain ⟨hdigits, hrest⟩ := (hf ds rfl).span fun c hc => (h c hc).1
    simp only [fractionPart, List.cons_append, scanFraction, hdigits, hrest,
      (hf ds rfl).isEmpty, Bool.false_eq_true, if_false]

end Number

/-- **A number is scanned** as it is spelled, after its sign and wherever it ends. -/
theorem scanUnsigned_spell {letter : Char} (hletter : letter = 'e' ∨ letter = 'E') {n : Number}
    (hn : n.WellFormed) (h : Stops rest) :
    scanUnsigned n.negative (n.unsigned letter ++ rest) = .ok (n, rest) := by
  have hafter := Number.head?_exponentPart hletter (e := n.exponent) h
  obtain ⟨hwhole, hrest⟩ := hn.whole.span (Number.head?_fractionPart (f := n.fraction) hafter)
  have hleading : (n.whole.head? = some '0' && n.whole.length > 1) = false := by
    rw [Bool.and_eq_false_imp]
    intro hzero
    rw [hn.leading (of_decide_eq_true hzero)]
    rfl
  rw [Number.unsigned, List.append_assoc, List.append_assoc, scanUnsigned]
  simp only [hwhole, hrest, hn.whole.isEmpty, hleading, Bool.false_eq_true, if_false,
    Number.scanFraction_fractionPart hn.fraction hafter,
    Number.scanExponent_exponentPart hletter hn.exponent h, bind, Except.bind, pure, Except.pure]

end Corelink.Json
