import Corelink.Proofs.Decimal
import Corelink.Proofs.Toml.Text
import Corelink.Toml.Document

/-!
# Scalars read back

Decimal digits up to the end of a line are no date, no time and no float, so they are read as the
integer that they spell (`scanNumber_toDigits`). With that every scalar that is written on a line is
read back (`scanValue_render`). A scalar is written unless it is a number that is too great
(`Scalar.render?_eq_some_iff`).
-/

namespace Corelink.Toml

open Decimal (all_isDigit_toDigits ne_of_isDigit ofDigits_toDigits toDigits_eq_cons)

variable {ds rest : List Char} {n : Nat}

/-! ### Decimal digits -/

theorem scanDigits_append (hne : ds ≠ []) (h : ∀ c ∈ ds, c.isDigit = true) (rest : List Char) :
    scanDigits Char.isDigit (ds ++ '\n' :: rest) = some (ds, '\n' :: rest) := by
  induction ds with
  | nil => exact absurd rfl hne
  | cons c ds ih =>
    have hc := h c List.mem_cons_self
    cases ds with
    | nil => simp [scanDigits, hc]
    | cons d ds =>
      have hd := h d (List.mem_cons_of_mem _ List.mem_cons_self)
      have hunderscore : d ≠ '_' := ne_of_isDigit hd (by decide)
      have hrest := ih (List.cons_ne_nil _ _) fun e he => h e (List.mem_cons_of_mem _ he)
      rw [List.cons_append] at hrest ⊢
      rw [List.cons_append, scanDigits]
      · simp [hc, hd, hrest]
      · exact hunderscore

theorem scanSign_of_isDigit {c : Char} (h : c.isDigit = true) (cs : List Char) :
    scanSign (c :: cs) = (false, c :: cs) := by
  unfold scanSign
  split
  · next heq => exact absurd (List.cons.inj heq).1 (ne_of_isDigit h (by decide))
  · next heq => exact absurd (List.cons.inj heq).1 (ne_of_isDigit h (by decide))
  · rfl

theorem scanDecimal_toDigits (n : Nat) (rest : List Char) :
    scanDecimal (Nat.toDigits 10 n ++ '\n' :: rest) =
      some (false, Nat.toDigits 10 n, '\n' :: rest) := by
  by_cases hn : n = 0
  · subst hn
    rfl
  · have hall := all_isDigit_toDigits n
    obtain ⟨c, cs, heq, hne⟩ := toDigits_eq_cons hn
    rw [heq] at hall ⊢
    have hdigits := scanDigits_append (List.cons_ne_nil c cs) hall rest
    rw [List.cons_append] at hdigits ⊢
    rw [scanDecimal, scanSign_of_isDigit (hall c List.mem_cons_self)]
    simp only
    split
    · next heq' => exact absurd (List.cons.inj heq').1 hne
    · rw [hdigits]
      rfl

/-! ### What digits are not -/

theorem scanMark_of_digits {c : Char} (h : ∀ d ∈ ds, d.isDigit = true) (hc : c.isDigit = false)
    (hn : c ≠ '\n') (rest : List Char) : scanMark c (ds ++ '\n' :: rest) = none := by
  cases ds with
  | nil => exact if_neg hn
  | cons d ds => exact if_neg fun heq => ne_of_isDigit (h d List.mem_cons_self) hc heq.symm

theorem scanPart_append {k lo hi v : Nat} {r : List Char}
    (h : scanPart k lo hi (ds ++ '\n' :: rest) = some (v, r)) :
    r = ds.drop k ++ '\n' :: rest := by
  unfold scanPart at h
  delta guard at h
  simp only [bind, Option.bind_eq_some_iff] at h
  obtain ⟨_, hdigits, _, -, hr⟩ := h
  split at hdigits
  · next hall =>
    simp only [Bool.and_eq_true, decide_eq_true_eq] at hall
    have hk : k ≤ ds.length := by
      -- otherwise the line end is among them
      refine Nat.le_of_not_lt fun hlt => ?_
      have hmem : '\n' ∈ (ds ++ '\n' :: rest).take k := by
        rw [List.take_append, List.mem_append]
        refine .inr ?_
        obtain ⟨j, hj⟩ := Nat.exists_eq_add_one_of_ne_zero (show k - ds.length ≠ 0 by omega)
        rw [hj, List.take_succ_cons]
        exact List.mem_cons_self
      exact absurd (List.all_eq_true.1 hall.2 _ hmem) (by decide)
    rw [← (Prod.mk.inj (Option.some.inj hr)).2, List.drop_append_of_le_length hk]
  · cases hdigits

/-- A part of a date or of a time has a mark behind it, and digits have none. -/
theorem scanPart_bind {α : Type} {c : Char} {f : Nat × List Char → Option α}
    (h : ∀ d ∈ ds, d.isDigit = true) (hc : c.isDigit = false) (hn : c ≠ '\n')
    (hf : ∀ v r, scanMark c r = none → f (v, r) = none) (rest : List Char) (k lo hi : Nat) :
    (scanPart k lo hi (ds ++ '\n' :: rest)).bind f = none := by
  cases hp : scanPart k lo hi (ds ++ '\n' :: rest) with
  | none => rfl
  | some r =>
    obtain ⟨v, r⟩ := r
    have hleft : ∀ d ∈ ds.drop k, d.isDigit = true := fun d hd => h d (List.mem_of_mem_drop hd)
    refine hf v r ?_
    rw [scanPart_append hp, scanMark_of_digits hleft hc hn]

theorem scanDate_of_digits (h : ∀ d ∈ ds, d.isDigit = true) (rest : List Char) :
    scanDate (ds ++ '\n' :: rest) = none := by
  have hday : scanDay (ds ++ '\n' :: rest) = none :=
    scanPart_bind (c := '-') h (by decide) (by decide) (fun v r hr => by simp [hr]) rest 4 0 9999
  have htime : scanTime (ds ++ '\n' :: rest) = none :=
    scanPart_bind (c := ':') h (by decide) (by decide) (fun v r hr => by simp [hr]) rest 2 0 23
  rw [scanDate, hday, htime]
  rfl

theorem scanFinite_toDigits (n : Nat) (rest : List Char) :
    scanFinite (Nat.toDigits 10 n ++ '\n' :: rest) = none := by
  rw [scanFinite, scanDecimal_toDigits]
  rfl

theorem scanSpecial_of_digits (h : ∀ d ∈ ds, d.isDigit = true) (rest : List Char) :
    scanSpecial (ds ++ '\n' :: rest) = none := by
  cases ds with
  | nil => rfl
  | cons d ds =>
    have hd := h d List.mem_cons_self
    rw [List.cons_append, scanSpecial, scanSign_of_isDigit hd]
    simp only
    split
    · next heq => exact absurd (List.cons.inj heq).1 (ne_of_isDigit hd (by decide))
    · next heq => exact absurd (List.cons.inj heq).1 (ne_of_isDigit hd (by decide))
    · rfl

theorem scanInteger_toDigits (h : n ≤ maxInteger) (rest : List Char) :
    scanInteger (Nat.toDigits 10 n ++ '\n' :: rest) = some (.integer n, '\n' :: rest) := by
  have hdecimal := scanDecimal_toDigits n rest
  have hvalue := ofDigits_toDigits n
  -- no base stands in front
  have hbase : ∀ {b more}, Nat.toDigits 10 n ++ '\n' :: rest = '0' :: b :: more → b = '\n' := by
    intro b more heq
    by_cases hn : n = 0
    · subst hn
      exact (List.cons.inj (List.cons.inj heq).2).1.symm
    · obtain ⟨c, cs, hcons, hne⟩ := toDigits_eq_cons hn
      rw [hcons] at heq
      exact absurd (List.cons.inj heq).1 hne
  unfold scanInteger
  split
  · next heq => cases hbase heq
  · next heq => cases hbase heq
  · next heq => cases hbase heq
  · rw [hdecimal]
    delta guard
    simp [hvalue, h]

theorem scanNumber_toDigits (h : n ≤ maxInteger) (rest : List Char) :
    scanNumber (Nat.toDigits 10 n ++ '\n' :: rest) = some (.integer n, '\n' :: rest) := by
  rw [scanNumber, scanDate_of_digits (all_isDigit_toDigits n), scanFinite_toDigits,
    scanSpecial_of_digits (all_isDigit_toDigits n), scanInteger_toDigits h]
  rfl

/-! ### Scalars -/

/-- The value that a scalar is read as. -/
def Scalar.value : Scalar → Value
  | .bool b => .bool b
  | .natural n => .integer n
  | .text s => .text s

/-- Whether a document can hold it. -/
def Scalar.Fits : Scalar → Prop
  | .bool _ | .text _ => True
  | .natural n => n ≤ maxInteger

/-- How a scalar is spelled, a number that is too great as well. -/
def Scalar.render : Scalar → List Char
  | .bool true => "true".toList
  | .bool false => "false".toList
  | .natural n => Nat.toDigits 10 n
  | .text s => renderText s

/-- A scalar is written just if a document can hold it, and then as it is spelled. -/
theorem Scalar.render?_eq_some_iff {v : Scalar} {cs : List Char} :
    v.render? = some cs ↔ v.Fits ∧ cs = v.render := by
  cases v with
  | bool b => cases b <;> simp [render?, render, Fits, eq_comm]
  | natural n => simp [render?, render, Fits, eq_comm]
  | text s => simp [render?, render, Fits, eq_comm]

/-- Only numbers are ever too much for a document. -/
theorem Scalar.not_fits_iff {v : Scalar} : ¬ v.Fits ↔ ∃ n, v = .natural n ∧ maxInteger < n := by
  cases v with
  | bool b => simp [Fits]
  | natural n => simp [Fits]
  | text s => simp [Fits]

theorem scanText_of_ne {c : Char} (hdouble : c ≠ '\x22') (hsingle : c ≠ '\x27') (cs : List Char) :
    scanText (c :: cs) = none := by
  unfold scanText
  split
  · next heq => exact absurd (List.cons.inj heq).1 hdouble
  · next heq => exact absurd (List.cons.inj heq).1 hdouble
  · next heq => exact absurd (List.cons.inj heq).1 hsingle
  · next heq => exact absurd (List.cons.inj heq).1 hsingle
  · rfl

theorem scanBool_of_ne {c : Char} (ht : c ≠ 't') (hf : c ≠ 'f') (cs : List Char) :
    scanBool (c :: cs) = none := by
  unfold scanBool
  split
  · next heq => exact absurd (List.cons.inj heq).1 ht
  · next heq => exact absurd (List.cons.inj heq).1 hf
  · rfl

theorem scanScalar_render {v : Scalar} (h : v.Fits) (rest : List Char) :
    scanScalar (v.render ++ '\n' :: rest) = some (v.value, '\n' :: rest) := by
  cases v with
  | bool b =>
    cases b <;> rfl
  | natural n =>
    have hall := all_isDigit_toDigits n
    have hnumber := scanNumber_toDigits h rest
    rw [Scalar.render]
    cases hdigits : Nat.toDigits 10 n with
    | nil => exact absurd hdigits Nat.toDigits_ne_nil
    | cons c cs =>
      rw [hdigits, List.cons_append] at hnumber
      have hc := hall c (hdigits ▸ List.mem_cons_self)
      rw [List.cons_append, scanScalar, scanText_of_ne (ne_of_isDigit hc (by decide))
        (ne_of_isDigit hc (by decide)), scanBool_of_ne (ne_of_isDigit hc (by decide))
        (ne_of_isDigit hc (by decide)), hnumber]
      rfl
  | text s =>
    rw [Scalar.render, scanScalar, scanText_renderText]
    rfl

theorem Scalar.render_eq_cons (v : Scalar) : ∃ c cs, v.render = c :: cs ∧ isBlank c = false ∧
    c ≠ '[' ∧ c ≠ '\x7b' := by
  cases v with
  | bool b =>
    cases b
    · exact ⟨'f', _, rfl, by decide, by decide, by decide⟩
    · exact ⟨'t', _, rfl, by decide, by decide, by decide⟩
  | natural n =>
    cases hdigits : Nat.toDigits 10 n with
    | nil => exact absurd hdigits Nat.toDigits_ne_nil
    | cons c cs =>
      have hc := all_isDigit_toDigits n c (hdigits ▸ List.mem_cons_self)
      refine ⟨c, cs, hdigits, ?_, ne_of_isDigit hc (by decide), ne_of_isDigit hc (by decide)⟩
      simp only [isBlank, Bool.or_eq_false_iff, decide_eq_false_iff_not]
      exact ⟨ne_of_isDigit hc (by decide), ne_of_isDigit hc (by decide)⟩
  | text s =>
    simp only [render, renderText]
    cases Form.choose s.toList with
    | basic | longBasic => exact ⟨'\x22', _, rfl, by decide, by decide, by decide⟩
    | literal | longLiteral => exact ⟨'\x27', _, rfl, by decide, by decide, by decide⟩

/-- **A scalar is read back** from its line. -/
theorem scanValue_render {v : Scalar} (h : v.Fits) (fuel depth : Nat) (rest : List Char) :
    scanValue (fuel + 1) depth (v.render ++ '\n' :: rest) = some (v.value, '\n' :: rest) := by
  have hscalar := scanScalar_render h rest
  obtain ⟨c, cs, heq, -, hbracket, hbrace⟩ := v.render_eq_cons
  rw [heq, List.cons_append] at hscalar ⊢
  rw [scanValue]
  · exact hscalar
  · exact fun more h => absurd (List.cons.inj h).1 hbracket
  · exact fun more h => absurd (List.cons.inj h).1 hbrace

end Corelink.Toml
