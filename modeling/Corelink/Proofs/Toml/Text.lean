import Corelink.Toml.Printer
import Corelink.Toml.Scalar

/-!
# Texts read back

Whatever form a text is written in, it is read back from there (`scanText_renderText`). Between
double quotes the escapes of a character name that character (`Escapes`), so any text can stand
there. A long text ends at its first three quotes in a row; the printer leaves no such run inside,
and up to two quotes before the closing ones belong to the text (`closing?_append`).
-/

namespace Corelink.Toml

open Text (hexDigit hexValue? hexValue?_hexDigit)

/-! ### Runs of quotes -/

variable {q : Char} {cs rest : List Char}

/-- The quotes at the front. -/
def frontRun (q : Char) (cs : List Char) : Nat :=
  (cs.takeWhile (· = q)).length

theorem frontRun_cons_self (q : Char) (cs : List Char) :
    frontRun q (q :: cs) = frontRun q cs + 1 := by
  simp [frontRun]

theorem frontRun_cons_of_ne {c : Char} (h : c ≠ q) (cs : List Char) : frontRun q (c :: cs) = 0 := by
  simp [frontRun, h]

theorem frontRun_le_longestRun (q : Char) (cs : List Char) (now : Nat) :
    now + frontRun q cs ≤ longestRun q cs now := by
  induction cs generalizing now with
  | nil => exact Nat.le_refl now
  | cons c cs ih =>
    rw [longestRun]
    split
    · next h =>
      subst h
      have := ih (now + 1)
      rw [frontRun_cons_self]
      omega
    · next h =>
      rw [frontRun_cons_of_ne h]
      exact Nat.le_max_left _ _

theorem longestRun_mono (q : Char) (cs : List Char) {now later : Nat} (h : now ≤ later) :
    longestRun q cs now ≤ longestRun q cs later := by
  induction cs generalizing now later with
  | nil => exact h
  | cons c cs ih =>
    simp only [longestRun]
    split
    · exact ih (Nat.succ_le_succ h)
    · omega

theorem longestRun_tail_le (q c : Char) (cs : List Char) :
    longestRun q cs 0 ≤ longestRun q (c :: cs) 0 := by
  rw [longestRun]
  split
  · exact longestRun_mono q cs (Nat.zero_le _)
  · exact Nat.le_max_right _ _

theorem ne_of_longestRun_eq_zero (h : longestRun q cs 0 = 0) : ∀ c ∈ cs, c ≠ q := by
  induction cs with
  | nil => exact nofun
  | cons c cs ih =>
    have hfront := frontRun_le_longestRun q (c :: cs) 0
    have htail := longestRun_tail_le q c cs
    intro d hd
    obtain rfl | hd := List.mem_cons.1 hd
    · rintro rfl
      rw [frontRun_cons_self] at hfront
      omega
    · exact ih (by omega) d hd

/-- Where a long text has at most two quotes next, it ends if nothing else is left of it, and goes
on otherwise. -/
theorem closing?_append (h : frontRun q cs ≤ 2) (hq : q ≠ '\n') (rest : List Char) :
    closing? q (cs ++ q :: q :: q :: '\n' :: rest) =
      if cs.all (· = q) then some (cs, '\n' :: rest) else none := by
  have hne : ('\n' : Char) ≠ q := Ne.symm hq
  rcases cs with _ | ⟨a, _ | ⟨b, _ | ⟨c, cs⟩⟩⟩
  · simp [closing?, hne]
  · by_cases ha : a = q <;> simp [closing?, ha, hne]
  · by_cases ha : a = q <;> by_cases hb : b = q <;> simp [closing?, ha, hb]
  · by_cases ha : a = q <;> by_cases hb : b = q <;> by_cases hc : c = q
    · subst ha hb hc
      simp only [frontRun_cons_self] at h
      omega
    all_goals simp [closing?, ha, hb, hc]

/-! ### Characters that stand for themselves -/

theorem isPlain_of_not_isControl {c : Char} (h : isControl c = false) (hn : c ≠ '\n') :
    isPlain c = true := by
  simp only [isControl, Bool.and_eq_false_iff, Bool.or_eq_false_iff, decide_eq_false_iff_not] at h
  simp only [isPlain, Bool.or_eq_true, Bool.and_eq_true, decide_eq_true_eq]
  obtain (⟨hlow, hdel⟩ | htab) | hnl := h
  · exact .inr ⟨by omega, hdel⟩
  · exact .inl (Decidable.not_not.1 htab)
  · exact absurd hn hnl

theorem newline?_cons_of_ne {c : Char} (hn : c ≠ '\n') (hr : c ≠ '\r') (cs : List Char) :
    newline? (c :: cs) = none := by
  unfold newline?
  split
  · next h => exact absurd (List.cons.inj h).1 hn
  · next h => exact absurd (List.cons.inj h).1 hr
  · rfl

theorem ne_cr_of_isPlain {c : Char} (h : isPlain c = true) : c ≠ '\r' := by
  rintro rfl
  revert h
  decide

theorem ne_newline_of_isPlain {c : Char} (h : isPlain c = true) : c ≠ '\n' := by
  rintro rfl
  revert h
  decide

/-! ### Texts between single quotes -/

theorem scanLiteral_append (h : ∀ c ∈ cs, isPlain c = true ∧ c ≠ '\x27') (rest : List Char) :
    scanLiteral (cs ++ '\x27' :: rest) = some (String.ofList cs, rest) := by
  have hall : ∀ c ∈ cs, (isPlain c && decide (c ≠ '\x27')) = true := by
    intro c hc
    obtain ⟨hp, hne⟩ := h c hc
    simp [hp, hne]
  unfold scanLiteral
  rw [List.dropWhile_append_of_pos hall, List.takeWhile_append_of_pos hall]
  simp

theorem scanLongLiteral_append (hrun : longestRun '\x27' cs 0 ≤ 2)
    (hplain : ∀ c ∈ cs, c = '\n' ∨ isPlain c = true) {fuel : Nat} (hfuel : cs.length < fuel)
    (acc rest : List Char) :
    scanLongLiteral fuel acc (cs ++ '\x27' :: '\x27' :: '\x27' :: '\n' :: rest) =
      some (String.ofList (acc.reverse ++ cs), '\n' :: rest) := by
  induction cs generalizing fuel acc with
  | nil =>
    obtain ⟨fuel, rfl⟩ := Nat.exists_eq_add_one_of_ne_zero (Nat.ne_of_gt hfuel)
    have hfront : frontRun '\x27' [] ≤ 2 := Nat.zero_le 2
    have hclose := closing?_append hfront (by decide) rest
    rw [List.nil_append] at hclose ⊢
    rw [scanLongLiteral, if_pos rfl, hclose, if_pos List.all_nil]
  | cons c cs ih =>
    obtain ⟨fuel, rfl⟩ := Nat.exists_eq_add_one_of_ne_zero (Nat.ne_of_gt (Nat.zero_lt_of_lt hfuel))
    have hfront := frontRun_le_longestRun '\x27' (c :: cs) 0
    have hfits : frontRun '\x27' (c :: cs) ≤ 2 := by omega
    have hclose := closing?_append hfits (by decide) rest
    -- what is left after this character, whatever the character is
    have hrest := ih (Nat.le_trans (longestRun_tail_le _ c cs) hrun)
      (fun d hd => hplain d (List.mem_cons_of_mem _ hd)) (Nat.lt_of_succ_lt_succ hfuel) (c :: acc)
    rw [List.reverse_cons, List.append_assoc, List.singleton_append] at hrest
    rw [List.cons_append] at hclose ⊢
    rw [scanLongLiteral]
    split
    · rw [hclose]
      by_cases hall : (c :: cs).all (· = '\x27') = true
      · rw [if_pos hall]
      · rw [if_neg hall]
        exact hrest
    · obtain rfl | hp := hplain c List.mem_cons_self
      · exact hrest
      · rw [newline?_cons_of_ne (ne_newline_of_isPlain hp) (ne_cr_of_isPlain hp)]
        simp only [hp, if_true]
        exact hrest

/-! ### Escapes -/

theorem scanHex_control {c : Char} (h : c.toNat < 0x80) (rest : List Char) :
    scanHex 4 ('0' :: '0' :: hexDigit true (c.toNat / 16) :: hexDigit true (c.toNat % 16) :: rest) =
      some (c, rest) := by
  have hzero : hexValue? '0' = some 0 := by decide
  have hhigh := hexValue?_hexDigit true (c.toNat / 16) (by omega)
  have hlow := hexValue?_hexDigit true (c.toNat % 16) (by omega)
  have hvalue : 16 * (c.toNat / 16) + c.toNat % 16 = c.toNat := Nat.div_add_mod _ _
  have hscalar : scalar? c.toNat = some c := by
    have hvalid : c.toNat.isValidChar := c.valid
    rw [scalar?, if_pos hvalid, Char.ofNat_toNat]
  unfold scanHex
  delta guard
  simp [hzero, hhigh, hlow, hvalue, hscalar]

/-- After a backslash, `es` names `c`, and does not end the line. -/
structure Escapes (es : List Char) (c : Char) : Prop where
  scan : ∀ rest, scanEscape (es ++ rest) = some (c, rest)
  stays : ∀ rest, continuation? (es ++ rest) = none

theorem continuation?_cons_of_ne {c : Char} (hb : isBlank c = false) (hn : c ≠ '\n')
    (hr : c ≠ '\r') (cs : List Char) : continuation? (c :: cs) = none := by
  have hskip : skipBlanks (c :: cs) = c :: cs := by simp [skipBlanks, hb]
  rw [continuation?, hskip, newline?_cons_of_ne hn hr, Option.map_none]

theorem Escapes.letter {e c : Char} (h : ∀ rest, scanEscape (e :: rest) = some (c, rest))
    (hb : isBlank e = false) (hn : e ≠ '\n') (hr : e ≠ '\r') : Escapes [e] c :=
  ⟨h, continuation?_cons_of_ne hb hn hr⟩

theorem Escapes.quote : Escapes ['\x22'] '\x22' :=
  .letter (fun _ => rfl) (by decide) (by decide) (by decide)

theorem escapeChar_cases (long : Bool) (c : Char) :
    (escapeChar long c = [c] ∧ c ≠ '\\' ∧ (isPlain c = true ∨ long = true ∧ c = '\n')) ∨
      ∃ es, escapeChar long c = '\\' :: es ∧ Escapes es c := by
  unfold escapeChar
  split
  · next h =>
    subst h
    exact .inr ⟨_, rfl, .letter (fun _ => rfl) (by decide) (by decide) (by decide)⟩
  split
  · next h =>
    subst h
    exact .inr ⟨_, rfl, .letter (fun _ => rfl) (by decide) (by decide) (by decide)⟩
  split
  · next h =>
    subst h
    cases long with
    | true => exact .inl ⟨rfl, by decide, .inr ⟨rfl, rfl⟩⟩
    | false => exact .inr ⟨_, rfl, .letter (fun _ => rfl) (by decide) (by decide) (by decide)⟩
  split
  · next h =>
    subst h
    exact .inr ⟨_, rfl, .letter (fun _ => rfl) (by decide) (by decide) (by decide)⟩
  split
  · next h =>
    subst h
    exact .inr ⟨_, rfl, .letter (fun _ => rfl) (by decide) (by decide) (by decide)⟩
  split
  · next h =>
    subst h
    exact .inr ⟨_, rfl, .letter (fun _ => rfl) (by decide) (by decide) (by decide)⟩
  split
  · next h =>
    simp only [Bool.or_eq_true, decide_eq_true_eq] at h
    refine .inr ⟨_, rfl, fun rest => ?_, fun rest => ?_⟩
    · exact scanHex_control (by omega) rest
    · exact continuation?_cons_of_ne (by decide) (by decide) (by decide) _
  · next hbackslash hcontrol =>
    simp only [Bool.or_eq_true, decide_eq_true_eq] at hcontrol
    refine .inl ⟨rfl, hbackslash, .inl ?_⟩
    simp only [isPlain, Bool.or_eq_true, Bool.and_eq_true, decide_eq_true_eq]
    omega

/-! ### Texts between double quotes -/

theorem scanBasic_escape {fuel : Nat} (run : Nat) (hfuel : (escape false cs run).length < fuel)
    (acc rest : List Char) :
    scanBasic fuel acc (escape false cs run ++ '\x22' :: rest) =
      some (String.ofList (acc.reverse ++ cs), rest) := by
  induction cs generalizing fuel run acc with
  | nil =>
    obtain ⟨fuel, rfl⟩ := Nat.exists_eq_add_one_of_ne_zero (Nat.ne_of_gt hfuel)
    rw [escape, List.nil_append, List.append_nil, scanBasic, if_pos rfl]
  | cons c cs ih =>
    obtain ⟨fuel, rfl⟩ := Nat.exists_eq_add_one_of_ne_zero (Nat.ne_of_gt (Nat.zero_lt_of_lt hfuel))
    have hrest : ∀ {run}, (escape false cs run).length < fuel →
        scanBasic fuel (c :: acc) (escape false cs run ++ '\x22' :: rest) =
          some (String.ofList (acc.reverse ++ c :: cs), rest) := by
      intro run h
      have := ih run h (c :: acc)
      rwa [List.reverse_cons, List.append_assoc, List.singleton_append] at this
    -- an escape is read as one character
    have hescape : ∀ {es run}, Escapes es c →
        escape false (c :: cs) run = '\\' :: es ++ escape false cs 0 →
        (escape false (c :: cs) run).length < fuel + 1 →
        scanBasic (fuel + 1) acc (escape false (c :: cs) run ++ '\x22' :: rest) =
          some (String.ofList (acc.reverse ++ c :: cs), rest) := by
      intro es run hes heq hlen
      rw [heq] at hlen ⊢
      rw [List.cons_append, List.cons_append, List.append_assoc, scanBasic, if_neg (by decide),
        if_pos rfl, hes.scan]
      refine hrest ?_
      simp only [List.cons_append, List.length_cons, List.length_append] at hlen
      omega
    by_cases hq : c = '\x22'
    · have hquote : Escapes ['\x22'] c := hq ▸ .quote
      refine hescape hquote ?_ hfuel
      simp [escape, hq]
    · obtain ⟨hself, hb, hp | ⟨hlong, -⟩⟩ | ⟨es, heq, hes⟩ := escapeChar_cases false c
      · have heq : escape false (c :: cs) run = c :: escape false cs 0 := by
          rw [escape, if_neg hq, hself, List.singleton_append]
        rw [heq] at hfuel ⊢
        rw [List.cons_append, scanBasic, if_neg hq, if_neg hb, if_pos hp]
        exact hrest (Nat.lt_of_succ_lt_succ hfuel)
      · cases hlong
      · refine hescape hes ?_ hfuel
        rw [escape, if_neg hq, heq]

/-- An escaped long text has at most two quotes in a row. -/
theorem frontRun_escape {run : Nat} (h : run ≤ 2) :
    frontRun '\x22' (escape true cs run) ≤ 2 - run := by
  induction cs generalizing run with
  | nil => exact Nat.zero_le _
  | cons c cs ih =>
    rw [escape]
    split
    · next hq =>
      subst hq
      split
      · next hrun =>
        have hlt : run < 2 := by simpa using hrun
        have hrest : frontRun '\x22' (escape true cs (run + 1)) ≤ 2 - (run + 1) := ih hlt
        rw [frontRun_cons_self]
        omega
      · rw [frontRun_cons_of_ne (by decide)]
        exact Nat.zero_le _
    · next hq =>
      obtain ⟨hself, -⟩ | ⟨es, heq, -⟩ := escapeChar_cases true c
      · rw [hself, List.singleton_append, frontRun_cons_of_ne hq]
        exact Nat.zero_le _
      · rw [heq, List.cons_append, frontRun_cons_of_ne (by decide)]
        exact Nat.zero_le _

theorem escape_of_all_quotes {run : Nat} (h : ∀ d ∈ escape true cs run, d = '\x22') :
    escape true cs run = cs := by
  induction cs generalizing run with
  | nil => rfl
  | cons c cs ih =>
    rw [escape] at h ⊢
    split at h
    · next hq =>
      split at h
      · next hrun =>
        rw [if_pos hq, if_pos hrun, ih fun d hd => h d (List.mem_cons_of_mem _ hd)]
      · exact absurd (h '\\' List.mem_cons_self) (by decide)
    · next hq =>
      obtain ⟨hself, -⟩ | ⟨es, heq, -⟩ := escapeChar_cases true c
      · exact absurd (h c (by rw [hself]; exact List.mem_cons_self)) hq
      · exact absurd (h '\\' (by rw [heq]; exact List.mem_cons_self)) (by decide)

theorem scanLongBasic_escape {fuel run : Nat} (hrun : run ≤ 2)
    (hfuel : (escape true cs run).length < fuel) (acc rest : List Char) :
    scanLongBasic fuel acc (escape true cs run ++ '\x22' :: '\x22' :: '\x22' :: '\n' :: rest) =
      some (String.ofList (acc.reverse ++ cs), '\n' :: rest) := by
  induction cs generalizing fuel run acc with
  | nil =>
    obtain ⟨fuel, rfl⟩ := Nat.exists_eq_add_one_of_ne_zero (Nat.ne_of_gt hfuel)
    have hfront : frontRun '\x22' [] ≤ 2 := Nat.zero_le 2
    have hclose := closing?_append hfront (by decide) rest
    rw [List.nil_append] at hclose
    rw [escape, List.nil_append, scanLongBasic, if_pos rfl, hclose, if_pos List.all_nil]
  | cons c cs ih =>
    obtain ⟨fuel, rfl⟩ := Nat.exists_eq_add_one_of_ne_zero (Nat.ne_of_gt (Nat.zero_lt_of_lt hfuel))
    have hrest : ∀ {run}, run ≤ 2 → (escape true cs run).length < fuel →
        scanLongBasic fuel (c :: acc)
          (escape true cs run ++ '\x22' :: '\x22' :: '\x22' :: '\n' :: rest) =
            some (String.ofList (acc.reverse ++ c :: cs), '\n' :: rest) := by
      intro run hle h
      have := ih hle h (c :: acc)
      rwa [List.reverse_cons, List.append_assoc, List.singleton_append] at this
    -- an escape is read as one character
    have hescape : ∀ {es run}, Escapes es c →
        escape true (c :: cs) run = '\\' :: es ++ escape true cs 0 →
        (escape true (c :: cs) run).length < fuel + 1 →
        scanLongBasic (fuel + 1) acc
          (escape true (c :: cs) run ++ '\x22' :: '\x22' :: '\x22' :: '\n' :: rest) =
            some (String.ofList (acc.reverse ++ c :: cs), '\n' :: rest) := by
      intro es run hes heq hlen
      rw [heq] at hlen ⊢
      rw [List.cons_append, List.cons_append, List.append_assoc, scanLongBasic,
        if_neg (by decide), if_pos rfl, hes.stays, hes.scan]
      refine hrest (Nat.zero_le 2) ?_
      simp only [List.cons_append, List.length_cons, List.length_append] at hlen
      omega
    by_cases hq : c = '\x22'
    · by_cases hlt : run < 2
      · have heq : escape true (c :: cs) run = c :: escape true cs (run + 1) := by
          simp [escape, hq, hlt]
        have hfront : frontRun '\x22' (escape true (c :: cs) run) ≤ 2 - run := frontRun_escape hrun
        have hclose := closing?_append (Nat.le_trans hfront (Nat.sub_le _ _)) (by decide) rest
        have hquotes : (escape true (c :: cs) run).all (· = '\x22') = true →
            escape true (c :: cs) run = c :: cs := fun hall =>
          escape_of_all_quotes fun d hd => of_decide_eq_true (List.all_eq_true.1 hall d hd)
        rw [heq] at hfuel hclose hquotes ⊢
        rw [List.cons_append] at hclose ⊢
        rw [scanLongBasic, if_pos hq, hclose]
        by_cases hall : (c :: escape true cs (run + 1)).all (· = '\x22') = true
        · rw [if_pos hall, hquotes hall]
        · rw [if_neg hall]
          exact hrest hlt (Nat.lt_of_succ_lt_succ hfuel)
      · have hquote : Escapes ['\x22'] c := hq ▸ .quote
        refine hescape hquote ?_ hfuel
        simp [escape, hq, hlt]
    · obtain ⟨hself, hb, hown⟩ | ⟨es, heq, hes⟩ := escapeChar_cases true c
      · have heq : escape true (c :: cs) run = c :: escape true cs 0 := by
          rw [escape, if_neg hq, hself, List.singleton_append]
        rw [heq] at hfuel ⊢
        rw [List.cons_append, scanLongBasic, if_neg hq, if_neg hb]
        obtain hp | ⟨-, rfl⟩ := hown
        · rw [newline?_cons_of_ne (ne_newline_of_isPlain hp) (ne_cr_of_isPlain hp)]
          simp only [hp, if_true]
          exact hrest (Nat.zero_le 2) (Nat.lt_of_succ_lt_succ hfuel)
        · exact hrest (Nat.zero_le 2) (Nat.lt_of_succ_lt_succ hfuel)
      · refine hescape hes ?_ hfuel
        rw [escape, if_neg hq, heq]

/-! ### All forms -/

theorem Form.choose_literal (h : Form.choose cs = .literal) :
    ∀ c ∈ cs, isPlain c = true ∧ c ≠ '\x27' := by
  simp only [choose] at h
  split at h
  · cases h
  split at h
  · next hfit =>
    simp only [Bool.and_eq_true, Bool.not_eq_true', List.any_eq_false, decide_eq_true_eq] at hfit
    obtain ⟨⟨hcontrol, hnewline⟩, hsingle⟩ := hfit
    intro c hc
    exact ⟨isPlain_of_not_isControl (Bool.eq_false_iff.2 (hcontrol c hc)) (hnewline c hc),
      ne_of_longestRun_eq_zero hsingle c hc⟩
  · split at h
    · cases h
    · split at h
      · cases h
      · split at h <;> cases h

theorem Form.choose_longLiteral (h : Form.choose cs = .longLiteral) :
    longestRun '\x27' cs 0 ≤ 2 ∧ ∀ c ∈ cs, c = '\n' ∨ isPlain c = true := by
  simp only [choose] at h
  split at h
  · cases h
  split at h
  · cases h
  split at h
  · cases h
  split at h
  · next hfit =>
    simp only [Bool.and_eq_true, Bool.not_eq_true', List.any_eq_false, decide_eq_true_eq] at hfit
    obtain ⟨hcontrol, hsingle⟩ := hfit
    refine ⟨hsingle, fun c hc => ?_⟩
    by_cases hn : c = '\n'
    · exact .inl hn
    · exact .inr (isPlain_of_not_isControl (Bool.eq_false_iff.2 (hcontrol c hc)) hn)
  · split at h <;> cases h

theorem skipFirstNewline_append {body : List Char}
    (h : (∀ c ∈ cs, c ≠ '\n') → newline? body = none) :
    skipFirstNewline ((if cs.any (· = '\n') then ['\n'] else []) ++ body) = body := by
  split
  · rfl
  · next hany =>
    have hnone := h fun c hc hn => hany (List.any_eq_true.2 ⟨c, hc, decide_eq_true hn⟩)
    rw [List.nil_append, skipFirstNewline, hnone, Option.getD_none]

theorem newline?_escape (h : ∀ c ∈ cs, c ≠ '\n') (rest : List Char) :
    newline? (escape true cs 0 ++ '\x22' :: rest) = none := by
  cases cs with
  | nil => rfl
  | cons c cs =>
    rw [escape]
    split
    · next hq =>
      subst hq
      exact newline?_cons_of_ne (by decide) (by decide) _
    · obtain ⟨hself, -, hp | ⟨-, hn⟩⟩ | ⟨es, heq, -⟩ := escapeChar_cases true c
      · rw [hself, List.singleton_append, List.cons_append]
        exact newline?_cons_of_ne (ne_newline_of_isPlain hp) (ne_cr_of_isPlain hp) _
      · exact absurd hn (h c List.mem_cons_self)
      · rw [heq, List.cons_append, List.cons_append]
        exact newline?_cons_of_ne (by decide) (by decide) _

theorem newline?_literal (hplain : ∀ c ∈ cs, c = '\n' ∨ isPlain c = true)
    (h : ∀ c ∈ cs, c ≠ '\n') (rest : List Char) : newline? (cs ++ '\x27' :: rest) = none := by
  cases cs with
  | nil => rfl
  | cons c cs =>
    obtain hn | hp := hplain c List.mem_cons_self
    · exact absurd hn (h c List.mem_cons_self)
    · exact newline?_cons_of_ne (ne_newline_of_isPlain hp) (ne_cr_of_isPlain hp) _

theorem scanText_basic {body : List Char} (h : ∀ more, body ≠ '\x22' :: '\x22' :: more) :
    scanText ('\x22' :: body) = scanBasic (body.length + 1) [] body := by
  unfold scanText
  split
  · next heq => exact absurd (List.cons.inj heq).2 (h _)
  · next heq =>
    cases heq
    rfl
  · next heq => cases heq
  · next heq => cases heq
  · next _ hno _ _ => exact absurd rfl (hno body)

theorem scanText_literal {body : List Char} (h : ∀ more, body ≠ '\x27' :: '\x27' :: more) :
    scanText ('\x27' :: body) = scanLiteral body := by
  unfold scanText
  split
  · next heq => cases heq
  · next heq => cases heq
  · next heq => exact absurd (List.cons.inj heq).2 (h _)
  · next heq =>
    cases heq
    rfl
  · next hno => exact absurd rfl (hno body)

theorem escape_ne_quotes (cs rest more : List Char) :
    escape false cs 0 ++ '\x22' :: '\n' :: rest ≠ '\x22' :: '\x22' :: more := by
  cases cs with
  | nil => simp [escape]
  | cons c cs =>
    rw [escape]
    split
    · simp
    · next hq =>
      obtain ⟨hself, -⟩ | ⟨es, heq, -⟩ := escapeChar_cases false c
      · simp [hself, hq]
      · simp [heq]

/-- **A text is read back** from the form that it is written in. -/
theorem scanText_renderText (s : String) (rest : List Char) :
    scanText (renderText s ++ '\n' :: rest) = some (s, '\n' :: rest) := by
  simp only [renderText]
  cases hform : Form.choose s.toList with
  | basic =>
    simp only [List.cons_append, List.append_assoc, List.nil_append]
    rw [scanText_basic (escape_ne_quotes _ _), scanBasic_escape]
    · rw [List.reverse_nil, List.nil_append, String.ofList_toList]
    · simp only [List.length_append, List.length_cons]
      omega
  | literal =>
    have hplain := Form.choose_literal hform
    simp only [List.cons_append, List.append_assoc, List.nil_append]
    rw [scanText_literal, scanLiteral_append hplain, String.ofList_toList]
    intro more heq
    cases hs : s.toList with
    | nil => simp [hs] at heq
    | cons c cs =>
      rw [hs] at heq hplain
      exact (hplain c List.mem_cons_self).2 (List.cons.inj heq).1
  | longBasic =>
    have hfirst := skipFirstNewline_append fun h : ∀ c ∈ s.toList, c ≠ '\n' =>
      newline?_escape h ('\x22' :: '\x22' :: '\n' :: rest)
    simp only [List.cons_append, List.append_assoc, List.nil_append]
    rw [scanText, hfirst, scanLongBasic_escape (Nat.zero_le 2)]
    · rw [List.reverse_nil, List.nil_append, String.ofList_toList]
    · simp only [List.length_append, List.length_cons]
      omega
  | longLiteral =>
    obtain ⟨hrun, hplain⟩ := Form.choose_longLiteral hform
    have hfirst := skipFirstNewline_append
      (newline?_literal hplain · ('\x27' :: '\x27' :: '\n' :: rest))
    simp only [List.cons_append, List.append_assoc, List.nil_append]
    rw [scanText, hfirst, scanLongLiteral_append hrun hplain]
    · rw [List.reverse_nil, List.nil_append, String.ofList_toList]
    · simp only [List.length_append, List.length_cons]
      omega

end Corelink.Toml
