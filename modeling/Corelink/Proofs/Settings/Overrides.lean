import Corelink.Settings.Overrides
import Mathlib.Data.List.TakeWhile

/-!
# What overrides do

A text spells a port if it is digits behind a plus sign or none, with any blanks around
(`SpellsPort`); that is told of the text alone, and the reader of ports finds just these
(`Overrides.port?_eq_some_iff`). So overrides fail just if there is a port and it is none, and then
too the host is replaced and nothing else (`Overrides.apply_sets`).
-/

namespace Corelink

/-! ### Blanks -/

namespace Text

variable {cs : List Char}

theorem exists_eq_trim (cs : List Char) : ∃ before after, cs = before ++ (trim cs ++ after) ∧
    (∀ c ∈ before, isBlank c = true) ∧ ∀ c ∈ after, isBlank c = true := by
  have hfront : cs = cs.takeWhile isBlank ++ cs.dropWhile isBlank :=
    List.takeWhile_append_dropWhile.symm
  have hback : cs.dropWhile isBlank =
      trim cs ++ ((cs.dropWhile isBlank).reverse.takeWhile isBlank).reverse := by
    rw [trim, ← List.reverse_append, List.takeWhile_append_dropWhile, List.reverse_reverse]
  refine ⟨_, _, hback ▸ hfront, fun c => List.mem_takeWhile_imp, fun c hc => ?_⟩
  exact List.mem_takeWhile_imp (List.mem_reverse.1 hc)

theorem trim_append {before after : List Char} (hne : cs ≠ [])
    (hbefore : ∀ c ∈ before, isBlank c = true) (hafter : ∀ c ∈ after, isBlank c = true)
    (h : ∀ c ∈ cs, isBlank c = false) : trim (before ++ (cs ++ after)) = cs := by
  -- a text without blanks is left as it is, whatever stands behind it
  have stop : ∀ {ds : List Char}, ds ≠ [] → (∀ c ∈ ds, isBlank c = false) →
      ∀ rest, (ds ++ rest).dropWhile isBlank = ds ++ rest := by
    intro ds hds hall rest
    obtain ⟨d, ds, rfl⟩ := List.exists_cons_of_ne_nil hds
    exact List.dropWhile_cons_of_neg (Bool.eq_false_iff.1 (hall d List.mem_cons_self))
  have hreverse : ∀ c ∈ cs.reverse, isBlank c = false := fun c hc => h c (List.mem_reverse.1 hc)
  rw [trim, List.dropWhile_append_of_pos hbefore, stop hne h, List.reverse_append,
    List.dropWhile_append_of_pos fun c hc => hafter c (List.mem_reverse.1 hc)]
  have hback := stop (List.reverse_ne_nil_iff.2 hne) hreverse []
  rw [List.append_nil] at hback
  rw [hback, List.reverse_reverse]

theorem not_isBlank_of_isDigit {c : Char} (h : c.isDigit = true) : isBlank c = false := by
  have hlow : 48 ≤ c.toNat := by simpa [UInt32.le_iff_toNat_le] using (Bool.and_eq_true_iff.1 h).1
  have hhigh : c.toNat ≤ 57 := by simpa [UInt32.le_iff_toNat_le] using (Bool.and_eq_true_iff.1 h).2
  simp only [isBlank, Bool.or_eq_false_iff, Bool.and_eq_false_iff, decide_eq_false_iff_not,
    beq_eq_false_iff_ne]
  omega

end Text

/-! ### Ports -/

/-- The characters are decimal digits of the port, as many as one likes. -/
structure Port.Digits (cs : List Char) (p : UInt16) : Prop where
  nonempty : cs ≠ []
  digits : ∀ c ∈ cs, c.isDigit = true
  value : Decimal.ofDigits cs = p.toNat

/-- The text is digits of the port behind a plus sign or none, with blanks around at will. -/
def SpellsPort (text : String) (p : UInt16) : Prop :=
  ∃ before sign digits after, text.toList = before ++ ((sign ++ digits) ++ after) ∧
    (∀ c ∈ before, Text.isBlank c = true) ∧ (∀ c ∈ after, Text.isBlank c = true) ∧
    (sign = [] ∨ sign = ['+']) ∧ Port.Digits digits p

namespace Port

variable {cs : List Char} {p : UInt16}

theorem ofDigits?_eq_some_iff : ofDigits? cs = some p ↔ Digits cs p := by
  unfold ofDigits?
  split
  · next h =>
    simp only [Bool.and_eq_true, Bool.not_eq_true', List.isEmpty_eq_false_iff, List.all_eq_true,
      decide_eq_true_eq] at h
    obtain ⟨⟨hne, hall⟩, hlt⟩ := h
    have hvalue : (UInt16.ofNat (Decimal.ofDigits cs)).toNat = Decimal.ofDigits cs :=
      UInt16.toNat_ofNat_of_lt' hlt
    constructor
    · rintro ⟨⟩
      exact ⟨hne, hall, hvalue.symm⟩
    · intro hp
      rw [hp.value, UInt16.ofNat_toNat]
  · next h =>
    refine ⟨nofun, fun hp => absurd ?_ h⟩
    have hlt : Decimal.ofDigits cs < UInt16.size := hp.value ▸ p.toNat_lt
    simpa [hp.nonempty, hlt] using hp.digits

theorem ofChars?_eq_some_iff : ofChars? cs = some p ↔
    ∃ sign digits, cs = sign ++ digits ∧ (sign = [] ∨ sign = ['+']) ∧ Digits digits p := by
  unfold ofChars?
  split
  · next digits =>
    rw [ofDigits?_eq_some_iff]
    constructor
    · exact fun h => ⟨['+'], digits, rfl, .inr rfl, h⟩
    · rintro ⟨sign, ds, heq, rfl | rfl, h⟩
      · -- a plus sign is no digit
        cases heq
        exact absurd (h.digits '+' List.mem_cons_self) (by decide)
      · cases heq
        exact h
  · next hplus =>
    rw [ofDigits?_eq_some_iff]
    constructor
    · exact fun h => ⟨[], cs, rfl, .inl rfl, h⟩
    · rintro ⟨sign, ds, rfl, rfl | rfl, h⟩
      · exact h
      · exact absurd rfl (hplus ds)

end Port

namespace Overrides

variable {text : String} {p : UInt16}

/-- **The reader of ports finds just the texts that spell one.** -/
theorem port?_eq_some_iff : port? text = some p ↔ SpellsPort text p := by
  rw [port?, Port.ofChars?_eq_some_iff]
  constructor
  · rintro ⟨sign, digits, htrim, hsign, h⟩
    obtain ⟨before, after, hwhole, hbefore, hafter⟩ := Text.exists_eq_trim text.toList
    exact ⟨before, sign, digits, after, htrim ▸ hwhole, hbefore, hafter, hsign, h⟩
  · rintro ⟨before, sign, digits, after, hwhole, hbefore, hafter, hsign, h⟩
    refine ⟨sign, digits, ?_, hsign, h⟩
    rw [hwhole]
    refine Text.trim_append (by simp [h.nonempty]) hbefore hafter fun c hc => ?_
    obtain hc | hc := List.mem_append.1 hc
    · obtain rfl | rfl := hsign
      · cases hc
      · rw [List.mem_singleton.1 hc]
        decide
    · exact Text.not_isBlank_of_isDigit (h.digits c hc)

variable (o : Overrides) (s : Settings)

theorem applyHost_eq :
    o.applyHost s = { s with core := { s.core with host := o.host.getD s.core.host } } := by
  unfold applyHost
  cases o.host <;> rfl

theorem apply_of_none (h : o.port = none) :
    o.apply s = (.ok (), { s with core := { s.core with host := o.host.getD s.core.host } }) := by
  simp only [apply, applyPort, h, applyHost_eq]

theorem apply_of_spells (h : o.port = some text) (hp : SpellsPort text p) :
    o.apply s = (.ok (),
      { s with core := { s.core with host := o.host.getD s.core.host, port := p } }) := by
  simp only [apply, applyPort, h, port?_eq_some_iff.2 hp, applyHost_eq]

theorem apply_of_no_port (h : o.port = some text) (hp : ∀ p, ¬ SpellsPort text p) :
    o.apply s = (.error (.badOverride portVariable text),
      { s with core := { s.core with host := o.host.getD s.core.host } }) := by
  have hnone : port? text = none := by
    refine Option.eq_none_iff_forall_ne_some.2 fun p hsome => ?_
    exact hp p (port?_eq_some_iff.1 hsome)
  simp only [apply, applyPort, h, hnone, applyHost_eq]

theorem port_cases : o.port = none ∨ (∃ text p, o.port = some text ∧ SpellsPort text p) ∨
    ∃ text, o.port = some text ∧ ∀ p, ¬ SpellsPort text p := by
  cases hport : o.port with
  | none => exact .inl rfl
  | some text =>
    by_cases h : ∃ p, SpellsPort text p
    · obtain ⟨p, hp⟩ := h
      exact .inr (.inl ⟨text, p, rfl, hp⟩)
    · exact .inr (.inr ⟨text, rfl, not_exists.1 h⟩)

theorem apply_fails_iff : (∃ e, (o.apply s).1 = .error e) ↔
    ∃ text, o.port = some text ∧ ∀ p, ¬ SpellsPort text p := by
  obtain hnone | ⟨text, p, hport, hp⟩ | ⟨text, hport, hp⟩ := o.port_cases
  · rw [o.apply_of_none s hnone, hnone]
    exact ⟨nofun, nofun⟩
  · rw [o.apply_of_spells s hport hp, hport]
    refine ⟨nofun, fun ⟨text', htext, hno⟩ => ?_⟩
    cases htext
    exact absurd hp (hno p)
  · rw [o.apply_of_no_port s hport hp]
    exact ⟨fun _ => ⟨text, hport, hp⟩, fun _ => ⟨_, rfl⟩⟩

theorem apply_apply : o.apply (o.apply s).2 = o.apply s := by
  have hhost : ∀ h : String, o.host.getD (o.host.getD h) = o.host.getD h := by
    cases o.host <;> exact fun _ => rfl
  obtain hnone | ⟨text, p, hport, hp⟩ | ⟨text, hport, hp⟩ := o.port_cases
  · simp only [o.apply_of_none _ hnone, hhost]
  · simp only [o.apply_of_spells _ hport hp, hhost]
  · simp only [o.apply_of_no_port _ hport hp, hhost]

/-- **What overrides do**, whatever they are. They fail just if there is a port that is none, and
the error quotes it as it was given. In any case the host is replaced if there is one, and besides
it nothing but the port. What they do is done when they have been applied once. -/
theorem apply_sets (o : Overrides) (s : Settings) :
    ((∃ e, (o.apply s).1 = .error e) ↔
      ∃ text, o.port = some text ∧ ∀ p, ¬ SpellsPort text p) ∧
    (o.port = none →
      o.apply s = (.ok (), { s with core := { s.core with host := o.host.getD s.core.host } })) ∧
    (∀ text p, o.port = some text → SpellsPort text p →
      o.apply s = (.ok (),
        { s with core := { s.core with host := o.host.getD s.core.host, port := p } })) ∧
    (∀ text, o.port = some text → (∀ p, ¬ SpellsPort text p) →
      o.apply s = (.error (.badOverride portVariable text),
        { s with core := { s.core with host := o.host.getD s.core.host } })) ∧
    o.apply (o.apply s).2 = o.apply s :=
  ⟨o.apply_fails_iff s, o.apply_of_none s, fun _ _ => o.apply_of_spells s,
    fun _ => o.apply_of_no_port s, o.apply_apply s⟩

/-- A port with zeros in front and blanks around it, and one that is too large by one. -/
theorem overridden_defaults :
    apply ⟨some "core.example", some "\u3000+0009001\n"⟩ {} =
      (.ok (), { core := { host := "core.example", port := 9001 } }) ∧
    apply ⟨some "core.example", some " 65536"⟩ {} =
      (.error (.badOverride portVariable " 65536"), { core := { host := "core.example" } }) := by
  constructor
  · refine (apply_sets ⟨some "core.example", some "\u3000+0009001\n"⟩ {}).2.2.1 _ 9001 rfl ?_
    have hdigits : "0009001".toList.all Char.isDigit = true := by decide
    refine ⟨['\u3000'], ['+'], "0009001".toList, ['\n'], by decide,
      List.forall_mem_singleton.2 (by decide), List.forall_mem_singleton.2 (by decide),
      .inr rfl, ?_⟩
    exact ⟨by decide, List.all_eq_true.1 hdigits, by decide⟩
  · refine (apply_sets ⟨some "core.example", some " 65536"⟩ {}).2.2.2.1 _ rfl fun p hp => ?_
    have hnone : port? " 65536" = none := by decide
    cases hnone.symm.trans (port?_eq_some_iff.2 hp)

end Overrides

end Corelink
