import Corelink.Json.Reading
import Corelink.Proofs.Json.Scalar

/-!
# JSON texts

`Spells d cs` says that `cs` is a JSON text that holds the document `d`: any blanks between its
parts, its texts written in any way, its numbers with either letter before an exponent. Whatever
document a text holds, it is scanned to just that, and what follows is left
(`scanDocument_spells`). So a text that holds a document between blanks is read as the document is
(`parse_spells`), and any such document can be stepped over (`Spells.skip`).
-/

namespace Corelink.Json

variable {c : Char} {bs rest cs : List Char} {d : Document} {ds : List Document}
  {ms : List (Except Error String × Document)}

/-! ### Blanks -/

def Blanks (bs : List Char) : Prop :=
  ∀ b ∈ bs, isBlank b = true

theorem isBlank_iff : isBlank c = true ↔ c = ' ' ∨ c = '\n' ∨ c = '\t' ∨ c = '\r' := by
  simp only [isBlank, Bool.or_eq_true, decide_eq_true_eq, or_assoc]

theorem skipBlanks_append (h : Blanks bs) (hc : isBlank c = false) (cs : List Char) :
    skipBlanks (bs ++ c :: cs) = c :: cs := by
  have hc : ¬isBlank c = true := Bool.eq_false_iff.1 hc
  rw [skipBlanks, List.dropWhile_append_of_pos h, List.dropWhile_cons_of_neg hc]

theorem skipBlanks_of_blanks (h : Blanks bs) : skipBlanks bs = [] := by
  rw [← List.append_nil bs, skipBlanks, List.dropWhile_append_of_pos h, List.dropWhile_nil]

theorem stops_of_isBlank (h : isBlank c = true) : Stops (c :: cs) := by
  rintro _ ⟨⟩
  obtain rfl | rfl | rfl | rfl := isBlank_iff.1 h <;> decide

theorem stops_append (h : Blanks bs) (hrest : Stops rest) : Stops (bs ++ rest) := by
  cases bs with
  | nil => exact hrest
  | cons b bs => exact stops_of_isBlank (h b List.mem_cons_self)

theorem stops_nil : Stops [] := by
  rintro _ ⟨⟩

theorem stops_comma : Stops (',' :: rest) := by
  rintro _ ⟨⟩
  decide

theorem stops_bracket : Stops (']' :: rest) := by
  rintro _ ⟨⟩
  decide

theorem stops_brace : Stops ('\x7d' :: rest) := by
  rintro _ ⟨⟩
  decide

/-! ### Texts that hold a document -/

/-- `cs` spells a key and what stands between it and its value. -/
inductive SpellsKey : Except Error String → List Char → Prop
  | mk {bs bs' : List Char} (gs : List Glyph) (hb : Blanks bs) (hb' : Blanks bs') :
    SpellsKey (Glyph.text gs) (Glyph.quoted gs ++ (bs ++ ':' :: bs'))

mutual

/-- `cs` is a JSON text that holds the document. -/
inductive Spells : Document → List Char → Prop
  | null : Spells .null "null".toList
  | bool (b : Bool) : Spells (.bool b) (renderScalar (.bool b))
  | number {n : Number} {letter : Char} (h : n.WellFormed)
    (hletter : letter = 'e' ∨ letter = 'E') : Spells (.number n) (n.spell letter)
  | text (gs : List Glyph) : Spells (.text (Glyph.text gs)) (Glyph.quoted gs)
  | noItems {bs : List Char} (hb : Blanks bs) : Spells (.array [] none) ('[' :: (bs ++ [']']))
  | array {bs cs : List Char} {ds : List Document} (hb : Blanks bs) (h : SpellsItems ds cs) :
    Spells (.array ds none) ('[' :: (bs ++ cs))
  | noMembers {bs : List Char} (hb : Blanks bs) :
    Spells (.object [] none) ('\x7b' :: (bs ++ ['\x7d']))
  | object {bs cs : List Char} {ms : List (Except Error String × Document)} (hb : Blanks bs)
    (h : SpellsMembers ms cs) : Spells (.object ms none) ('\x7b' :: (bs ++ cs))

/-- `cs` spells the items of an array from one on, and its end. -/
inductive SpellsItems : List Document → List Char → Prop
  | last {d : Document} {cs bs : List Char} (h : Spells d cs) (hb : Blanks bs) :
    SpellsItems [d] (cs ++ (bs ++ [']']))
  | more {d : Document} {cs bs bs' cs' : List Char} {ds : List Document} (h : Spells d cs)
    (hb : Blanks bs) (hb' : Blanks bs') (hs : SpellsItems ds cs') :
    SpellsItems (d :: ds) (cs ++ (bs ++ ',' :: (bs' ++ cs')))

/-- `cs` spells the members of an object from one on, and its end. -/
inductive SpellsMembers : List (Except Error String × Document) → List Char → Prop
  | last {k : Except Error String} {d : Document} {ks cs bs : List Char} (hk : SpellsKey k ks)
    (h : Spells d cs) (hb : Blanks bs) :
    SpellsMembers [(k, d)] (ks ++ (cs ++ (bs ++ ['\x7d'])))
  | more {k : Except Error String} {d : Document} {ks cs bs bs' cs' : List Char}
    {ms : List (Except Error String × Document)} (hk : SpellsKey k ks) (h : Spells d cs)
    (hb : Blanks bs) (hb' : Blanks bs') (hs : SpellsMembers ms cs') :
    SpellsMembers ((k, d) :: ms) (ks ++ (cs ++ (bs ++ ',' :: (bs' ++ cs'))))

end

/-! ### How they begin -/

/-- What a document may begin with. -/
def Opens (c : Char) : Prop :=
  isBlank c = false ∧ c ≠ ']' ∧ c ≠ '\x7d'

theorem opens_of_isDigit (h : c.isDigit = true) : Opens c := by
  refine ⟨?_, Decimal.ne_of_isDigit h rfl, Decimal.ne_of_isDigit h rfl⟩
  rw [← Bool.not_eq_true, isBlank_iff]
  rintro (rfl | rfl | rfl | rfl) <;> cases h

theorem Number.exists_unsigned {n : Number} (h : n.WellFormed) (letter : Char) :
    ∃ d cs, n.unsigned letter = d :: cs ∧ d.isDigit = true := by
  obtain ⟨d, ds, hd⟩ := List.exists_cons_of_ne_nil h.whole.1
  exact ⟨d, _, by rw [unsigned, hd, List.cons_append], h.whole.2 d (hd ▸ List.mem_cons_self)⟩

theorem Number.exists_spell {n : Number} (h : n.WellFormed) (letter : Char) :
    ∃ c cs, n.spell letter = c :: cs ∧ Opens c := by
  cases hsign : n.negative with
  | true => exact ⟨_, _, spell_of_negative hsign letter, by decide, by decide, by decide⟩
  | false =>
    obtain ⟨d, ds, hd, hdigit⟩ := n.exists_unsigned h letter
    exact ⟨d, ds, (spell_of_not_negative hsign letter).trans hd, opens_of_isDigit hdigit⟩

theorem Spells.exists_cons (h : Spells d cs) : ∃ c cs', cs = c :: cs' ∧ Opens c := by
  cases h with
  | bool b => cases b <;> exact ⟨_, _, rfl, by decide, by decide, by decide⟩
  | number h => exact Number.exists_spell h _
  | null | text | noItems | array | noMembers | object =>
    exact ⟨_, _, rfl, by decide, by decide, by decide⟩

theorem SpellsItems.exists_cons (h : SpellsItems ds cs) : ∃ c cs', cs = c :: cs' ∧ Opens c := by
  cases h with
  | last h hb =>
    obtain ⟨c, cs, rfl, hc⟩ := h.exists_cons
    exact ⟨c, _, rfl, hc⟩
  | more h =>
    obtain ⟨c, cs, rfl, hc⟩ := h.exists_cons
    exact ⟨c, _, rfl, hc⟩

theorem SpellsMembers.exists_cons (h : SpellsMembers ms cs) : ∃ c cs', cs = c :: cs' ∧ Opens c := by
  cases h with
  | last hk =>
    cases hk
    exact ⟨_, _, rfl, by decide, by decide, by decide⟩
  | more hk =>
    cases hk
    exact ⟨_, _, rfl, by decide, by decide, by decide⟩

/-! ### Scanning -/

theorem scanDocument_of_isDigit {n : Number} (h : c.isDigit = true)
    (hscan : scanUnsigned false (c :: cs) = .ok (n, rest)) (fuel : Nat) :
    scanDocument (fuel + 1) (c :: cs) = (.number n, rest) := by
  have hne {d : Char} (hd : d.isDigit = false) : c ≠ d := Decimal.ne_of_isDigit h hd
  rw [scanDocument]
  simp only [hne (d := 'n') rfl, hne (d := 't') rfl, hne (d := 'f') rfl, hne (d := '\x22') rfl,
    hne (d := '[') rfl, hne (d := '\x7b') rfl, hne (d := '-') rfl, h, if_false, if_true, hscan]

theorem scanDocument_minus (fuel : Nat) (cs : List Char) :
    scanDocument (fuel + 1) ('-' :: cs) =
      match scanUnsigned true cs with
      | .ok (n, rest) => (.number n, rest)
      | .error b => (.broken b, []) :=
  rfl

theorem scanDocument_number {letter : Char} (hletter : letter = 'e' ∨ letter = 'E') {n : Number}
    (h : n.WellFormed) (hrest : Stops rest) (fuel : Nat) :
    scanDocument (fuel + 1) (n.spell letter ++ rest) = (.number n, rest) := by
  have hscan := scanUnsigned_spell hletter h hrest
  cases hsign : n.negative with
  | true =>
    rw [hsign] at hscan
    rw [Number.spell_of_negative hsign, List.cons_append, scanDocument_minus, hscan]
  | false =>
    obtain ⟨d, ds, hd, hdigit⟩ := n.exists_unsigned h letter
    rw [hsign, hd, List.cons_append] at hscan
    rw [Number.spell_of_not_negative hsign, hd, List.cons_append,
      scanDocument_of_isDigit hdigit hscan]

theorem scanDocument_quote (fuel : Nat) (cs : List Char) :
    scanDocument (fuel + 1) ('\x22' :: cs) =
      match scanText {} cs with
      | .ok (s, rest) => (.text s, rest)
      | .error b => (.broken b, []) :=
  rfl

theorem scanDocument_text (fuel : Nat) (gs : List Glyph) (rest : List Char) :
    scanDocument (fuel + 1) (Glyph.quoted gs ++ rest) = (.text (Glyph.text gs), rest) := by
  rw [Glyph.quoted, List.cons_append, List.append_assoc, List.singleton_append, scanDocument_quote,
    scanText_spell]
  rfl

theorem scanDocument_noItems (fuel : Nat) (hb : Blanks bs) :
    scanDocument (fuel + 1) ('[' :: (bs ++ ']' :: rest)) = (.array [] none, rest) := by
  rw [scanDocument, if_neg (by decide), if_neg (by decide), if_neg (by decide), if_neg (by decide),
    if_pos rfl, skipBlanks_append hb rfl]
  rfl

theorem scanDocument_bracket (fuel : Nat) (hb : Blanks bs) (hc : Opens c) :
    scanDocument (fuel + 1) ('[' :: (bs ++ c :: cs)) = scanItems fuel [] (c :: cs) := by
  rw [scanDocument, if_neg (by decide), if_neg (by decide), if_neg (by decide), if_neg (by decide),
    if_pos rfl, skipBlanks_append hb hc.1]
  split
  · next heq => exact absurd (List.cons.inj heq).1 hc.2.1
  · next heq => cases heq
  · rfl

theorem scanDocument_noMembers (fuel : Nat) (hb : Blanks bs) :
    scanDocument (fuel + 1) ('\x7b' :: (bs ++ '\x7d' :: rest)) = (.object [] none, rest) := by
  rw [scanDocument, if_neg (by decide), if_neg (by decide), if_neg (by decide), if_neg (by decide),
    if_neg (by decide), if_pos rfl, skipBlanks_append hb rfl]
  rfl

theorem scanDocument_brace (fuel : Nat) (hb : Blanks bs) (hc : Opens c) :
    scanDocument (fuel + 1) ('\x7b' :: (bs ++ c :: cs)) = scanMembers fuel [] (c :: cs) := by
  rw [scanDocument, if_neg (by decide), if_neg (by decide), if_neg (by decide), if_neg (by decide),
    if_neg (by decide), if_pos rfl, skipBlanks_append hb hc.1]
  split
  · next heq => exact absurd (List.cons.inj heq).1 hc.2.2
  · next heq => cases heq
  · rfl

theorem Spells.ne_broken (h : Spells d cs) (b : Break) : d ≠ .broken b := by
  rintro rfl
  cases h

/-- A document is taken for an item, and what comes behind it decides how the array goes on. -/
theorem scanItems_of_item {fuel : Nat} {items : List Document} (hd : ∀ b, d ≠ .broken b)
    (h : scanDocument fuel cs = (d, rest)) :
    scanItems (fuel + 1) items cs =
      match skipBlanks rest with
      | ']' :: rest => (.array (d :: items).reverse none, rest)
      | ',' :: rest => scanItems fuel (d :: items) (skipBlanks rest)
      | [] => (.array (d :: items).reverse (some (.both .truncated)), [])
      | _ => (.array (d :: items).reverse (some (.both .malformed)), []) := by
  rw [scanItems, h]
  cases d with
  | broken b => exact absurd rfl (hd b)
  | _ => rfl

theorem scanMembers_of_member {fuel : Nat} {k : Except Error String} {ks : List Char}
    {members : List (Except Error String × Document)} (hk : SpellsKey k ks) (hc : Opens c)
    (hd : ∀ b, d ≠ .broken b) (h : scanDocument fuel (c :: cs) = (d, rest)) :
    scanMembers (fuel + 1) members (ks ++ c :: cs) =
      match skipBlanks rest with
      | '\x7d' :: rest => (.object ((k, d) :: members).reverse none, rest)
      | ',' :: rest => scanMembers fuel ((k, d) :: members) (skipBlanks rest)
      | [] => (.object ((k, d) :: members).reverse (some (.both .truncated)), [])
      | _ => (.object ((k, d) :: members).reverse (some (.both .malformed)), []) := by
  obtain ⟨gs, hb, hb'⟩ := hk
  rename_i bs bs'
  have hscan := scanText_spell gs {} (bs ++ ':' :: (bs' ++ c :: cs))
  have hcolon := skipBlanks_append hb (c := ':') rfl (bs' ++ c :: cs)
  have hvalue := skipBlanks_append hb' hc.1 cs
  simp only [Glyph.quoted, List.append_assoc, List.cons_append, List.nil_append]
  rw [scanMembers]
  simp only [hscan, hcolon, hvalue, h]
  cases d with
  | broken b => exact absurd rfl (hd b)
  | _ => rfl

/-- A text has at least one character, and so does the fuel for it. -/
theorem Spells.exists_fuel (h : Spells d cs) {fuel : Nat} (hfuel : 2 * cs.length ≤ fuel + 1) :
    ∃ f, fuel = f + 1 := by
  obtain ⟨c, cs, rfl, -⟩ := h.exists_cons
  rw [List.length_cons] at hfuel
  exact ⟨fuel - 1, by omega⟩

mutual

/-- **A text is scanned** to the document it holds, and what follows is left. -/
theorem scanDocument_spells {d : Document} {cs : List Char} (hspells : Spells d cs) (fuel : Nat)
    (rest : List Char) (hfuel : 2 * cs.length ≤ fuel + 1) (hrest : Stops rest) :
    scanDocument fuel (cs ++ rest) = (d, rest) := by
  obtain ⟨fuel, rfl⟩ := hspells.exists_fuel hfuel
  match hspells with
  | .null => rfl
  | .bool b => cases b <;> rfl
  | .number h hletter => exact scanDocument_number hletter h hrest fuel
  | .text gs => exact scanDocument_text fuel gs rest
  | .noItems hb =>
    simp only [List.cons_append, List.append_assoc, List.nil_append]
    exact scanDocument_noItems fuel hb
  | .array hb h =>
    simp only [List.length_cons, List.length_append] at hfuel
    have hitems := scanItems_spells h fuel [] rest (by omega)
    obtain ⟨c, cs, rfl, hc⟩ := h.exists_cons
    simp only [List.cons_append, List.append_assoc] at hitems ⊢
    rw [scanDocument_bracket fuel hb hc, hitems]
    rfl
  | .noMembers hb =>
    simp only [List.cons_append, List.append_assoc, List.nil_append]
    exact scanDocument_noMembers fuel hb
  | .object hb h =>
    simp only [List.length_cons, List.length_append] at hfuel
    have hmembers := scanMembers_spells h fuel [] rest (by omega)
    obtain ⟨c, cs, rfl, hc⟩ := h.exists_cons
    simp only [List.cons_append, List.append_assoc] at hmembers ⊢
    rw [scanDocument_brace fuel hb hc, hmembers]
    rfl

theorem scanItems_spells {ds : List Document} {cs : List Char} (hspells : SpellsItems ds cs)
    (fuel : Nat) (items : List Document) (rest : List Char) (hfuel : 2 * cs.length ≤ fuel) :
    scanItems fuel items (cs ++ rest) = (.array (items.reverse ++ ds) none, rest) := by
  match hspells with
  | @SpellsItems.last d _ bs h hb =>
    simp only [List.length_cons, List.length_append] at hfuel
    obtain ⟨fuel, rfl⟩ := h.exists_fuel (by omega : _ ≤ fuel + 1)
    have hitem := scanDocument_spells h fuel (bs ++ ']' :: rest) (by omega)
      (stops_append hb stops_bracket)
    simp only [List.append_assoc, List.cons_append, List.nil_append]
    rw [scanItems_of_item h.ne_broken hitem, skipBlanks_append hb rfl, List.reverse_cons]
    rfl
  | @SpellsItems.more d _ bs bs' cs' _ h hb hb' hs =>
    simp only [List.length_cons, List.length_append] at hfuel
    obtain ⟨fuel, rfl⟩ := h.exists_fuel (by omega : _ ≤ fuel + 1)
    have hitem := scanDocument_spells h fuel (bs ++ ',' :: (bs' ++ (cs' ++ rest))) (by omega)
      (stops_append hb stops_comma)
    have hitems := scanItems_spells hs fuel (d :: items) rest (by omega)
    obtain ⟨c, cs', rfl, hc⟩ := hs.exists_cons
    simp only [List.append_assoc, List.cons_append] at hitem hitems ⊢
    rw [scanItems_of_item h.ne_broken hitem, skipBlanks_append hb rfl]
    simp only
    rw [skipBlanks_append hb' hc.1, hitems, List.reverse_cons, List.append_assoc]
    rfl

theorem scanMembers_spells {ms : List (Except Error String × Document)} {cs : List Char}
    (hspells : SpellsMembers ms cs) (fuel : Nat) (members : List (Except Error String × Document))
    (rest : List Char) (hfuel : 2 * cs.length ≤ fuel) :
    scanMembers fuel members (cs ++ rest) = (.object (members.reverse ++ ms) none, rest) := by
  match hspells with
  | @SpellsMembers.last k d _ _ bs hk h hb =>
    simp only [List.length_cons, List.length_append] at hfuel
    obtain ⟨fuel, rfl⟩ := h.exists_fuel (by omega : _ ≤ fuel + 1)
    have hvalue := scanDocument_spells h fuel (bs ++ '\x7d' :: rest) (by omega)
      (stops_append hb stops_brace)
    have hd := h.ne_broken
    obtain ⟨c, cs, rfl, hc⟩ := h.exists_cons
    simp only [List.append_assoc, List.cons_append, List.nil_append] at hvalue ⊢
    rw [scanMembers_of_member hk hc hd hvalue, skipBlanks_append hb rfl, List.reverse_cons]
    rfl
  | @SpellsMembers.more k d _ _ bs bs' cs' _ hk h hb hb' hs =>
    simp only [List.length_cons, List.length_append] at hfuel
    obtain ⟨fuel, rfl⟩ := h.exists_fuel (by omega : _ ≤ fuel + 1)
    have hvalue := scanDocument_spells h fuel (bs ++ ',' :: (bs' ++ (cs' ++ rest))) (by omega)
      (stops_append hb stops_comma)
    have hmembers := scanMembers_spells hs fuel ((k, d) :: members) rest (by omega)
    have hd := h.ne_broken
    obtain ⟨c, cs, rfl, hc⟩ := h.exists_cons
    obtain ⟨c', cs', rfl, hc'⟩ := hs.exists_cons
    simp only [List.append_assoc, List.cons_append] at hvalue hmembers ⊢
    rw [scanMembers_of_member hk hc hd hvalue, skipBlanks_append hb rfl]
    simp only
    rw [skipBlanks_append hb' hc'.1, hmembers, List.reverse_cons, List.append_assoc]
    rfl

end

theorem Document.ofText_spells {before after : List Char} (h : Spells d cs)
    (hbefore : Blanks before) (hafter : Blanks after) :
    Document.ofText (String.ofList (before ++ (cs ++ after))) = (d, after) := by
  obtain ⟨c, cs', heq, hc⟩ := h.exists_cons
  have hstart : skipBlanks (before ++ (cs ++ after)) = cs ++ after := by
    rw [heq, List.cons_append, skipBlanks_append hbefore hc.1]
  have hscan := scanDocument_spells h (2 * (cs ++ after).length + 1) after
    (by rw [List.length_append]; omega) (List.append_nil after ▸ stops_append hafter stops_nil)
  simp only [Document.ofText, String.toList_ofList, hstart, hscan]

/-- **A text is read as the document it holds**, whatever blanks are around it. -/
theorem parse_spells {α : Type} (read : Document → Except Error α) {before after : List Char}
    (h : Spells d cs) (hbefore : Blanks before) (hafter : Blanks after) :
    parse read (String.ofList (before ++ (cs ++ after))) = read d := by
  simp only [parse, Document.ofText_spells h hbefore hafter, skipBlanks_of_blanks hafter]
  cases read d <;> rfl

/-! ### Stepping over -/

mutual

/-- **Whatever a text holds can be stepped over.** -/
theorem Spells.skip {d : Document} {cs : List Char} (h : Spells d cs) : d.skip = .ok () := by
  match h with
  | .null | .bool _ | .number _ _ | .text _ | .noItems _ | .noMembers _ => rfl
  | .array _ h =>
    rw [Document.skip, h.skip]
    rfl
  | .object _ h =>
    rw [Document.skip, h.skip]
    rfl

theorem SpellsItems.skip {ds : List Document} {cs : List Char} (h : SpellsItems ds cs) :
    Document.skipItems ds = .ok () := by
  match h with
  | .last h _ =>
    rw [Document.skipItems, h.skip]
    rfl
  | .more h _ _ hs =>
    rw [Document.skipItems, h.skip]
    exact hs.skip

theorem SpellsMembers.skip {ms : List (Except Error String × Document)} {cs : List Char}
    (h : SpellsMembers ms cs) : Document.skipMembers ms = .ok () := by
  match h with
  | .last _ h _ =>
    rw [Document.skipMembers, h.skip]
    rfl
  | .more _ h _ _ hs =>
    rw [Document.skipMembers, h.skip]
    exact hs.skip

end

theorem Document.skipMembers_eq_ok : skipMembers ms = .ok () ↔ ∀ m ∈ ms, m.2.skip = .ok () := by
  induction ms with
  | nil => exact ⟨fun _ => List.forall_mem_nil _, fun _ => rfl⟩
  | cons m ms ih =>
    rw [skipMembers, List.forall_mem_cons, ← ih]
    cases m.2.skip with
    | error e => exact ⟨nofun, fun h => nomatch h.1⟩
    | ok _ => exact ⟨fun h => ⟨rfl, h⟩, fun h => h.2⟩

theorem Spells.skip_of_mem (h : Spells (.object ms none) cs) : ∀ m ∈ ms, m.2.skip = .ok () := by
  cases h with
  | noMembers => exact List.forall_mem_nil _
  | object _ h => exact Document.skipMembers_eq_ok.1 h.skip

end Corelink.Json
