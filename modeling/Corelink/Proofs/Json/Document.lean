import Corelink.Proofs.Json.Grammar

/-!
# Values as JSON texts

`Laid v cs` says that `cs` spells `v` with any blanks between its parts; both ways of writing a
value are of that kind. A value that is laid out is a text that holds the value's document
(`Laid.spells`), so such a text between blanks is read as that document is (`parse_laid`): the
layout makes no difference.
-/

namespace Corelink.Json

/-! ### The document of a value -/

mutual

/-- The document that spells this value. -/
def Document.ofValue : Value → Document
  | .null => .null
  | .bool b => .bool b
  | .number n => .number n
  | .text s => .text (.ok s)
  | .array items => .array (ofItems items) none
  | .object members => .object (ofMembers members) none

def Document.ofItems : List Value → List Document
  | [] => []
  | v :: vs => ofValue v :: ofItems vs

def Document.ofMembers : List (String × Value) → List (Except Error String × Document)
  | [] => []
  | (k, v) :: ms => (.ok k, ofValue v) :: ofMembers ms

end

theorem Document.ofMembers_eq (ms : List (String × Value)) :
    ofMembers ms = ms.map fun m => (.ok m.1, ofValue m.2) := by
  induction ms with
  | nil => rfl
  | cons m ms ih => rw [ofMembers, ih, List.map_cons]

/-! ### Layouts -/

/-- Neither an array nor an object, and written as it should be. -/
def Value.IsScalar : Value → Prop
  | .number n => n.WellFormed
  | .array _ | .object _ => False
  | _ => True

/-- `cs` spells a key and what stands between it and its value. -/
inductive LaidKey (k : String) : List Char → Prop
  | mk {bs bs' : List Char} (hb : Blanks bs) (hb' : Blanks bs') :
    LaidKey k (renderText k ++ (bs ++ ':' :: bs'))

mutual

/-- `cs` spells the value, with any blanks between the parts. -/
inductive Laid : Value → List Char → Prop
  | scalar {v : Value} (h : v.IsScalar) : Laid v (renderScalar v)
  | noItems {bs : List Char} (hb : Blanks bs) : Laid (.array []) ('[' :: (bs ++ [']']))
  | array {bs cs : List Char} {vs : List Value} (hb : Blanks bs) (h : LaidItems vs cs) :
    Laid (.array vs) ('[' :: (bs ++ cs))
  | noMembers {bs : List Char} (hb : Blanks bs) : Laid (.object []) ('\x7b' :: (bs ++ ['\x7d']))
  | object {bs cs : List Char} {ms : List (String × Value)} (hb : Blanks bs)
    (h : LaidMembers ms cs) : Laid (.object ms) ('\x7b' :: (bs ++ cs))

/-- `cs` spells the items of an array from one on, and its end. -/
inductive LaidItems : List Value → List Char → Prop
  | last {v : Value} {cs bs : List Char} (h : Laid v cs) (hb : Blanks bs) :
    LaidItems [v] (cs ++ (bs ++ [']']))
  | more {v : Value} {cs bs bs' ds : List Char} {vs : List Value} (h : Laid v cs)
    (hb : Blanks bs) (hb' : Blanks bs') (hs : LaidItems vs ds) :
    LaidItems (v :: vs) (cs ++ (bs ++ ',' :: (bs' ++ ds)))

/-- `cs` spells the members of an object from one on, and its end. -/
inductive LaidMembers : List (String × Value) → List Char → Prop
  | last {k : String} {v : Value} {ks cs bs : List Char} (hk : LaidKey k ks) (h : Laid v cs)
    (hb : Blanks bs) : LaidMembers [(k, v)] (ks ++ (cs ++ (bs ++ ['\x7d'])))
  | more {k : String} {v : Value} {ks cs bs bs' ds : List Char} {ms : List (String × Value)}
    (hk : LaidKey k ks) (h : Laid v cs) (hb : Blanks bs) (hb' : Blanks bs')
    (hs : LaidMembers ms ds) :
    LaidMembers ((k, v) :: ms) (ks ++ (cs ++ (bs ++ ',' :: (bs' ++ ds))))

end

variable {v : Value} {vs : List Value} {ms : List (String × Value)} {cs : List Char}

/-! ### Layouts are texts -/

theorem spells_renderScalar (h : v.IsScalar) : Spells (.ofValue v) (renderScalar v) := by
  cases v with
  | null => exact .null
  | bool b => exact .bool b
  | number n =>
    rw [renderScalar, n.render_eq_spell]
    exact .number h (.inl rfl)
  | text s =>
    obtain ⟨gs, hspell, htext⟩ := Glyph.exists_quoted s
    rw [renderScalar, Document.ofValue, ← hspell, ← htext]
    exact .text gs
  | array _ => cases h
  | object _ => cases h

theorem LaidKey.spells {k : String} (h : LaidKey k cs) : SpellsKey (.ok k) cs := by
  obtain ⟨hb, hb'⟩ := h
  obtain ⟨gs, hspell, htext⟩ := Glyph.exists_quoted k
  rw [← hspell, ← htext]
  exact .mk gs hb hb'

mutual

/-- **A layout is a text** that holds the document of its value. -/
theorem Laid.spells {v : Value} {cs : List Char} (h : Laid v cs) : Spells (.ofValue v) cs := by
  match h with
  | .scalar h => exact spells_renderScalar h
  | .noItems hb => exact .noItems hb
  | .array hb h => exact .array hb h.spells
  | .noMembers hb => exact .noMembers hb
  | .object hb h => exact .object hb h.spells

theorem LaidItems.spells {vs : List Value} {cs : List Char} (h : LaidItems vs cs) :
    SpellsItems (Document.ofItems vs) cs := by
  match h with
  | .last h hb => exact .last h.spells hb
  | .more h hb hb' hs => exact .more h.spells hb hb' hs.spells

theorem LaidMembers.spells {ms : List (String × Value)} {cs : List Char} (h : LaidMembers ms cs) :
    SpellsMembers (Document.ofMembers ms) cs := by
  match h with
  | .last hk h hb => exact .last hk.spells h.spells hb
  | .more hk h hb hb' hs => exact .more hk.spells h.spells hb hb' hs.spells

end

/-! ### Both ways of writing are layouts -/

mutual

/-- Every number in the value is written as it should be. -/
def Value.WellFormed : Value → Prop
  | .number n => n.WellFormed
  | .array items => ItemsWellFormed items
  | .object members => MembersWellFormed members
  | _ => True

def ItemsWellFormed : List Value → Prop
  | [] => True
  | v :: vs => v.WellFormed ∧ ItemsWellFormed vs

def MembersWellFormed : List (String × Value) → Prop
  | [] => True
  | (_, v) :: ms => v.WellFormed ∧ MembersWellFormed ms

end

theorem blanks_nil : Blanks [] := by
  rintro _ ⟨⟩

theorem blanks_space : Blanks [' '] := by
  rintro b hb
  rw [List.mem_singleton.1 hb]
  rfl

theorem blanks_newLine (level : Nat) : Blanks (newLine level) := by
  intro b hb
  obtain rfl | hb := List.mem_cons.1 hb
  · rfl
  · rw [List.eq_of_mem_replicate hb]
    rfl

theorem laidKey_compact (k : String) : LaidKey k (renderText k ++ [':']) :=
  .mk blanks_nil blanks_nil

theorem laidKey_pretty (k : String) : LaidKey k (renderText k ++ [':', ' ']) :=
  .mk blanks_nil blanks_space

theorem LaidItems.array (h : LaidItems vs cs) : Laid (.array vs) ('[' :: cs) :=
  .array blanks_nil h

theorem LaidMembers.object (h : LaidMembers ms cs) : Laid (.object ms) ('\x7b' :: cs) :=
  .object blanks_nil h

mutual

theorem Value.laid_compact : ∀ v : Value, v.WellFormed → Laid v v.compact
  | .null, _ => .scalar trivial
  | .bool _, _ => .scalar trivial
  | .number _, h => .scalar h
  | .text _, _ => .scalar trivial
  | .array [], _ => .noItems blanks_nil
  | .array (v :: vs), h => (laidItems_compact (v :: vs) h (List.cons_ne_nil v vs)).array
  | .object [], _ => .noMembers blanks_nil
  | .object (m :: ms), h => (laidMembers_compact (m :: ms) h (List.cons_ne_nil m ms)).object

theorem laidItems_compact : ∀ vs : List Value, ItemsWellFormed vs → vs ≠ [] →
    LaidItems vs (compactItems vs ++ [']'])
  | [], _, hne => absurd rfl hne
  | [v], h, _ => .last (v.laid_compact h.1) blanks_nil
  | v :: w :: vs, h, _ => by
    have hrest := laidItems_compact (w :: vs) h.2 (List.cons_ne_nil w vs)
    have hitems := LaidItems.more (v.laid_compact h.1) blanks_nil blanks_nil hrest
    rwa [compactItems, List.append_assoc, List.cons_append]

theorem laidMembers_compact : ∀ ms : List (String × Value), MembersWellFormed ms → ms ≠ [] →
    LaidMembers ms (compactMembers ms ++ ['\x7d'])
  | [], _, hne => absurd rfl hne
  | [(k, v)], h, _ => by
    have hmember := LaidMembers.last (laidKey_compact k) (v.laid_compact h.1) blanks_nil
    simpa only [compactMembers, List.append_assoc, List.cons_append, List.nil_append] using hmember
  | (k, v) :: m :: ms, h, _ => by
    have hrest := laidMembers_compact (m :: ms) h.2 (List.cons_ne_nil m ms)
    have hmembers := LaidMembers.more (laidKey_compact k) (v.laid_compact h.1) blanks_nil
      blanks_nil hrest
    simpa only [compactMembers, List.append_assoc, List.cons_append, List.nil_append] using hmembers

end

mutual

theorem Value.laid_prettyAt : ∀ (v : Value) (level : Nat), v.WellFormed →
    Laid v (v.prettyAt level)
  | .null, _, _ => .scalar trivial
  | .bool _, _, _ => .scalar trivial
  | .number _, _, h => .scalar h
  | .text _, _, _ => .scalar trivial
  | .array [], _, _ => .noItems blanks_nil
  | .array (v :: vs), level, h => by
    have hitems := laidItems_pretty vs level h.2 (v.laid_prettyAt (level + 1) h.1)
    rw [Value.prettyAt, List.cons_append, List.cons_append, List.append_assoc]
    exact .array (blanks_newLine (level + 1)) hitems
  | .object [], _, _ => .noMembers blanks_nil
  | .object ((k, v) :: ms), level, h => by
    have hmembers := laidMembers_pretty ms level h.2 (laidKey_pretty k)
      (v.laid_prettyAt (level + 1) h.1)
    have hobject := Laid.object (blanks_newLine (level + 1)) hmembers
    simpa only [Value.prettyAt, List.append_assoc, List.cons_append, List.nil_append] using hobject

theorem laidItems_pretty : ∀ (vs : List Value) (level : Nat), ItemsWellFormed vs →
    ∀ {v : Value} {cs : List Char}, Laid v cs → LaidItems (v :: vs) (cs ++ prettyItems level vs)
  | [], level, _, _, _, hv => .last hv (blanks_newLine level)
  | w :: vs, level, h, _, _, hv => by
    have hrest := laidItems_pretty vs level h.2 (w.laid_prettyAt (level + 1) h.1)
    rw [prettyItems, List.cons_append, List.cons_append, List.append_assoc]
    exact .more hv blanks_nil (blanks_newLine (level + 1)) hrest

theorem laidMembers_pretty : ∀ (ms : List (String × Value)) (level : Nat), MembersWellFormed ms →
    ∀ {k : String} {v : Value} {ks cs : List Char}, LaidKey k ks → Laid v cs →
      LaidMembers ((k, v) :: ms) (ks ++ (cs ++ prettyMembers level ms))
  | [], level, _, _, _, _, _, hk, hv => .last hk hv (blanks_newLine level)
  | (k, w) :: ms, level, h, _, _, _, _, hk, hv => by
    have hrest := laidMembers_pretty ms level h.2 (laidKey_pretty k)
      (w.laid_prettyAt (level + 1) h.1)
    have hmembers := LaidMembers.more hk hv blanks_nil (blanks_newLine (level + 1)) hrest
    simpa only [prettyMembers, List.append_assoc, List.cons_append, List.nil_append] using hmembers

end

theorem Value.laid_pretty (h : v.WellFormed) : Laid v v.pretty :=
  v.laid_prettyAt 0 h

/-! ### Texts that hold one document -/

theorem Document.ofText_laid {before after : List Char} (hlaid : Laid v cs)
    (hbefore : Blanks before) (hafter : Blanks after) :
    Document.ofText (String.ofList (before ++ (cs ++ after))) = (.ofValue v, after) :=
  ofText_spells hlaid.spells hbefore hafter

/-- **The layout makes no difference**: a text that holds a value between blanks is read as the
value's document is. -/
theorem parse_laid {α : Type} (read : Document → Except Error α) {before after : List Char}
    (hlaid : Laid v cs) (hbefore : Blanks before) (hafter : Blanks after) :
    parse read (String.ofList (before ++ (cs ++ after))) = read (.ofValue v) :=
  parse_spells read hlaid.spells hbefore hafter

theorem parse_compact {α : Type} (read : Document → Except Error α) (h : v.WellFormed) :
    parse read (String.ofList v.compact) = read (.ofValue v) := by
  simpa using parse_laid read (v.laid_compact h) blanks_nil blanks_nil

theorem parse_pretty {α : Type} (read : Document → Except Error α) (h : v.WellFormed)
    {after : List Char} (hafter : Blanks after) :
    parse read (String.ofList (v.pretty ++ after)) = read (.ofValue v) := by
  have hread := parse_laid read (Value.laid_pretty h) blanks_nil hafter
  rwa [List.nil_append] at hread

end Corelink.Json
