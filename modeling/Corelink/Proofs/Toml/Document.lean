import Corelink.Proofs.Toml.Scalar
import Corelink.Toml.Document

/-!
# Documents read back

A reader takes a written document line by line. `Leads b text b'` is what a piece of text does to
the document under way, whatever follows it; pieces compose, so each kind of line is looked at once.
Lines and sections with distinct names that need no quotes come back as the entries and tables that
they stand for, also with empty lines behind them (`parse_page`). Sections are written just if all
the values in them fit (`render?_eq_some_iff`).
-/

namespace Corelink.Toml

/-! ### What is written -/

def renderLine (l : String × Scalar) : List Char :=
  l.1.toList ++ [' ', '=', ' '] ++ l.2.render ++ ['\n']

def Section.render (s : Section) : List Char :=
  '[' :: s.name.toList ++ [']', '\n'] ++ s.lines.flatMap renderLine

/-- How sections are spelled, whether or not a number in them is too great. -/
def render : List Section → List Char
  | [] => []
  | [s] => s.render
  | s :: t :: rest => s.render ++ '\n' :: render (t :: rest)

/-- What comes of going on from a part that is there just if `P` holds. -/
theorem bind_eq_some_iff_of {α β : Type} {x : Option α} {P : Prop} {r : α}
    (h : ∀ a, x = some a ↔ P ∧ a = r) {f : α → Option β} {b : β} :
    x.bind f = some b ↔ P ∧ f r = some b := by
  simp only [Option.bind_eq_some_iff, h]
  constructor
  · rintro ⟨_, ⟨hp, rfl⟩, hf⟩
    exact ⟨hp, hf⟩
  · rintro ⟨hp, hf⟩
    exact ⟨r, ⟨hp, rfl⟩, hf⟩

theorem mapM_eq_some_iff_of {α β : Type} {f : α → Option β} {g : α → β} {P : α → Prop}
    (h : ∀ a b, f a = some b ↔ P a ∧ b = g a) {as : List α} {bs : List β} :
    as.mapM f = some bs ↔ (∀ a ∈ as, P a) ∧ bs = as.map g := by
  induction as generalizing bs with
  | nil => simp [eq_comm]
  | cons a as ih =>
    rw [List.mapM_cons, Option.bind_eq_bind, bind_eq_some_iff_of (h a), Option.bind_eq_bind,
      bind_eq_some_iff_of fun _ => ih, Option.pure_def, Option.some_inj, eq_comm,
      List.forall_mem_cons, List.map_cons, and_assoc]

theorem renderLine?_eq_some_iff (l : String × Scalar) (cs : List Char) :
    renderLine? l = some cs ↔ l.2.Fits ∧ cs = renderLine l := by
  rw [renderLine?, Option.bind_eq_bind, bind_eq_some_iff_of fun _ => Scalar.render?_eq_some_iff,
    Option.pure_def, Option.some_inj, eq_comm, renderLine]

/-- Whether a document can hold all the values under a header. -/
def Section.Fits (s : Section) : Prop :=
  ∀ l ∈ s.lines, l.2.Fits

theorem Section.render?_eq_some_iff {s : Section} {cs : List Char} :
    s.render? = some cs ↔ s.Fits ∧ cs = s.render := by
  rw [Section.render?, Option.bind_eq_bind,
    bind_eq_some_iff_of fun _ => mapM_eq_some_iff_of renderLine?_eq_some_iff, Option.pure_def,
    Option.some_inj, eq_comm, ← List.flatMap_def, Section.render, Section.Fits]

/-- **A document is written just if it can hold every value in it**, and then as it is spelled. -/
theorem render?_eq_some_iff {ss : List Section} {cs : List Char} :
    render? ss = some cs ↔ (∀ s ∈ ss, s.Fits) ∧ cs = render ss := by
  induction ss generalizing cs with
  | nil => simp [render?, render, eq_comm]
  | cons s ss ih =>
    cases ss with
    | nil => simp [render?, render, Section.render?_eq_some_iff]
    | cons t ss =>
      rw [List.forall_mem_cons, render?, Option.bind_eq_bind,
        bind_eq_some_iff_of fun _ => Section.render?_eq_some_iff, bind_eq_some_iff_of fun _ => ih,
        Option.pure_def, Option.some_inj, eq_comm, render, and_assoc]

/-- What no document can hold is a number that is too great. -/
theorem render?_eq_none_iff {ss : List Section} :
    render? ss = none ↔ ∃ s ∈ ss, ∃ l ∈ s.lines, ∃ n, l.2 = .natural n ∧ maxInteger < n := by
  rw [← Option.not_isSome_iff_eq_none, Option.isSome_iff_exists]
  simp only [render?_eq_some_iff, exists_and_left, exists_eq, and_true, Section.Fits,
    Classical.not_forall, exists_prop, Scalar.not_fits_iff]

/-! ### Keys -/

/-- A key that needs no quotes. -/
def IsBareKey (k : String) : Prop :=
  k.toList ≠ [] ∧ k.toList.all isBare = true

instance (k : String) : Decidable (IsBareKey k) :=
  inferInstanceAs (Decidable (_ ∧ _))

variable {k : String} {rest : List Char}

theorem ne_of_isBare {c d : Char} (hc : isBare c = true) (hd : isBare d = false) : c ≠ d := by
  rintro rfl
  rw [hc] at hd
  cases hd

theorem not_isBlank_of_isBare {c : Char} (h : isBare c = true) : isBlank c = false := by
  simp only [isBlank, Bool.or_eq_false_iff, decide_eq_false_iff_not]
  exact ⟨ne_of_isBare h (by decide), ne_of_isBare h (by decide)⟩

theorem IsBareKey.eq_cons (h : IsBareKey k) : ∃ c cs, k.toList = c :: cs ∧ isBare c = true := by
  obtain ⟨hne, hall⟩ := h
  cases hk : k.toList with
  | nil => exact absurd hk hne
  | cons c cs => exact ⟨c, cs, rfl, List.all_eq_true.1 hall c (hk ▸ List.mem_cons_self)⟩

theorem skipBlanks_cons {c : Char} (h : isBlank c = false) (cs : List Char) :
    skipBlanks (c :: cs) = c :: cs :=
  List.dropWhile_cons_of_neg (by simp [h])

theorem IsBareKey.skipBlanks_append (h : IsBareKey k) (rest : List Char) :
    skipBlanks (k.toList ++ rest) = k.toList ++ rest := by
  obtain ⟨c, cs, heq, hc⟩ := h.eq_cons
  rw [heq, List.cons_append, skipBlanks_cons (not_isBlank_of_isBare hc)]

theorem scanSimpleKey_append (h : IsBareKey k) {d : Char} (hd : isBare d = false) (cs : List Char) :
    scanSimpleKey (k.toList ++ d :: cs) = some (k, d :: cs) := by
  have hbare := List.all_eq_true.1 h.2
  have htake : (k.toList ++ d :: cs).takeWhile isBare = k.toList := by
    rw [List.takeWhile_append_of_pos hbare, List.takeWhile_cons_of_neg (by simp [hd]),
      List.append_nil]
  have hdrop : (k.toList ++ d :: cs).dropWhile isBare = d :: cs := by
    rw [List.dropWhile_append_of_pos hbare, List.dropWhile_cons_of_neg (by simp [hd])]
  have hne : k.toList.isEmpty = false := by simp [h.1]
  obtain ⟨c, more, heq, hc⟩ := h.eq_cons
  unfold scanSimpleKey
  split
  · next heq' =>
    rw [heq] at heq'
    exact absurd (List.cons.inj heq').1 (ne_of_isBare hc (by decide))
  · next heq' =>
    rw [heq] at heq'
    exact absurd (List.cons.inj heq').1 (ne_of_isBare hc (by decide))
  · simp only [htake, hdrop, hne, String.ofList_toList]
    rfl

/-- A key up to what follows it, which is no dot. -/
theorem scanKey_append (h : IsBareKey k) {d : Char} (hd : isBare d = false) {cs more : List Char}
    (hskip : skipBlanks (d :: cs) = more) (hdot : ∀ cs, more ≠ '.' :: cs) :
    scanKey (k.toList ++ d :: cs) = some ([k], more) := by
  have hparts : scanKeyParts ((k.toList ++ d :: cs).length + 1) (k.toList ++ d :: cs) =
      some ([k], more) := by
    rw [scanKeyParts, h.skipBlanks_append, scanSimpleKey_append h hd]
    simp only [bind, Option.bind_some, hskip]
    rfl
  rw [scanKey, hparts]
  rfl

/-! ### Tables -/

theorem Entries.get?_eq_none {es : Entries} (h : k ∉ es.map (·.1)) : es.get? k = none := by
  rw [Entries.get?, List.lookup_eq_none_iff]
  intro e he
  simp only [bne_iff_ne]
  exact fun heq => h (heq ▸ List.mem_map_of_mem he)

theorem Entries.insert_single {es : Entries} (h : es.get? k = none) (v : Value) :
    Entries.insert .header es [k] v = some (es ++ [(k, v)]) := by
  simp [Entries.insert, Entries.descend, h]

/-- The document under way in the table `name`, the tables `es` before it. -/
def Builder.under (es : Entries) (name : String) (current : Entries) : Builder :=
  { root := es, path := [name], isArray := false, current }

theorem Builder.finish_under {es current : Entries} (h : es.get? k = none) :
    (under es k current).finish = some (es ++ [(k, .table .header current)]) := by
  simp [under, finish, Entries.descend, h]

theorem Builder.openTable_single {b : Builder} {es : Entries} (hb : b.finish = some es)
    (h : es.get? k = none) : b.openTable [k] = some (under es k []) := by
  simp [openTable, hb, Entries.descend, h, under]

theorem Builder.insert_single {b : Builder} (h : b.current.get? k = none) (v : Value) :
    b.insert [k] v = some { b with current := b.current ++ [(k, v)] } := by
  simp only [insert, Entries.insert_single h]
  rfl

/-! ### Lines -/

/-- Reading `text` leads from `b` to `b'`, whatever follows it. -/
def Leads (b : Builder) (text : List Char) (b' : Builder) : Prop :=
  ∃ n ≤ text.length, ∀ fuel rest, scanLines (fuel + n) b (text ++ rest) = scanLines fuel b' rest

namespace Leads

variable {b b' b'' : Builder} {text text' : List Char}

theorem refl (b : Builder) : Leads b [] b :=
  ⟨0, Nat.le_refl 0, fun _ _ => rfl⟩

theorem trans (h : Leads b text b') (h' : Leads b' text' b'') : Leads b (text ++ text') b'' := by
  obtain ⟨n, hn, hread⟩ := h
  obtain ⟨m, hm, hread'⟩ := h'
  refine ⟨m + n, by rw [List.length_append]; omega, fun fuel rest => ?_⟩
  rw [← Nat.add_assoc, List.append_assoc, hread, hread']

theorem emptyLine (b : Builder) : Leads b ['\n'] b :=
  ⟨1, Nat.le_refl 1, fun _ _ => rfl⟩

theorem emptyLines (b : Builder) (n : Nat) : Leads b (List.replicate n '\n') b := by
  induction n with
  | zero => exact refl b
  | succ n ih => exact (emptyLine b).trans ih

theorem header (h : IsBareKey k) (hb : b.openTable [k] = some b') :
    Leads b ('[' :: k.toList ++ [']', '\n']) b' := by
  refine ⟨1, by simp, fun fuel rest => ?_⟩
  have hkey : scanKey (k.toList ++ ']' :: '\n' :: rest) = some ([k], ']' :: '\n' :: rest) :=
    scanKey_append h (by decide) (skipBlanks_cons (by decide) _)
      fun _ heq => absurd (List.cons.inj heq).1 (by decide)
  have hblank : skipBlanks ('[' :: (k.toList ++ ']' :: '\n' :: rest)) =
      '[' :: (k.toList ++ ']' :: '\n' :: rest) := skipBlanks_cons (by decide) _
  obtain ⟨c, cs, heq, hc⟩ := h.eq_cons
  simp only [List.cons_append, List.append_assoc, List.nil_append, scanLines, hblank]
  split
  · next heq' => cases heq'
  · -- the name does not begin with a bracket
    next heq' =>
    rw [heq] at heq'
    exact absurd (List.cons.inj (List.cons.inj heq').2).1 (ne_of_isBare hc (by decide))
  · next heq' =>
    rw [← (List.cons.inj heq').2, hkey]
    simp only [bind, Option.bind_some, scanMark, if_pos]
    rw [show endOfLine ('\n' :: rest) = some rest from rfl, Option.bind_some, hb, Option.bind_some]
  · next heq' => exact absurd (List.cons.inj heq').1 (by decide)
  · next hno _ => exact (hno _ rfl).elim

theorem line {v : Scalar} (h : IsBareKey k) (hv : v.Fits) (hb : b.insert [k] v.value = some b') :
    Leads b (renderLine (k, v)) b' := by
  refine ⟨1, by simp [renderLine]; omega, fun fuel rest => ?_⟩
  have hkey : scanKey (k.toList ++ ' ' :: '=' :: ' ' :: (v.render ++ '\n' :: rest)) =
      some ([k], '=' :: ' ' :: (v.render ++ '\n' :: rest)) :=
    scanKey_append h (by decide) rfl fun _ heq => absurd (List.cons.inj heq).1 (by decide)
  have hblank := h.skipBlanks_append (' ' :: '=' :: ' ' :: (v.render ++ '\n' :: rest))
  have hvalue : ∀ fuel, scanValue (fuel + 1) 0 (skipBlanks (' ' :: (v.render ++ '\n' :: rest))) =
      some (v.value, '\n' :: rest) := by
    intro fuel
    obtain ⟨c, cs, heq, hc, -⟩ := v.render_eq_cons
    have hskip : skipBlanks (' ' :: (v.render ++ '\n' :: rest)) = v.render ++ '\n' :: rest := by
      rw [heq, List.cons_append]
      exact skipBlanks_cons hc _
    rw [hskip, scanValue_render hv]
  obtain ⟨c, cs, heq, hc⟩ := h.eq_cons
  have hfirst : ∀ {d more}, k.toList ++ ' ' :: '=' :: ' ' :: (v.render ++ '\n' :: rest) =
      d :: more → isBare d = true := by
    intro d more heq'
    rw [heq] at heq'
    exact (List.cons.inj heq').1 ▸ hc
  have hline : newline? (k.toList ++ ' ' :: '=' :: ' ' :: (v.render ++ '\n' :: rest)) = none := by
    unfold newline?
    split
    · next heq' => exact absurd (hfirst heq') (by decide)
    · next heq' => exact absurd (hfirst heq') (by decide)
    · rfl
  simp only [renderLine, List.append_assoc, List.cons_append, List.nil_append, scanLines, hblank]
  split
  · next heq' =>
    rw [heq] at heq'
    cases heq'
  · next heq' => exact absurd (hfirst heq') (by decide)
  · next heq' => exact absurd (hfirst heq') (by decide)
  · next heq' => exact absurd (hfirst heq') (by decide)
  · simp only [hline, hkey, bind, Option.bind_some, scanMark, if_pos, hvalue]
    rw [show endOfLine ('\n' :: rest) = some rest from rfl, Option.bind_some, hb, Option.bind_some]

end Leads

/-! ### Sections -/

/-- The entries that lines stand for. -/
def entriesOf (lines : List (String × Scalar)) : Entries :=
  lines.map fun l => (l.1, l.2.value)

/-- The table that a section stands for, under its name. -/
def Section.entry (s : Section) : String × Value :=
  (s.name, .table .header (entriesOf s.lines))

/-- A section whose names need no quotes, whose keys are distinct and whose values fit. -/
structure Section.Plain (s : Section) : Prop where
  name : IsBareKey s.name
  keys : ∀ l ∈ s.lines, IsBareKey l.1
  values : ∀ l ∈ s.lines, l.2.Fits
  distinct : (s.lines.map (·.1)).Nodup

theorem Section.Plain.of_keys {name : String} {lines : List (String × Scalar)} (keys : List String)
    (hkeys : lines.map (·.1) = keys) (hbare : ∀ k ∈ name :: keys, IsBareKey k)
    (hdistinct : keys.Nodup) (hvalues : ∀ l ∈ lines, l.2.Fits) : (Section.mk name lines).Plain where
  name := hbare name List.mem_cons_self
  keys := fun _ hl => hbare _ (List.mem_cons_of_mem _ (hkeys ▸ List.mem_map_of_mem hl))
  values := hvalues
  distinct := hkeys ▸ hdistinct

theorem Leads.lines {b : Builder} {lines : List (String × Scalar)}
    (hkeys : ∀ l ∈ lines, IsBareKey l.1) (hvalues : ∀ l ∈ lines, l.2.Fits)
    (hdistinct : (b.current.map (·.1) ++ lines.map (·.1)).Nodup) :
    Leads b (lines.flatMap renderLine) { b with current := b.current ++ entriesOf lines } := by
  induction lines generalizing b with
  | nil =>
    rw [entriesOf, List.map_nil, List.append_nil]
    exact refl _
  | cons l lines ih =>
    obtain ⟨k, v⟩ := l
    have hfresh : k ∉ b.current.map (·.1) := fun hk =>
      (List.nodup_append.1 hdistinct).2.2 k hk k (List.mem_map_of_mem List.mem_cons_self) rfl
    have hline : Leads b (renderLine (k, v)) { b with current := b.current ++ [(k, v.value)] } :=
      .line (hkeys _ List.mem_cons_self) (hvalues _ List.mem_cons_self)
        (Builder.insert_single (Entries.get?_eq_none hfresh) _)
    have hlines : Leads { b with current := b.current ++ [(k, v.value)] } (lines.flatMap renderLine)
        { b with current := b.current ++ [(k, v.value)] ++ entriesOf lines } :=
      ih (fun l hl => hkeys l (List.mem_cons_of_mem _ hl))
        (fun l hl => hvalues l (List.mem_cons_of_mem _ hl)) (by simpa using hdistinct)
    rw [List.append_assoc] at hlines
    exact hline.trans hlines

theorem Leads.section {b : Builder} {es : Entries} {s : Section} (h : s.Plain)
    (hb : b.finish = some es) (hname : es.get? s.name = none) :
    Leads b s.render (.under es s.name (entriesOf s.lines)) :=
  (Leads.header h.name (Builder.openTable_single hb hname)).trans
    (Leads.lines h.keys h.values (by simpa [Builder.under] using h.distinct))

theorem Leads.render {b : Builder} {es : Entries} {ss : List Section} (hplain : ∀ s ∈ ss, s.Plain)
    (hb : b.finish = some es) (hdistinct : (es.map (·.1) ++ ss.map (·.name)).Nodup) :
    ∃ b', Leads b (render ss) b' ∧ b'.finish = some (es ++ ss.map Section.entry) := by
  induction ss generalizing b es with
  | nil => exact ⟨b, .refl b, by rw [hb, List.map_nil, List.append_nil]⟩
  | cons s ss ih =>
    have hname : es.get? s.name = none := Entries.get?_eq_none fun hk =>
      (List.nodup_append.1 hdistinct).2.2 _ hk _ List.mem_cons_self rfl
    have hsection : Leads b s.render _ := .section (hplain s List.mem_cons_self) hb hname
    have hfinish : (Builder.under es s.name (entriesOf s.lines)).finish = some (es ++ [s.entry]) :=
      Builder.finish_under hname
    cases ss with
    | nil => exact ⟨_, hsection, hfinish⟩
    | cons t ss =>
      obtain ⟨b', hrest, hb'⟩ := ih (fun s hs => hplain s (List.mem_cons_of_mem _ hs)) hfinish
        (by simpa [Section.entry] using hdistinct)
      refine ⟨b', hsection.trans ((Leads.emptyLine _).trans hrest), ?_⟩
      rw [hb', List.append_assoc]
      rfl

/-! ### Documents -/

/-- A document of lines that stand under no header, and of sections behind them. -/
structure Page where
  lines : List (String × Scalar)
  sections : List Section
  deriving DecidableEq, Repr

namespace Page

def render (p : Page) : List Char :=
  p.lines.flatMap renderLine ++ Toml.render p.sections

/-- The root table that a page stands for. -/
def entries (p : Page) : Entries :=
  entriesOf p.lines ++ p.sections.map Section.entry

/-- A page whose keys and names need no quotes and are distinct. -/
structure Keyed (p : Page) : Prop where
  bare : ∀ l ∈ p.lines, IsBareKey l.1
  names : ∀ s ∈ p.sections, IsBareKey s.name
  keys : ∀ s ∈ p.sections, ∀ l ∈ s.lines, IsBareKey l.1
  distinctKeys : ∀ s ∈ p.sections, (s.lines.map (·.1)).Nodup
  distinct : (p.lines.map (·.1) ++ p.sections.map (·.name)).Nodup

/-- A page whose values fit as well. -/
structure Plain (p : Page) : Prop extends Keyed p where
  fits : ∀ l ∈ p.lines, l.2.Fits
  values : ∀ s ∈ p.sections, ∀ l ∈ s.lines, l.2.Fits

variable {p : Page}

theorem Plain.head?_ne (h : p.Plain) (n : Nat) :
    (p.render ++ List.replicate n '\n').head? ≠ some '\ufeff' := by
  obtain ⟨lines, sections⟩ := p
  cases lines with
  | cons l lines =>
    obtain ⟨c, cs, heq, hc⟩ := (h.bare l List.mem_cons_self).eq_cons
    simp only [render, List.flatMap_cons, renderLine, heq, List.cons_append, List.head?_cons]
    exact fun hmark => ne_of_isBare hc (by decide) (Option.some.inj hmark)
  | nil =>
    cases sections with
    | cons s sections => cases sections <;> simp [render, Toml.render, Section.render]
    | nil => cases n <;> simp [render, Toml.render, List.replicate_succ]

end Page

theorem parse_ofList {cs : List Char} (h : cs.head? ≠ some '\ufeff') :
    parse (String.ofList cs) = scanLines (cs.length + 1) {} cs := by
  rw [parse, String.toList_ofList]
  cases cs with
  | nil => rfl
  | cons c cs =>
    have hc : c ≠ '\ufeff' := fun heq => h (congrArg some heq)
    simp [hc]

theorem entries_keys (lines : List (String × Scalar)) :
    (entriesOf lines).map (·.1) = lines.map (·.1) := by
  rw [entriesOf, List.map_map]
  rfl

/-- **A written document is read back**, with any number of empty lines behind it. -/
theorem parse_page {p : Page} (h : p.Plain) (n : Nat) :
    parse (String.ofList (p.render ++ List.replicate n '\n')) = some p.entries := by
  have hlines : Leads {} (p.lines.flatMap renderLine) { current := entriesOf p.lines } :=
    .lines h.bare h.fits (List.nodup_append.1 h.distinct).1
  have hplain : ∀ s ∈ p.sections, s.Plain := fun s hs =>
    ⟨h.names s hs, h.keys s hs, h.values s hs, h.distinctKeys s hs⟩
  obtain ⟨b, hrender, hb⟩ : ∃ b, Leads { current := entriesOf p.lines } (render p.sections) b ∧
      b.finish = some p.entries :=
    Leads.render hplain rfl (by rw [entries_keys]; exact h.distinct)
  obtain ⟨m, hm, hscan⟩ := (hlines.trans hrender).trans (.emptyLines b n)
  rw [parse_ofList (h.head?_ne n), Page.render]
  generalize p.lines.flatMap renderLine ++ render p.sections ++ List.replicate n '\n' = text at *
  have hend := hscan (text.length - m + 1) []
  rw [List.append_nil, show text.length - m + 1 + m = text.length + 1 by omega] at hend
  rw [hend, scanLines]
  exact hb

theorem parse_render {ss : List Section} (hplain : ∀ s ∈ ss, s.Plain)
    (hdistinct : (ss.map (·.name)).Nodup) (n : Nat) :
    parse (String.ofList (render ss ++ List.replicate n '\n')) = some (ss.map Section.entry) := by
  have hkeyed : (Page.mk [] ss).Keyed :=
    ⟨List.forall_mem_nil _, fun s hs => (hplain s hs).name, fun s hs => (hplain s hs).keys,
      fun s hs => (hplain s hs).distinct, hdistinct⟩
  exact parse_page ⟨hkeyed, List.forall_mem_nil _, fun s hs => (hplain s hs).values⟩ n

end Corelink.Toml
