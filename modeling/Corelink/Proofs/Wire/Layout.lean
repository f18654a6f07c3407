import Corelink.Proofs.Wire.Row

/-!
# Layouts of payloads

A layout tells, from the fields that a payload has so far, which one is to come next
(`Layout`). Each field says how long it is, so the bytes of a payload decide how far it follows its
layout (`Layout.Runs.compare`): it is whole and ends there, or is whole and goes on, or breaks off
inside a field. `Layout.Decodes` gives the result for each of the three, and there is one result
for each payload (`Decodes.unique`). A reader that takes the fields as the layout tells gives it
(`Follows.decode`), and to follow a layout is shown field by field (`Follows.bind`).
-/

namespace Corelink.Wire

/-- The field that is to come next. -/
inductive Want where
  | flag (name : String)
  | word (name : String) (size : Nat)
  | text (name : String)
  deriving DecidableEq, Repr

namespace Want

def name : Want → String
  | flag name | word name _ | text name => name

/-- Whether this is such a field. -/
def Is : Want → Piece → Prop
  | flag _, .flag _ => True
  | word _ size, .word bs => bs.length = size
  | text name, .text field slice => field = name ∧ slice.length ≤ maxFieldSize
  | _, _ => False

/-- The bytes that the field begins with: all of a flag or a word, the length of a text. -/
def head : Want → Nat
  | flag _ => 1
  | word _ size => size
  | text _ => 2

/-- The bytes end inside the field: where they run short, so many are needed and so many left. -/
inductive Short (w : Want) (bs : Bytes) : Nat → Nat → Prop where
  | head : bs.length < w.head → Short w bs w.head bs.length
  | body {name : String} {n : Nat} {rest : Bytes} : w = text name → n ≤ maxFieldSize →
    bs = BigEndian.ofNat 2 n ++ rest → rest.length < n → Short w bs n rest.length

variable {w : Want} {x y : Piece} {bs rest : Bytes} {needed remaining needed' remaining' : Nat}

theorem Is.fits (h : w.Is x) : x.Fits := by
  cases x with
  | flag | word => trivial
  | text field slice =>
    cases w with
    | text => exact h.2
    | flag | word => cases h

theorem Is.flag {name : String} (h : (Want.flag name).Is x) : ∃ b, x = .flag b := by
  cases x with
  | flag b => exact ⟨b, rfl⟩
  | word | text => cases h

theorem Is.word {name : String} {size : Nat} (h : (Want.word name size).Is x) :
    ∃ bs, x = .word bs ∧ bs.length = size := by
  cases x with
  | word bs => exact ⟨bs, rfl, h⟩
  | flag | text => cases h

theorem Is.text {name : String} (h : (Want.text name).Is x) :
    ∃ slice, x = .text name slice ∧ slice.length ≤ maxFieldSize := by
  cases x with
  | text field slice =>
    obtain ⟨rfl, hfits⟩ := h
    exact ⟨slice, rfl, hfits⟩
  | flag | word => cases h

theorem Is.alike (hx : w.Is x) (hy : w.Is y) : x.Alike y := by
  cases w with
  | flag =>
    obtain ⟨b, rfl⟩ := hx.flag
    obtain ⟨c, rfl⟩ := hy.flag
    trivial
  | word =>
    obtain ⟨bs, rfl, hbs⟩ := hx.word
    obtain ⟨cs, rfl, hcs⟩ := hy.word
    exact hbs.trans hcs.symm
  | text =>
    obtain ⟨slice, rfl, -⟩ := hx.text
    obtain ⟨slice', rfl, -⟩ := hy.text
    rfl

theorem Is.head_le (h : w.Is x) : w.head ≤ x.bytes.length := by
  cases w with
  | flag =>
    obtain ⟨b, rfl⟩ := h.flag
    exact Nat.le_refl 1
  | word =>
    obtain ⟨bs, rfl, rfl⟩ := h.word
    exact Nat.le_refl _
  | text =>
    obtain ⟨slice, rfl, -⟩ := h.text
    simp [head, Piece.bytes]

theorem Short.lt (h : w.Short bs needed remaining) : remaining < needed := by
  cases h with
  | head h => exact h
  | body _ _ _ h => exact h

theorem Short.not_is (h : w.Short (x.bytes ++ rest) needed remaining) : ¬ w.Is x := by
  intro hx
  cases h with
  | head hshort =>
    have hle := hx.head_le
    rw [List.length_append] at hshort
    omega
  | @body name n tail hw hn he hshort =>
    subst hw
    obtain ⟨slice, rfl, hfits⟩ := hx.text
    rw [Piece.bytes, List.append_assoc] at he
    obtain ⟨hlength, htail⟩ := List.append_inj he (by simp)
    have hsize := Piece.ofNat_two_inj hfits hn hlength
    rw [← htail, List.length_append] at hshort
    omega

/-- The bytes tell where they run short. -/
theorem Short.unique (h : w.Short bs needed remaining) (h' : w.Short bs needed' remaining') :
    needed = needed' ∧ remaining = remaining' := by
  -- behind a whole length it is the text that is short
  have apart : ∀ {name : String} {n : Nat} {tail : Bytes}, w = text name →
      bs = BigEndian.ofNat 2 n ++ tail → ¬ bs.length < w.head := by
    rintro name n tail rfl rfl hshort
    rw [List.length_append, BigEndian.length_ofNat] at hshort
    exact absurd hshort (Nat.not_lt.2 (Nat.le_add_right 2 _))
  cases h with
  | head hshort =>
    cases h' with
    | head => exact ⟨rfl, rfl⟩
    | body hw _ he => exact absurd hshort (apart hw he)
  | body hw hn he =>
    cases h' with
    | head hshort => exact absurd hshort (apart hw he)
    | body _ hn' he' =>
      obtain ⟨hlength, rfl⟩ := List.append_inj (he.symm.trans he') (by simp)
      exact ⟨Piece.ofNat_two_inj hn hn' hlength, rfl⟩

end Want

/-- What is to come behind the fields so far; nothing, if they are a whole payload. -/
abbrev Layout := List Piece → Option Want

namespace Layout

variable {α : Type} {L : Layout} {value : List Piece → α} {before row row' : List Piece}
  {p a b : Bytes} {needed remaining : Nat} {w : Want} {x : Piece}

/-- The fields follow the layout, behind those before. -/
def Runs (L : Layout) (before : List Piece) : List Piece → Prop
  | [] => True
  | x :: row => (∃ w, L before = some w ∧ w.Is x) ∧ L.Runs (before ++ [x]) row

/-- The fields follow the layout, behind those before, and no more are to come. -/
structure Ends (L : Layout) (before row : List Piece) : Prop where
  runs : L.Runs before row
  complete : L (before ++ row) = none

/-- The fields are those of a payload, the first ones at least. -/
def Begun (L : Layout) (row : List Piece) : Prop :=
  L.Runs [] row

/-- The fields are those of a payload, and no more are to come. -/
abbrev Whole (L : Layout) (row : List Piece) : Prop :=
  L.Ends [] row

theorem Whole.begun (h : L.Whole row) : L.Begun row :=
  h.runs

theorem Whole.eq_none (h : L.Whole row) : L row = none :=
  h.complete

theorem runs_cons (hw : L before = some w) :
    L.Runs before (x :: row) ↔ w.Is x ∧ L.Runs (before ++ [x]) row := by
  simp [Runs, hw]

theorem not_runs_cons (h : L before = none) : ¬ L.Runs before (x :: row) := by
  simp [Runs, h]

theorem runs_append (before row row' : List Piece) :
    L.Runs before (row ++ row') ↔ L.Runs before row ∧ L.Runs (before ++ row) row' := by
  induction row generalizing before with
  | nil => simp [Runs]
  | cons x row ih =>
    simp only [List.cons_append, Runs, ih, and_assoc, List.append_assoc, List.nil_append]

theorem begun_append : L.Begun (row ++ row') ↔ L.Begun row ∧ L.Runs row row' :=
  runs_append [] row row'

theorem Ends.cons (hw : L before = some w) (h : L.Ends before row) :
    ∃ x row', row = x :: row' ∧ w.Is x ∧ L.Ends (before ++ [x]) row' := by
  cases row with
  | nil =>
    have hnone := h.complete
    rw [List.append_nil, hw] at hnone
    cases hnone
  | cons x row =>
    obtain ⟨hx, hrow⟩ := (runs_cons hw).1 h.runs
    exact ⟨x, row, rfl, hx, hrow, by simpa using h.complete⟩

theorem Ends.nil (hnone : L before = none) (h : L.Ends before row) : row = [] := by
  cases row with
  | nil => rfl
  | cons x row => exact absurd h.runs (not_runs_cons hnone)

theorem Runs.fits (h : L.Runs before row) : ∀ x ∈ row, x.Fits := by
  induction row generalizing before with
  | nil => simp
  | cons x row ih =>
    obtain ⟨⟨w, -, hx⟩, hrow⟩ := h
    exact List.forall_mem_cons.2 ⟨hx.fits, ih hrow⟩

/-- **Of two ways to read the same bytes, one goes further than the other.** -/
theorem Runs.compare (h : L.Runs before row) (h' : L.Runs before row')
    (he : rowBytes row ++ a = rowBytes row' ++ b) :
    (∃ more, row' = row ++ more ∧ a = rowBytes more ++ b) ∨
      ∃ more, row = row' ++ more ∧ b = rowBytes more ++ a := by
  induction row generalizing before row' with
  | nil => exact .inl ⟨row', rfl, he⟩
  | cons x row ih =>
    cases row' with
    | nil => exact .inr ⟨x :: row, rfl, he.symm⟩
    | cons y row' =>
      obtain ⟨⟨w, hw, hx⟩, hrow⟩ := h
      obtain ⟨⟨w', hw', hy⟩, hrow'⟩ := h'
      obtain rfl : w = w' := Option.some.inj (hw.symm.trans hw')
      rw [rowBytes_cons, rowBytes_cons, List.append_assoc, List.append_assoc] at he
      obtain ⟨rfl, hrest⟩ := (hx.alike hy).eq_of_append hx.fits hy.fits he
      obtain ⟨more, rfl, ha⟩ | ⟨more, rfl, hb⟩ := ih hrow hrow' hrest
      · exact .inl ⟨more, rfl, ha⟩
      · exact .inr ⟨more, rfl, hb⟩

theorem Whole.eq_nil (h : L.Whole row) {more : List Piece} (hb : L.Begun (row ++ more)) :
    more = [] := by
  cases more with
  | nil => rfl
  | cons x more => exact absurd (begun_append.1 hb).2 (not_runs_cons h.eq_none)

theorem Whole.eq_append (h : L.Whole row) (h' : L.Begun row')
    (he : rowBytes row ++ a = rowBytes row' ++ b) :
    ∃ more, row = row' ++ more ∧ b = rowBytes more ++ a := by
  obtain ⟨more, rfl, ha⟩ | hmore := h.begun.compare h' he
  · obtain rfl := h.eq_nil h'
    exact ⟨[], by simp, ha.symm⟩
  · exact hmore

theorem Whole.unique (h : L.Whole row) (h' : L.Whole row')
    (he : rowBytes row ++ a = rowBytes row' ++ b) : row = row' ∧ a = b := by
  obtain ⟨more, rfl, hb⟩ := h.eq_append h'.begun he
  obtain rfl := h'.eq_nil h.begun
  exact ⟨List.append_nil row', hb.symm⟩

/-- Whose bytes run short inside a field has no more than the fields before it. -/
theorem Begun.le_of_short (h : L.Begun row) (hw : L row = some w) (hs : w.Short a needed remaining)
    (h' : L.Begun row') (he : rowBytes row ++ a = rowBytes row' ++ b) :
    ∃ more, row = row' ++ more ∧ b = rowBytes more ++ a := by
  obtain ⟨more, rfl, ha⟩ | hle := h.compare h' he
  · cases more with
    | nil => exact ⟨[], by simp, ha.symm⟩
    | cons x more =>
      have hx := ((runs_cons hw).1 (begun_append.1 h').2).1
      rw [rowBytes_cons, List.append_assoc] at ha
      exact absurd hx (ha ▸ hs).not_is
  · exact hle

/-- Whose bytes run short is not a whole payload, and holds none. -/
theorem Whole.not_short (h : L.Whole row) (h' : L.Begun row') (hw : L row' = some w)
    (hs : w.Short b needed remaining) : rowBytes row ++ a ≠ rowBytes row' ++ b := by
  intro he
  obtain ⟨more, rfl, -⟩ := h'.le_of_short hw hs h.begun he.symm
  obtain rfl := h.eq_nil h'
  rw [List.append_nil, h.eq_none] at hw
  cases hw

/-! ### What is decoded -/

/-- The result for a payload with this layout, where `value` is what its fields mean. -/
inductive Decodes (L : Layout) (value : List Piece → α) (p : Bytes) :
    Except FramingError α → Prop where
  | whole {row : List Piece} : L.Whole row → p = rowBytes row → Decodes L value p (.ok (value row))
  | trailing {row : List Piece} {rest : Bytes} : L.Whole row → rest ≠ [] →
    p = rowBytes row ++ rest → Decodes L value p (.error (.trailingBytes rest.length))
  | truncated {row : List Piece} {rest : Bytes} {w : Want} {needed remaining : Nat} :
    L.Begun row → L row = some w → w.Short rest needed remaining → p = rowBytes row ++ rest →
    Decodes L value p (.error (.truncated w.name needed remaining))

/-- **A payload has one result.** -/
theorem Decodes.unique {r r' : Except FramingError α} (h : L.Decodes value p r)
    (h' : L.Decodes value p r') : r = r' := by
  cases h with
  | @whole row hrow hp =>
    rw [← List.append_nil (rowBytes row)] at hp
    cases h' with
    | @whole row' hrow' hp' =>
      rw [← List.append_nil (rowBytes row')] at hp'
      rw [(hrow.unique hrow' (hp.symm.trans hp')).1]
    | trailing hrow' hrest hp' =>
      exact absurd (hrow.unique hrow' (hp.symm.trans hp')).2.symm hrest
    | truncated hrow' hw hs hp' => exact absurd (hp.symm.trans hp') (hrow.not_short hrow' hw hs)
  | trailing hrow hrest hp =>
    cases h' with
    | @whole row' hrow' hp' =>
      rw [← List.append_nil (rowBytes row')] at hp'
      exact absurd (hrow.unique hrow' (hp.symm.trans hp')).2 hrest
    | trailing hrow' _ hp' => rw [(hrow.unique hrow' (hp.symm.trans hp')).2]
    | truncated hrow' hw hs hp' => exact absurd (hp.symm.trans hp') (hrow.not_short hrow' hw hs)
  | truncated hrow hw hs hp =>
    cases h' with
    | @whole row' hrow' hp' =>
      rw [← List.append_nil (rowBytes row')] at hp'
      exact absurd (hp'.symm.trans hp) (hrow'.not_short hrow hw hs)
    | trailing hrow' _ hp' => exact absurd (hp'.symm.trans hp) (hrow'.not_short hrow hw hs)
    | truncated hrow' hw' hs' hp' =>
      obtain ⟨more, rfl, hrest⟩ := hrow.le_of_short hw hs hrow' (hp.symm.trans hp')
      obtain ⟨less, hless, -⟩ := hrow'.le_of_short hw' hs' hrow (hp'.symm.trans hp)
      obtain ⟨rfl, -⟩ : more = [] ∧ less = [] := by simpa using hless
      rw [List.append_nil, hw'] at hw
      cases hw
      obtain ⟨rfl, rfl⟩ := hs.unique (hrest ▸ hs')
      rfl

/-! ### Readers -/

/-- What a reader makes of the bytes behind the fields in `before`. -/
inductive Reads (L : Layout) (value : List Piece → α) (before : List Piece) (bs : Bytes) :
    Except FramingError α × Bytes → Prop where
  | whole {row : List Piece} {rest : Bytes} : L.Ends before row → bs = rowBytes row ++ rest →
    Reads L value before bs (.ok (value (before ++ row)), rest)
  | truncated {row : List Piece} {rest left : Bytes} {w : Want} {needed remaining : Nat} :
    L.Runs before row → L (before ++ row) = some w → w.Short rest needed remaining →
    bs = rowBytes row ++ rest →
    Reads L value before bs (.error (.truncated w.name needed remaining), left)

/-- The reader takes what the layout tells is to come behind the fields in `before`. -/
def Follows (L : Layout) (value : List Piece → α) (before : List Piece) (r : Reader α) : Prop :=
  ∀ bs, L.Reads value before bs (r bs)

/-- What a reader makes of one field. -/
inductive Gives {β : Type} (w : Want) (make : Piece → β) (bs : Bytes) :
    Except FramingError β × Bytes → Prop where
  | field {x : Piece} {rest : Bytes} : w.Is x → bs = x.bytes ++ rest →
    Gives w make bs (.ok (make x), rest)
  | short {left : Bytes} {needed remaining : Nat} : w.Short bs needed remaining →
    Gives w make bs (.error (.truncated w.name needed remaining), left)

variable {β : Type} {make : Piece → β} {r : Reader β} {f : β → Reader α}

/-- **A reader follows a layout field by field.** -/
theorem Follows.bind (hw : L before = some w) (hr : ∀ bs, Gives w make bs (r bs))
    (hf : ∀ x, w.Is x → L.Follows value (before ++ [x]) (f (make x))) :
    L.Follows value before (r >>= f) := by
  intro bs
  show L.Reads value before bs (Reader.bind r f bs)
  have hread := hr bs
  unfold Reader.bind
  generalize r bs = result at hread
  cases hread with
  | @field x rest hx hbs =>
    have hrest := hf x hx rest
    generalize hresult : f (make x) rest = result at hrest
    show L.Reads value before bs (f (make x) rest)
    rw [hresult]
    cases hrest with
    | @whole row rest' hrow hrest =>
      have hnone := hrow.complete
      rw [List.append_assoc, List.singleton_append] at hnone ⊢
      refine .whole ⟨⟨⟨w, hw, hx⟩, hrow.runs⟩, hnone⟩ ?_
      rw [hbs, hrest, rowBytes_cons, List.append_assoc]
    | @truncated row rest' left w' needed remaining hrow hw' hs hrest =>
      rw [List.append_assoc, List.singleton_append] at hw'
      have hxs : L.Runs before (x :: row) := ⟨⟨w, hw, hx⟩, hrow⟩
      refine .truncated hxs hw' hs ?_
      rw [hbs, hrest, rowBytes_cons, List.append_assoc]
  | short hs =>
    have hnil : L.Runs before [] := trivial
    exact .truncated hnil (by rwa [List.append_nil]) hs rfl

theorem follows_pure (hnone : L before = none) :
    L.Follows value before (Pure.pure (value before)) := by
  intro bs
  have h : L.Reads value before bs (.ok (value (before ++ [])), bs) :=
    .whole ⟨trivial, by rwa [List.append_nil]⟩ rfl
  rwa [List.append_nil] at h

/-- **Who follows the layout to its end decodes by it.** -/
theorem Follows.decode {r : Reader α} (h : L.Follows value [] r) (p : Bytes) :
    L.Decodes value p (r.decode p) := by
  show L.Decodes value p (Reader.bind r _ p).1
  have hread := h p
  unfold Reader.bind
  generalize r p = result at hread
  cases hread with
  | @whole row rest hwhole hp =>
    rw [List.nil_append]
    show L.Decodes value p (Reader.bind Reader.finish _ rest).1
    unfold Reader.bind Reader.finish
    cases rest with
    | nil =>
      rw [List.append_nil] at hp
      exact .whole hwhole hp
    | cons b rest => exact .trailing hwhole (List.cons_ne_nil b rest) hp
  | @truncated row rest left w needed remaining hrow hw hs hp =>
    rw [List.nil_append] at hw
    exact .truncated hrow hw hs hp

end Layout

/-! ### Fields -/

theorem Reader.bind_bind {α β γ : Type} (r : Reader α) (f : α → Reader β) (g : β → Reader γ) :
    r >>= f >>= g = r >>= fun a => f a >>= g := by
  funext bs
  show Reader.bind (Reader.bind r f) g bs = Reader.bind r (fun a => Reader.bind (f a) g) bs
  unfold Reader.bind
  rcases r bs with ⟨_ | _, _⟩ <;> rfl

namespace Piece

/-- The byte of a flag. -/
def byte : Piece → UInt8
  | flag b => b
  | word _ | text .. => 0

/-- The number that a word spells. -/
def number : Piece → Nat
  | word bs => BigEndian.toNat bs
  | flag _ | text .. => 0

/-- The text that is read. -/
def string : Piece → String
  | text _ slice => Utf8.decodeLossy slice
  | flag _ | word _ => ""

end Piece

namespace Layout

variable {field : String} {bs : Bytes}

theorem take_cases (field : String) (n : Nat) (bs : Bytes) :
    (∃ x rest, x.length = n ∧ bs = x ++ rest ∧ Reader.take field n bs = (.ok x, rest)) ∨
      (bs.length < n ∧ Reader.take field n bs = (.error (.truncated field n bs.length), bs)) := by
  unfold Reader.take
  split
  · next hshort => exact .inr ⟨(Bytes.shorterThan_iff _ _).1 hshort, rfl⟩
  · next hlong =>
    rw [Bytes.shorterThan_iff, Nat.not_lt] at hlong
    exact .inl ⟨_, _, List.length_take_of_le hlong, (List.take_append_drop n bs).symm, rfl⟩

theorem gives_word {β : Type} (field : String) (k : Nat) (g : Nat → β) (bs : Bytes) :
    Gives (.word field k) (fun x => g x.number) bs
      ((Reader.take field k >>= fun x => Pure.pure (g (BigEndian.toNat x))) bs) := by
  show Gives _ _ bs (Reader.bind _ _ bs)
  unfold Reader.bind
  obtain ⟨x, rest, hx, hbs, htake⟩ | ⟨hshort, htake⟩ := take_cases field k bs
  · rw [htake]
    exact .field (x := .word x) hx hbs
  · rw [htake]
    exact .short (.head hshort)

theorem gives_u8 (field : String) (bs : Bytes) :
    Gives (.flag field) Piece.byte bs (Reader.u8 field bs) := by
  show Gives (.flag field) Piece.byte bs (Reader.bind _ _ bs)
  unfold Reader.bind
  obtain ⟨x, rest, hx, hbs, htake⟩ | ⟨hshort, htake⟩ := take_cases field 1 bs
  · obtain ⟨b, rfl⟩ := List.length_eq_one_iff.1 hx
    have hb : UInt8.ofNat (BigEndian.toNat [b]) = b := by simp [BigEndian.toNat]
    rw [htake]
    show Gives (.flag field) Piece.byte bs (.ok (UInt8.ofNat (BigEndian.toNat [b])), rest)
    rw [hb]
    exact .field (w := .flag field) (x := .flag b) trivial hbs
  · rw [htake]
    exact .short (.head hshort)

theorem gives_text (field : String) (bs : Bytes) :
    Gives (.text field) Piece.string bs (Reader.text field bs) := by
  have hu16 : Gives (.word field 2) (fun x => UInt16.ofNat x.number) bs (Reader.u16 field bs) :=
    gives_word field 2 UInt16.ofNat bs
  show Gives (.text field) Piece.string bs (Reader.bind (Reader.u16 field) _ bs)
  unfold Reader.bind
  generalize Reader.u16 field bs = result at hu16
  cases hu16 with
  | @field x rest hx hbs =>
    obtain ⟨front, rfl, hfront⟩ := Want.Is.word hx
    have hn : BigEndian.toNat front ≤ maxFieldSize := by
      have hlt := BigEndian.toNat_lt front
      rw [hfront] at hlt
      exact Nat.le_of_lt_succ hlt
    have hword : front = BigEndian.ofNat 2 (BigEndian.toNat front) := by
      rw [← hfront, BigEndian.ofNat_toNat]
    have hbs : bs = front ++ rest := hbs
    show Gives (.text field) Piece.string bs
      (Reader.bind (Reader.take field (UInt16.ofNat (BigEndian.toNat front)).toNat) _ rest)
    rw [Reader.toNat_u16 hn]
    generalize BigEndian.toNat front = n at hn hword
    unfold Reader.bind
    obtain ⟨slice, rest', rfl, hrest, hbody⟩ | ⟨hshort, hbody⟩ := take_cases field n rest
    · rw [hbody]
      refine .field (x := .text field slice) ⟨rfl, hn⟩ ?_
      rw [Piece.bytes, hbs, hrest, hword, List.append_assoc]
    · rw [hbody]
      exact .short (.body rfl hn (hword ▸ hbs) hshort)
  | short hs =>
    cases hs with
    | head hshort => exact .short (.head hshort)
    | body hw => cases hw

theorem Follows.textList {α : Type} {L : Layout} {value : List Piece → α} {before : List Piece}
    {f : List String → Reader α} {n : Nat}
    (hmore : ∀ row, row.length < n → L.Runs before row → L (before ++ row) = some (.text field))
    (hf : ∀ row, row.length = n → L.Runs before row →
      L.Follows value (before ++ row) (f (row.map Piece.string))) :
    L.Follows value before (Reader.textList field n >>= f) := by
  induction n generalizing before f with
  | zero =>
    have h := hf [] rfl trivial
    rwa [List.append_nil] at h
  | succ n ih =>
    have hw : L before = some (.text field) := by
      have h := hmore [] (Nat.succ_pos n) trivial
      rwa [List.append_nil] at h
    rw [Reader.textList, Reader.bind_bind]
    refine .bind hw (gives_text field) fun x hx => ?_
    rw [Reader.bind_bind]
    refine ih (fun row hlength hrow => ?_) fun row hlength hrow => ?_
    · rw [List.append_assoc]
      exact hmore (x :: row) (Nat.succ_lt_succ hlength) ⟨⟨_, hw, hx⟩, hrow⟩
    · rw [List.append_assoc]
      exact hf (x :: row) (congrArg Nat.succ hlength) ⟨⟨_, hw, hx⟩, hrow⟩

end Layout

end Corelink.Wire
