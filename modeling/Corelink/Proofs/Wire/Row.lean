import Corelink.Proofs.Wire.Message
import Mathlib.Data.List.Forall2

/-!
# Payloads as rows of fields

A payload is a row of fields, one behind the other: a flag, a word of a fixed number of bytes, or a
text with its length in front (`Piece`). Each field says how long it is, so two rows of one shape
that are written as the same bytes are the same row (`row_unique`). A reader takes off the front
what a row would write there (`Reader.text_ok`, `Reader.textList_ok`), but it makes more of it than
a writer would put there: `Piece.repaired` is the field that is written for what was read, and
`writeRow` fails at the first field that does not fit (`writeRow_of_not_fits`).
-/

namespace Corelink.Wire

/-- A field as it stands in a payload. -/
inductive Piece where
  | flag (b : UInt8)
  | word (bs : Bytes)
  | text (field : String) (slice : Bytes)
  deriving DecidableEq, Repr

namespace Piece

def bytes : Piece → Bytes
  | flag b => [b]
  | word bs => bs
  | text _ slice => BigEndian.ofNat 2 slice.length ++ slice

/-- Whether two bytes in front can say how long the text is. -/
def Fits : Piece → Prop
  | text _ slice => slice.length ≤ maxFieldSize
  | flag _ | word _ => True

/-- Whether a writer would put it like this: a flag is 0 or 1, and the bytes of a text are UTF-8. -/
def IsPlain : Piece → Prop
  | flag b => b = 0 ∨ b = 1
  | word _ => True
  | text _ slice => ∃ s, Utf8.encode s = slice

/-- What a writer puts for it once it has been read. -/
def repaired : Piece → Piece
  | flag b => flag (if b != 0 then 1 else 0)
  | word bs => word bs
  | text field slice => text field (Utf8.encode (Utf8.decodeLossy slice))

/-- Whether the fields can stand at the same place of a payload. -/
def Alike : Piece → Piece → Prop
  | flag _, flag _ => True
  | word a, word b => a.length = b.length
  | text f _, text g _ => f = g
  | _, _ => False

def write : Piece → Except ValidationError Bytes
  | text field slice =>
    if slice.length > maxFieldSize then .error (.fieldTooLong field slice.length)
    else .ok (text field slice).bytes
  | x => .ok x.bytes

@[simp] theorem fits_flag (b : UInt8) : (flag b).Fits := trivial

@[simp] theorem fits_word (bs : Bytes) : (word bs).Fits := trivial

theorem alike_repaired (x : Piece) : x.Alike x.repaired := by
  cases x <;> trivial

theorem repaired_eq_self_iff (x : Piece) : x.repaired = x ↔ x.IsPlain := by
  cases x with
  | flag b =>
    simp only [repaired, IsPlain, flag.injEq, bne_iff_ne, ne_eq, ite_not]
    by_cases hb : b = 0
    · simp [hb]
    · simp [hb, eq_comm]
  | word bs => simp [repaired, IsPlain]
  | text field slice =>
    simp only [repaired, IsPlain, text.injEq, true_and]
    constructor
    · intro h
      exact ⟨_, h⟩
    · rintro ⟨s, rfl⟩
      rw [Utf8.decodeLossy_encode]

theorem ofNat_two_inj {m n : Nat} (hm : m ≤ maxFieldSize) (hn : n ≤ maxFieldSize)
    (h : BigEndian.ofNat 2 m = BigEndian.ofNat 2 n) : m = n := by
  have hnat := congrArg BigEndian.toNat h
  have hm' : m < Nat.pow 256 2 := Nat.lt_succ_of_le hm
  have hn' : n < Nat.pow 256 2 := Nat.lt_succ_of_le hn
  rwa [BigEndian.toNat_ofNat, BigEndian.toNat_ofNat, Nat.mod_eq_of_lt hm',
    Nat.mod_eq_of_lt hn'] at hnat

theorem Alike.eq_of_append {x y : Piece} {a b : Bytes} (h : x.Alike y) (hx : x.Fits) (hy : y.Fits)
    (he : x.bytes ++ a = y.bytes ++ b) : x = y ∧ a = b := by
  cases x <;> cases y <;> first | cases h | skip
  case flag.flag =>
    obtain ⟨rfl, rfl⟩ := List.cons.inj he
    exact ⟨rfl, rfl⟩
  case word.word =>
    obtain ⟨rfl, rfl⟩ := List.append_inj he h
    exact ⟨rfl, rfl⟩
  case text.text.refl f s r =>
    simp only [bytes, List.append_assoc] at he
    obtain ⟨hlength, he⟩ := List.append_inj he (by simp)
    have hsr : s.length = r.length := ofNat_two_inj hx hy hlength
    obtain ⟨rfl, rfl⟩ := List.append_inj he hsr
    exact ⟨rfl, rfl⟩

theorem write_of_fits {x : Piece} (h : x.Fits) : x.write = .ok x.bytes := by
  cases x with
  | flag | word => rfl
  | text field slice => exact if_neg (Nat.not_lt.2 h)

theorem write_of_not_fits {field : String} {slice : Bytes} (h : ¬ (text field slice).Fits) :
    (text field slice).write = .error (.fieldTooLong field slice.length) :=
  if_pos (Nat.not_le.1 h)

end Piece

/-! ### Rows -/

/-- The bytes of a row. -/
def rowBytes (row : List Piece) : Bytes :=
  row.flatMap Piece.bytes

@[simp] theorem rowBytes_nil : rowBytes [] = [] := rfl

@[simp] theorem rowBytes_cons (x : Piece) (row : List Piece) :
    rowBytes (x :: row) = x.bytes ++ rowBytes row := rfl

/-- **The bytes of a row give it back**, if its shape is known. -/
theorem row_unique {row row' : List Piece} (h : List.Forall₂ Piece.Alike row row')
    (hrow : ∀ x ∈ row, x.Fits) (hrow' : ∀ x ∈ row', x.Fits) (he : rowBytes row = rowBytes row') :
    row = row' := by
  induction h with
  | nil => rfl
  | @cons x y row row' hxy _ ih =>
    rw [List.forall_mem_cons] at hrow hrow'
    obtain ⟨rfl, hrest⟩ := hxy.eq_of_append hrow.1 hrow'.1 he
    rw [ih hrow.2 hrow'.2 hrest]

/-- Writes the fields one after another; the first one that does not fit ends it. -/
def writeRow : List Piece → Except ValidationError Bytes
  | [] => .ok []
  | x :: row => do
    let bs ← x.write
    let rest ← writeRow row
    return bs ++ rest

theorem writeRow_nil : writeRow [] = pure [] := rfl

theorem writeRow_cons (x : Piece) (row : List Piece) : writeRow (x :: row) = (do
    let bs ← x.write
    let rest ← writeRow row
    pure (bs ++ rest)) := rfl

theorem writeRow_of_fits {row : List Piece} (h : ∀ x ∈ row, x.Fits) :
    writeRow row = .ok (rowBytes row) := by
  induction row with
  | nil => rfl
  | cons x row ih =>
    rw [List.forall_mem_cons] at h
    rw [writeRow, Piece.write_of_fits h.1, ih h.2]
    rfl

/-- A row that is not written has a first field that does not fit, and the error names it. -/
theorem writeRow_of_not_fits {row : List Piece} (h : ¬ ∀ x ∈ row, x.Fits) :
    ∃ before field slice later, row = before ++ .text field slice :: later ∧
      (∀ x ∈ before, x.Fits) ∧ maxFieldSize < slice.length ∧
      writeRow row = .error (.fieldTooLong field slice.length) := by
  induction row with
  | nil => exact absurd (by simp) h
  | cons x row ih =>
    by_cases hx : x.Fits
    · have hrow : ¬ ∀ y ∈ row, y.Fits := fun hrow => h (List.forall_mem_cons.2 ⟨hx, hrow⟩)
      obtain ⟨before, field, slice, later, rfl, hbefore, hlong, he⟩ := ih hrow
      refine ⟨x :: before, field, slice, later, rfl, List.forall_mem_cons.2 ⟨hx, hbefore⟩, hlong,
        ?_⟩
      rw [writeRow, Piece.write_of_fits hx, he]
      rfl
    · cases x with
      | flag | word => exact absurd trivial hx
      | text field slice =>
        refine ⟨[], field, slice, row, rfl, by simp, Nat.not_le.1 hx, ?_⟩
        rw [writeRow, Piece.write_of_not_fits hx]
        rfl

/-! ### Reading a row -/

namespace Reader

variable {α β : Type} {field : String} {bs rest : Bytes}

theorem bind_ok {r : Reader α} {f : α → Reader β} {b : β}
    (h : (r >>= f) bs = (.ok b, rest)) :
    ∃ a mid, r bs = (.ok a, mid) ∧ f a mid = (.ok b, rest) := by
  change Reader.bind r f bs = _ at h
  unfold Reader.bind at h
  split at h
  · next a mid hr => exact ⟨a, mid, hr, h⟩
  · cases h

theorem map_ok {r : Reader α} {g : α → β} {b : β}
    (h : (r >>= fun a => Pure.pure (g a)) bs = (.ok b, rest)) :
    ∃ a, r bs = (.ok a, rest) ∧ b = g a := by
  obtain ⟨a, mid, hr, hg⟩ := bind_ok h
  cases hg
  exact ⟨a, hr, rfl⟩

theorem decode_ok {r : Reader α} {a : α} (h : r.decode bs = .ok a) : r bs = (.ok a, []) := by
  have hfinish : (r >>= fun a => finish >>= fun _ => Pure.pure a) bs =
      (.ok a, ((r >>= fun a => finish >>= fun _ => Pure.pure a) bs).2) := Prod.ext h rfl
  obtain ⟨b, mid, hr, hend⟩ := bind_ok hfinish
  obtain ⟨⟨⟩, mid', hmid, hpure⟩ := bind_ok hend
  cases hpure
  unfold finish at hmid
  split at hmid
  · next hempty => rw [hr, List.isEmpty_iff.1 hempty]
  · cases hmid

theorem take_ok {n : Nat} {x : Bytes} (h : take field n bs = (.ok x, rest)) :
    x.length = n ∧ bs = x ++ rest := by
  unfold take at h
  split at h
  · cases h
  · next hlong =>
    cases h
    have hn : n ≤ bs.length := Bytes.shorterThan_false_iff.1 (Bool.eq_false_iff.2 hlong)
    exact ⟨List.length_take_of_le hn, (List.take_append_drop n bs).symm⟩

theorem word_ok {k : Nat} {g : Nat → α} {a : α}
    (h : (take field k >>= fun x => Pure.pure (g (BigEndian.toNat x))) bs = (.ok a, rest)) :
    ∃ n, n < Nat.pow 256 k ∧ bs = BigEndian.ofNat k n ++ rest ∧ a = g n := by
  obtain ⟨x, hx, rfl⟩ := map_ok h
  obtain ⟨hlength, rfl⟩ := take_ok hx
  refine ⟨BigEndian.toNat x, hlength ▸ BigEndian.toNat_lt x, ?_, rfl⟩
  have hword := BigEndian.ofNat_toNat x
  rw [hlength] at hword
  rw [hword]

theorem u8_ok {b : UInt8} (h : u8 field bs = (.ok b, rest)) :
    bs = (Piece.flag b).bytes ++ rest := by
  obtain ⟨n, hn, rfl, rfl⟩ := word_ok h
  rfl

theorem u16_ok {n : UInt16} (h : u16 field bs = (.ok n, rest)) :
    bs = BigEndian.ofNat 2 n.toNat ++ rest := by
  obtain ⟨n, hn, rfl, rfl⟩ := word_ok h
  rw [UInt16.toNat_ofNat_of_lt' hn]

theorem u64_ok {n : UInt64} (h : u64 field bs = (.ok n, rest)) :
    bs = (Piece.word (BigEndian.ofNat 8 n.toNat)).bytes ++ rest := by
  obtain ⟨n, hn, rfl, rfl⟩ := word_ok h
  rw [UInt64.toNat_ofNat_of_lt' hn]
  rfl

theorem text_ok {s : String} (h : text field bs = (.ok s, rest)) :
    ∃ slice, (Piece.text field slice).Fits ∧ bs = (Piece.text field slice).bytes ++ rest ∧
      s = Utf8.decodeLossy slice := by
  obtain ⟨n, mid, hn, h⟩ := bind_ok h
  obtain ⟨slice, hslice, rfl⟩ := map_ok h
  obtain ⟨hlength, rfl⟩ := take_ok hslice
  refine ⟨slice, ?_, ?_, rfl⟩
  · show slice.length ≤ maxFieldSize
    rw [hlength]
    exact Nat.le_of_lt_succ n.toNat_lt
  · rw [u16_ok hn, Piece.bytes, hlength, List.append_assoc]

theorem textList_ok {n : Nat} {ss : List String} (h : textList field n bs = (.ok ss, rest)) :
    ∃ slices : List Bytes, slices.length = n ∧
      (∀ x ∈ slices.map (Piece.text field), x.Fits) ∧
      bs = rowBytes (slices.map (Piece.text field)) ++ rest ∧
      ss = slices.map Utf8.decodeLossy := by
  induction n generalizing bs ss with
  | zero =>
    cases h
    exact ⟨[], rfl, by simp, rfl, rfl⟩
  | succ n ih =>
    obtain ⟨s, mid, hs, h⟩ := bind_ok h
    obtain ⟨rest', hrest, rfl⟩ := map_ok h
    obtain ⟨slice, hfits, rfl, rfl⟩ := text_ok hs
    obtain ⟨slices, rfl, hall, rfl, rfl⟩ := ih hrest
    refine ⟨slice :: slices, rfl, List.forall_mem_cons.2 ⟨hfits, hall⟩, ?_, rfl⟩
    rw [List.map_cons, rowBytes_cons, List.append_assoc]

end Reader

end Corelink.Wire
