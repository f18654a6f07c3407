import Corelink.Proofs.Wire.Layout

/-!
# Reads one after another

A reader may be asked for words and texts in any order, and asked on after it has failed
(`Read.play`). Where it stands before a read, the bytes decide how the read ends (`Read.Ends`): it
takes just the bytes that spell the value, or the front is missing and it takes nothing, or a text
is missing behind its length and it takes the length. There is one such end for each read
(`Read.reader_eq_iff`). So what is unread is always the end of what was given, whatever was asked
(`Read.reads_accounted_for`).
-/

namespace Corelink.Wire

/-! ### Readers that fail -/

namespace Reader

variable {α β : Type} {field : String} {bs front rest : Bytes}

theorem bind_of_error {r : Reader α} {e : FramingError} (h : r bs = (.error e, rest))
    (f : α → Reader β) : (r >>= f) bs = (.error e, rest) := by
  show Reader.bind r f bs = _
  rw [Reader.bind, h]

theorem bind_of_takes {r : Reader α} {a : α} (h : r.Takes front a) (f : α → Reader β) :
    (r >>= f) (front ++ rest) = f a rest := by
  show Reader.bind r f (front ++ rest) = _
  rw [Reader.bind, h]

theorem take_of_lt {n : Nat} (h : bs.length < n) :
    take field n bs = (.error (.truncated field n bs.length), bs) :=
  if_pos ((Bytes.shorterThan_iff bs n).2 h)

theorem takes_u8_of_length (field : String) (h : front.length = 1) :
    (u8 field).Takes front (UInt8.ofNat (BigEndian.toNat front)) :=
  (takes_take field h).map fun bs => UInt8.ofNat (BigEndian.toNat bs)

theorem takes_u16_of_length (field : String) (h : front.length = 2) :
    (u16 field).Takes front (UInt16.ofNat (BigEndian.toNat front)) :=
  (takes_take field h).map fun bs => UInt16.ofNat (BigEndian.toNat bs)

theorem takes_u64_of_length (field : String) (h : front.length = 8) :
    (u64 field).Takes front (UInt64.ofNat (BigEndian.toNat front)) :=
  (takes_take field h).map fun bs => UInt64.ofNat (BigEndian.toNat bs)

theorem toNat_ofNat_front (h : front.length = 2) :
    (UInt16.ofNat (BigEndian.toNat front)).toNat = BigEndian.toNat front := by
  have hlt := BigEndian.toNat_lt front
  rw [h] at hlt
  exact UInt16.toNat_ofNat_of_lt' hlt

end Reader

/-! ### Reads -/

/-- What a reader may be asked for. -/
inductive Read where
  | u8 (field : String)
  | u16 (field : String)
  | u64 (field : String)
  | text (field : String)
  deriving DecidableEq, Repr

namespace Read

/-- What it answers. -/
inductive Value where
  | u8 (n : UInt8)
  | u16 (n : UInt16)
  | u64 (n : UInt64)
  | text (s : String)
  deriving DecidableEq, Repr

def field : Read → String
  | u8 field | u16 field | u64 field | text field => field

/-- The bytes that a read begins with: all of a word, the length of a text. -/
def head : Read → Nat
  | u8 _ => 1
  | u16 _ => 2
  | u64 _ => 8
  | text _ => 2

def reader : Read → Reader Value
  | u8 field => do return .u8 (← Reader.u8 field)
  | u16 field => do return .u16 (← Reader.u16 field)
  | u64 field => do return .u64 (← Reader.u64 field)
  | text field => do return .text (← Reader.text field)

/-- Reads one after another. Behind a failure the next one begins with the bytes that it left. -/
def play : List Read → Bytes → List (Except FramingError Value) × Bytes
  | [], bs => ([], bs)
  | r :: reads, bs =>
    let (result, rest) := r.reader bs
    let later := play reads rest
    (result :: later.1, later.2)

/-- The bytes that a value is read from. -/
inductive Spells : Read → Bytes → Value → Prop where
  | u8 {field : String} {bs : Bytes} {n : UInt8} : bs.length = 1 →
    BigEndian.toNat bs = n.toNat → Spells (.u8 field) bs (.u8 n)
  | u16 {field : String} {bs : Bytes} {n : UInt16} : bs.length = 2 →
    BigEndian.toNat bs = n.toNat → Spells (.u16 field) bs (.u16 n)
  | u64 {field : String} {bs : Bytes} {n : UInt64} : bs.length = 8 →
    BigEndian.toNat bs = n.toNat → Spells (.u64 field) bs (.u64 n)
  | text {field : String} {front slice : Bytes} : front.length = 2 →
    slice.length = BigEndian.toNat front →
    Spells (.text field) (front ++ slice) (.text (Utf8.decodeLossy slice))

/-- How a read ends on these bytes, and what it leaves of them. -/
inductive Ends (r : Read) (bs : Bytes) : Except FramingError Value × Bytes → Prop where
  | value {taken rest : Bytes} {v : Value} : bs = taken ++ rest → r.Spells taken v →
    Ends r bs (.ok v, rest)
  | front : bs.length < r.head →
    Ends r bs (.error (.truncated r.field r.head bs.length), bs)
  | body {front rest : Bytes} : r = .text r.field → bs = front ++ rest → front.length = 2 →
    rest.length < BigEndian.toNat front →
    Ends r bs (.error (.truncated r.field (BigEndian.toNat front) rest.length), rest)

variable {r : Read} {bs taken rest : Bytes} {v : Value}
  {result : Except FramingError Value × Bytes}

/-! ### How a read ends -/

theorem Spells.takes (h : r.Spells taken v) : r.reader.Takes taken v := by
  cases h with
  | @u8 field _ n hlength hvalue =>
    have htakes := (Reader.takes_u8_of_length field hlength).map Value.u8
    rwa [hvalue, UInt8.ofNat_toNat] at htakes
  | @u16 field _ n hlength hvalue =>
    have htakes := (Reader.takes_u16_of_length field hlength).map Value.u16
    rwa [hvalue, UInt16.ofNat_toNat] at htakes
  | @u64 field _ n hlength hvalue =>
    have htakes := (Reader.takes_u64_of_length field hlength).map Value.u64
    rwa [hvalue, UInt64.ofNat_toNat] at htakes
  | @text field front slice hfront hslice =>
    have hlength := hslice.trans (Reader.toNat_ofNat_front hfront).symm
    have hbody := (Reader.takes_take field hlength).map Utf8.decodeLossy
    exact ((Reader.takes_u16_of_length field hfront).bind hbody).map Value.text

theorem Ends.reader_eq (h : r.Ends bs result) : r.reader bs = result := by
  cases h with
  | value hbs hspells =>
    rw [hbs]
    exact hspells.takes _
  | front hshort =>
    have hfront : ∀ {α : Type} (f : Bytes → Reader α), (Reader.take r.field r.head >>= f) bs =
        (.error (.truncated r.field r.head bs.length), bs) := fun f =>
      Reader.bind_of_error (Reader.take_of_lt hshort) f
    cases r with
    | u8 | u16 | u64 => exact Reader.bind_of_error (hfront _) _
    | text => exact Reader.bind_of_error (Reader.bind_of_error (hfront _) _) _
  | @body front rest htext hbs hfront hshort =>
    have hlength := Reader.toNat_ofNat_front hfront
    rw [htext, hbs]
    refine Reader.bind_of_error ?_ _
    rw [Reader.text, Reader.bind_of_takes (Reader.takes_u16_of_length r.field hfront), hlength]
    exact Reader.bind_of_error (Reader.take_of_lt hshort) _

theorem exists_front {n : Nat} (h : n ≤ bs.length) :
    ∃ front rest : Bytes, bs = front ++ rest ∧ front.length = n :=
  ⟨bs.take n, bs.drop n, (List.take_append_drop n bs).symm, List.length_take_of_le h⟩

theorem exists_ends (r : Read) (bs : Bytes) : ∃ result, r.Ends bs result := by
  by_cases hshort : bs.length < r.head
  · exact ⟨_, .front hshort⟩
  · obtain ⟨front, rest, rfl, hfront⟩ := exists_front (Nat.not_lt.1 hshort)
    have hlt := BigEndian.toNat_lt front
    rw [hfront] at hlt
    cases r with
    | u8 => exact ⟨_, .value rfl (.u8 hfront (UInt8.toNat_ofNat_of_lt' hlt).symm)⟩
    | u16 => exact ⟨_, .value rfl (.u16 hfront (UInt16.toNat_ofNat_of_lt' hlt).symm)⟩
    | u64 => exact ⟨_, .value rfl (.u64 hfront (UInt64.toNat_ofNat_of_lt' hlt).symm)⟩
    | text field =>
      by_cases hbody : rest.length < BigEndian.toNat front
      · exact ⟨_, .body rfl rfl hfront hbody⟩
      · obtain ⟨slice, rest, rfl, hslice⟩ := exists_front (Nat.not_lt.1 hbody)
        exact ⟨_, .value (List.append_assoc _ _ _).symm (.text hfront hslice)⟩

/-- **The bytes decide how a read ends.** -/
theorem reader_eq_iff : r.reader bs = result ↔ r.Ends bs result := by
  refine ⟨fun h => ?_, Ends.reader_eq⟩
  obtain ⟨result', h'⟩ := exists_ends r bs
  rwa [← h, h'.reader_eq]

theorem reader_suffix (r : Read) (bs : Bytes) : (r.reader bs).2 <:+ bs := by
  have hends : r.Ends bs (r.reader bs) := reader_eq_iff.1 rfl
  generalize r.reader bs = result at hends
  cases hends with
  | value hbs => exact ⟨_, hbs.symm⟩
  | front => exact List.suffix_rfl
  | body _ hbs => exact ⟨_, hbs.symm⟩

/-- A read fails only for lack of bytes, and says how many it lacks of what is unread then. -/
theorem truncated_of_error {e : FramingError} (h : (r.reader bs).1 = .error e) : ∃ needed,
    e = .truncated r.field needed (r.reader bs).2.length ∧ (r.reader bs).2.length < needed := by
  have hends : r.Ends bs (r.reader bs) := reader_eq_iff.1 rfl
  generalize r.reader bs = result at hends h
  cases hends with
  | value => cases h
  | front hshort =>
    cases h
    exact ⟨_, rfl, hshort⟩
  | body _ _ _ hshort =>
    cases h
    exact ⟨_, rfl, hshort⟩

/-! ### Whole runs -/

theorem play_cons (r : Read) (reads : List Read) (bs : Bytes) : play (r :: reads) bs =
    ((r.reader bs).1 :: (play reads (r.reader bs).2).1, (play reads (r.reader bs).2).2) :=
  rfl

theorem play_append (before after : List Read) (bs : Bytes) :
    play (before ++ after) bs = ((play before bs).1 ++ (play after (play before bs).2).1,
      (play after (play before bs).2).2) := by
  induction before generalizing bs with
  | nil => rfl
  | cons r before ih =>
    rw [List.cons_append, play_cons, play_cons, ih]
    rfl

theorem play_suffix (reads : List Read) (bs : Bytes) : (play reads bs).2 <:+ bs := by
  induction reads generalizing bs with
  | nil => exact List.suffix_rfl
  | cons r reads ih => exact (ih _).trans (r.reader_suffix bs)

theorem finish_eq_ok_iff : (Reader.finish bs).1 = .ok () ↔ bs = [] := by
  cases bs <;> simp [Reader.finish]

/-- **A reader accounts for its bytes**, whatever it is asked for and however often it fails. What
is unread is the end of what was given, and nothing is unread just when the reader may be done with.
Each read ends as its bytes tell and in no other way, the run goes on with what it leaves, and if it
fails it says which field lacks how many bytes of those that are unread then. -/
theorem reads_accounted_for (bs : Bytes) (before after : List Read) (r : Read) :
    let left := (play before bs).2
    let result := r.reader left
    play (before ++ r :: after) bs = ((play before bs).1 ++ result.1 :: (play after result.2).1,
      (play after result.2).2) ∧
    (∃ used, bs = used ++ left ∧ ((Reader.finish left).1 = .ok () ↔ used = bs)) ∧
    (∀ result', result = result' ↔ r.Ends left result') ∧
    ∀ e, result.1 = .error e → ∃ needed,
      e = .truncated r.field needed result.2.length ∧ result.2.length < needed := by
  intro left result
  refine ⟨play_append before (r :: after) bs, ?_, fun _ => reader_eq_iff, fun _ =>
    truncated_of_error⟩
  obtain ⟨used, hused⟩ := play_suffix before bs
  refine ⟨used, hused.symm, finish_eq_ok_iff.trans ?_⟩
  rw [← hused, List.self_eq_append_right]

/-- A text that is cut off has used up its length; the word behind it is read of what there is of
the text, and then nothing is left. -/
theorem cut_text_is_read_on :
    let bs : Bytes := [0, 5, 0x61, 0x62]
    play [.text "message", .u16 "count", .u8 "ok"] bs =
      ([.error (.truncated "message" 5 2), .ok (.u16 0x6162), .error (.truncated "ok" 1 0)], []) ∧
    (∃ needed, FramingError.truncated "message" 5 2 = .truncated "message" needed 2 ∧ 2 < needed) ∧
    (Read.text "message").Ends bs (.error (.truncated "message" 5 2), [0x61, 0x62]) := by
  intro bs
  obtain ⟨hrun, -, hends, herror⟩ :=
    reads_accounted_for bs [] [.u16 "count", .u8 "ok"] (.text "message")
  exact ⟨hrun, herror _ rfl, (hends _).1 rfl⟩

end Read

end Corelink.Wire
