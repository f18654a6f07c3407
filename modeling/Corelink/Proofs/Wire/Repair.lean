import Corelink.Proofs.Wire.Row

/-!
# Writing again what has been read

A reader takes more than a writer makes: flags other than 0 and 1, and texts that are not UTF-8.
What is written for a payload that has been read is the payload with each field repaired, one by
one (`Rewrites`). So it is the payload itself just when there was nothing to repair; if there was,
it is another payload of the same message, unless a text has become too long by its repair, and
then the first such text is the error (`messages_rewritten`).
-/

namespace Corelink.Wire

open Reader

/-- Whether the row is of this form, and `p` its bytes. -/
structure IsRow (Form : List Piece → Prop) (row : List Piece) (p : Bytes) : Prop where
  form : Form row
  fits : ∀ x ∈ row, x.Fits
  bytes : p = rowBytes row

/-- The bytes of a row of this form tell its shape. -/
def Shaped (Form : List Piece → Prop) : Prop :=
  ∀ {row row' : List Piece} {p : Bytes}, IsRow Form row p → IsRow Form row' p →
    List.Forall₂ Piece.Alike row row'

theorem IsRow.unique {Form : List Piece → Prop} {row row' : List Piece} {p : Bytes}
    (hs : Shaped Form) (h : IsRow Form row p) (h' : IsRow Form row' p) : row = row' :=
  row_unique (hs h h') h.fits h'.fits (h.bytes ▸ h'.bytes)

/-! ### The repaired row -/

theorem alike_map_repaired (row : List Piece) :
    List.Forall₂ Piece.Alike row (row.map Piece.repaired) := by
  rw [List.forall₂_map_right_iff, List.forall₂_same]
  exact fun x _ => x.alike_repaired

theorem map_repaired_eq_self_iff (row : List Piece) :
    row.map Piece.repaired = row ↔ ∀ x ∈ row, x.IsPlain := by
  induction row with
  | nil => simp
  | cons x row ih =>
    rw [List.map_cons, List.cons.injEq, ih, x.repaired_eq_self_iff, List.forall_mem_cons]

/-- **The repaired row is written as the row's own bytes just when there is nothing to repair.** -/
theorem writeRow_repaired_eq_ok_iff {row : List Piece} (h : ∀ x ∈ row, x.Fits) :
    writeRow (row.map Piece.repaired) = .ok (rowBytes row) ↔ ∀ x ∈ row, x.IsPlain := by
  rw [← map_repaired_eq_self_iff]
  constructor
  · intro hw
    by_cases hfits : ∀ x ∈ row.map Piece.repaired, x.Fits
    · rw [writeRow_of_fits hfits] at hw
      exact (row_unique (alike_map_repaired row) h hfits (Except.ok.inj hw).symm).symm
    · obtain ⟨_, _, _, _, _, _, _, he⟩ := writeRow_of_not_fits hfits
      rw [he] at hw
      cases hw
  · intro hr
    rw [hr, writeRow_of_fits h]

/-- A repaired row that cannot be written: the first text that its repair has made too long. -/
theorem writeRow_repaired_of_not_fits {row : List Piece}
    (h : ¬ ∀ x ∈ row.map Piece.repaired, x.Fits) :
    ∃ before field slice later, row = before ++ .text field slice :: later ∧
      (∀ f s, .text f s ∈ before → Utf8.size (Utf8.decodeLossy s) ≤ maxFieldSize) ∧
      maxFieldSize < Utf8.size (Utf8.decodeLossy slice) ∧
      writeRow (row.map Piece.repaired) =
        .error (.fieldTooLong field (Utf8.size (Utf8.decodeLossy slice))) := by
  obtain ⟨before', field, slice', later', hrow, hbefore, hlong, he⟩ := writeRow_of_not_fits h
  obtain ⟨before, rest, rfl, rfl, hrest⟩ := List.map_eq_append_iff.1 hrow
  obtain ⟨x, later, rfl, hx, rfl⟩ := List.map_eq_cons_iff.1 hrest
  cases x with
  | flag | word => cases hx
  | text f slice =>
    cases hx
    exact ⟨before, field, slice, later, rfl,
      fun f s hs => hbefore _ (List.mem_map_of_mem hs), hlong, he⟩

/-! ### Texts in a row -/

theorem text_eq_write (field : String) (slice : Bytes) :
    Field.text field (Utf8.decodeLossy slice) = (Piece.text field slice).repaired.write :=
  rfl

theorem write_repaired_flag (b : UInt8) :
    (Piece.flag b).repaired.write = Pure.pure [if b != 0 then 1 else 0] :=
  rfl

theorem write_repaired_word (bs : Bytes) : (Piece.word bs).repaired.write = Pure.pure bs :=
  rfl

theorem encodeNames_eq_writeRow (slices : List Bytes) :
    OnlineListResponse.encodeNames (slices.map Utf8.decodeLossy) =
      writeRow ((slices.map (Piece.text "username")).map Piece.repaired) := by
  induction slices with
  | nil => rfl
  | cons slice slices ih =>
    rw [List.map_cons, OnlineListResponse.encodeNames, ih]
    rfl

theorem alike_map_text (field : String) {slices slices' : List Bytes}
    (h : slices.length = slices'.length) :
    List.Forall₂ Piece.Alike (slices.map (Piece.text field)) (slices'.map (Piece.text field)) := by
  rw [List.forall₂_map_left_iff, List.forall₂_map_right_iff, List.forall₂_iff_zip]
  exact ⟨h, fun _ => rfl⟩

/-! ### Writing a payload again -/

section Again

variable {α : Type} {Form : List Piece → Prop} {encode : α → Except ValidationError Bytes}
  {decode : Bytes → Except FramingError α} {keep : α → α}

/-- A payload that is decoded as `v` is a row of this form, and `v` is written as the repaired
row. -/
def Rewrites (Form : List Piece → Prop) (encode : α → Except ValidationError Bytes)
    (decode : Bytes → Except FramingError α) : Prop :=
  ∀ {p : Bytes} {v : α}, decode p = .ok v →
    ∃ row, IsRow Form row p ∧ encode v = writeRow (row.map Piece.repaired)

/-- What is written for a payload that has been read: the payload itself if its row is plain,
another payload that is read as the same, or an error that names the first text that has become
too long. -/
structure Reencodes (Form : List Piece → Prop) (encode : α → Except ValidationError Bytes)
    (decode : Bytes → Except FramingError α) : Prop where
  row : ∀ {p : Bytes} {v : α}, decode p = .ok v → ∃! row, IsRow Form row p
  same : ∀ {p : Bytes} {v : α} {row : List Piece}, decode p = .ok v → IsRow Form row p →
    (encode v = .ok p ↔ ∀ x ∈ row, x.IsPlain)
  other : ∀ {p : Bytes} {v : α} {row : List Piece}, decode p = .ok v → IsRow Form row p →
    (¬ ∀ x ∈ row, x.IsPlain) →
      (∃ p', encode v = .ok p' ∧ p' ≠ p ∧ decode p' = .ok v) ∨
      ∃ before field slice later, row = before ++ .text field slice :: later ∧
        (∀ f s, .text f s ∈ before → Utf8.size (Utf8.decodeLossy s) ≤ maxFieldSize) ∧
        maxFieldSize < Utf8.size (Utf8.decodeLossy slice) ∧
        encode v = .error (.fieldTooLong field (Utf8.size (Utf8.decodeLossy slice)))

theorem Rewrites.encode_eq (hr : Rewrites Form encode decode) (hs : Shaped Form) {p : Bytes} {v : α}
    {row : List Piece} (hv : decode p = .ok v) (h : IsRow Form row p) :
    encode v = writeRow (row.map Piece.repaired) := by
  obtain ⟨row', h', he⟩ := hr hv
  rw [h.unique hs h', he]

theorem Reencodes.of_rewrites (hs : Shaped Form) (hr : Rewrites Form encode decode)
    (hb : ReadsBack encode decode keep)
    (hk : ∀ {p : Bytes} {v : α}, decode p = .ok v → keep v = v) : Reencodes Form encode decode where
  row hv := by
    obtain ⟨row, h, -⟩ := hr hv
    exact ⟨row, h, fun _ h' => h'.unique hs h⟩
  same hv h := by
    rw [hr.encode_eq hs hv h, h.bytes]
    exact writeRow_repaired_eq_ok_iff h.fits
  other {p v row} hv h hplain := by
    have he : encode v = writeRow (row.map Piece.repaired) := hr.encode_eq hs hv h
    by_cases hfits : ∀ x ∈ row.map Piece.repaired, x.Fits
    · have hok : encode v = .ok (rowBytes (row.map Piece.repaired)) :=
        he.trans (writeRow_of_fits hfits)
      refine .inl ⟨_, hok, ?_, ?_⟩
      · intro hp
        rw [hp, h.bytes] at hok
        exact hplain ((writeRow_repaired_eq_ok_iff h.fits).1 (he.symm.trans hok))
      · rw [hb.decode_eq hok, hk hv]
    · obtain ⟨before, field, slice, later, hrow, hbefore, hlong, herror⟩ :=
        writeRow_repaired_of_not_fits hfits
      exact .inr ⟨before, field, slice, later, hrow, hbefore, hlong, he.trans herror⟩

end Again

/-! ### Forms of the messages -/

namespace RegisterRequest

def Form (row : List Piece) : Prop :=
  ∃ username email password,
    row = [.text "username" username, .text "email" email, .text "password" password]

theorem shaped : Shaped Form := by
  rintro _ _ p ⟨⟨_, _, _, rfl⟩, -, -⟩ ⟨⟨_, _, _, rfl⟩, -, -⟩
  exact .cons rfl (.cons rfl (.cons rfl .nil))

theorem rewrites : Rewrites Form encode decode := by
  intro p v hv
  obtain ⟨username, _, hu, h⟩ := bind_ok (decode_ok hv)
  obtain ⟨email, _, he, h⟩ := bind_ok h
  obtain ⟨password, hp, rfl⟩ := map_ok h
  obtain ⟨username, hfu, rfl, rfl⟩ := text_ok hu
  obtain ⟨email, hfe, rfl, rfl⟩ := text_ok he
  obtain ⟨password, hfp, rfl, rfl⟩ := text_ok hp
  refine ⟨_, ⟨⟨username, email, password, rfl⟩, by simp [hfu, hfe, hfp], rfl⟩, ?_⟩
  simp only [encode, text_eq_write, List.map_cons, List.map_nil, writeRow_cons, writeRow_nil,
    bind_assoc, pure_bind, List.append_nil, List.append_assoc]

end RegisterRequest

namespace LoginRequest

def Form (row : List Piece) : Prop :=
  ∃ username password, row = [.text "username" username, .text "password" password]

theorem shaped : Shaped Form := by
  rintro _ _ p ⟨⟨_, _, rfl⟩, -, -⟩ ⟨⟨_, _, rfl⟩, -, -⟩
  exact .cons rfl (.cons rfl .nil)

theorem rewrites : Rewrites Form encode decode := by
  intro p v hv
  obtain ⟨username, _, hu, h⟩ := bind_ok (decode_ok hv)
  obtain ⟨password, hp, rfl⟩ := map_ok h
  obtain ⟨username, hfu, rfl, rfl⟩ := text_ok hu
  obtain ⟨password, hfp, rfl, rfl⟩ := text_ok hp
  refine ⟨_, ⟨⟨username, password, rfl⟩, by simp [hfu, hfp], rfl⟩, ?_⟩
  simp only [encode, text_eq_write, List.map_cons, List.map_nil, writeRow_cons, writeRow_nil,
    bind_assoc, pure_bind, List.append_nil]

end LoginRequest

namespace RegisterResponse

def Form (row : List Piece) : Prop :=
  ∃ ok message, row = [.flag ok, .text "message" message]

theorem shaped : Shaped Form := by
  rintro _ _ p ⟨⟨_, _, rfl⟩, -, -⟩ ⟨⟨_, _, rfl⟩, -, -⟩
  exact .cons trivial (.cons rfl .nil)

theorem rewrites : Rewrites Form encode decode := by
  intro p v hv
  obtain ⟨ok, _, ho, h⟩ := bind_ok (decode_ok hv)
  obtain ⟨message, hm, rfl⟩ := map_ok h
  obtain rfl := u8_ok ho
  obtain ⟨message, hfm, rfl, rfl⟩ := text_ok hm
  refine ⟨_, ⟨⟨ok, message, rfl⟩, by simp [hfm], rfl⟩, ?_⟩
  simp only [encode, text_eq_write, write_repaired_flag, List.map_cons, List.map_nil, writeRow_cons,
    writeRow_nil, bind_assoc, pure_bind, List.append_nil, List.singleton_append]

end RegisterResponse

namespace LoginResponse

/-- Whether token, user id and username are there is told by the flag. -/
def Form (row : List Piece) : Prop :=
  (∃ message, row = [.flag 0, .text "message" message]) ∨
  ∃ ok token userId username message, ok ≠ 0 ∧ userId.length = 8 ∧
    row = [.flag ok, .text "token" token, .word userId, .text "username" username,
      .text "message" message]

theorem shaped : Shaped Form := by
  rintro _ _ p ⟨⟨_, rfl⟩ | ⟨ok, _, _, _, _, hok, hid, rfl⟩, -, rfl⟩
    ⟨⟨_, rfl⟩ | ⟨ok', _, _, _, _, hok', hid', rfl⟩, -, hp⟩
  · exact .cons trivial (.cons rfl .nil)
  · exact absurd (List.cons.inj hp).1 hok'.symm
  · exact absurd (List.cons.inj hp).1 hok
  · exact .cons trivial (.cons rfl (.cons (hid.trans hid'.symm) (.cons rfl (.cons rfl .nil))))

theorem rewrites : Rewrites Form encode decode := by
  intro p v hv
  obtain ⟨ok, _, ho, h⟩ := bind_ok (decode_ok hv)
  obtain rfl := u8_ok ho
  by_cases hok : ok = 0
  · subst hok
    obtain ⟨message, hm, rfl⟩ := map_ok h
    obtain ⟨message, hfm, rfl, rfl⟩ := text_ok hm
    refine ⟨_, ⟨.inl ⟨message, rfl⟩, by simp [hfm], rfl⟩, ?_⟩
    simp only [rejected, encode, text_eq_write, write_repaired_flag, List.map_cons, List.map_nil,
      writeRow_cons, writeRow_nil, bind_assoc, pure_bind, List.append_nil, List.singleton_append]
    rfl
  · rw [if_pos (bne_iff_ne.2 hok)] at h
    obtain ⟨token, _, ht, h⟩ := bind_ok h
    obtain ⟨userId, _, hi, h⟩ := bind_ok h
    obtain ⟨username, _, hu, h⟩ := bind_ok h
    obtain ⟨message, hm, rfl⟩ := map_ok h
    obtain ⟨token, hft, rfl, rfl⟩ := text_ok ht
    obtain rfl := u64_ok hi
    obtain ⟨username, hfu, rfl, rfl⟩ := text_ok hu
    obtain ⟨message, hfm, rfl, rfl⟩ := text_ok hm
    refine ⟨_, ⟨.inr ⟨ok, token, _, username, message, hok, BigEndian.length_ofNat 8 _, rfl⟩,
      by simp [hft, hfu, hfm], rfl⟩, ?_⟩
    have hflag : (Piece.flag ok).repaired = .flag 1 := by simp [Piece.repaired, hok]
    simp only [accepted, encode, encodeGrant, text_eq_write, hflag, write_repaired_word,
      List.map_cons, List.map_nil, writeRow_cons, writeRow_nil, bind_assoc, pure_bind,
      List.append_nil, List.append_assoc, List.cons_append, if_true]
    rfl

theorem plain_of_decode {p : Bytes} {v : LoginResponse} (hv : decode p = .ok v) : v.plain = v := by
  obtain ⟨ok, _, ho, h⟩ := bind_ok (decode_ok hv)
  by_cases hok : (ok != 0) = true
  · rw [if_pos hok] at h
    obtain ⟨token, _, ht, h⟩ := bind_ok h
    obtain ⟨userId, _, hi, h⟩ := bind_ok h
    obtain ⟨username, _, hu, h⟩ := bind_ok h
    obtain ⟨message, hm, rfl⟩ := map_ok h
    rfl
  · rw [if_neg hok] at h
    obtain ⟨message, hm, rfl⟩ := map_ok h
    rfl

end LoginResponse

namespace OnlineListResponse

/-- The number of names is told by the word in front. -/
def Form (row : List Piece) : Prop :=
  ∃ names : List Bytes, names.length ≤ maxFieldSize ∧
    row = .word (BigEndian.ofNat 2 names.length) :: names.map (.text "username")

theorem shaped : Shaped Form := by
  rintro _ _ p ⟨⟨names, hn, rfl⟩, -, rfl⟩ ⟨⟨names', hn', rfl⟩, -, hp⟩
  have hcount := (List.append_inj hp (by simp [Piece.bytes])).1
  refine .cons (by simp [Piece.Alike]) ?_
  exact alike_map_text "username" (Piece.ofNat_two_inj hn hn' hcount)

theorem rewrites : Rewrites Form encode decode := by
  intro p v hv
  obtain ⟨count, _, hc, h⟩ := bind_ok (decode_ok hv)
  obtain ⟨names, hn, rfl⟩ := map_ok h
  obtain rfl := u16_ok hc
  obtain ⟨names, hlength, hfits, rfl, rfl⟩ := textList_ok hn
  have hcount : names.length ≤ maxFieldSize := by
    rw [hlength]
    exact Nat.le_of_lt_succ count.toNat_lt
  refine ⟨_, ⟨⟨names, hcount, rfl⟩, List.forall_mem_cons.2 ⟨trivial, hfits⟩, ?_⟩, ?_⟩
  · rw [rowBytes_cons, hlength, List.append_nil]
    rfl
  · rw [encode, List.length_map, if_neg (Nat.not_lt.2 hcount), encodeNames_eq_writeRow]
    rfl

end OnlineListResponse

/-! ### All messages -/

/-- **A payload that has been read is written again** as the same bytes if its flag is 0 or 1 and
its texts are UTF-8, and only then. Otherwise another payload that is read as the same message is
written, or the first text that has become longer than 65535 bytes by its repair is the error. -/
theorem messages_rewritten :
    Reencodes RegisterRequest.Form RegisterRequest.encode RegisterRequest.decode ∧
    Reencodes LoginRequest.Form LoginRequest.encode LoginRequest.decode ∧
    Reencodes RegisterResponse.Form RegisterResponse.encode RegisterResponse.decode ∧
    Reencodes LoginResponse.Form LoginResponse.encode LoginResponse.decode ∧
    Reencodes OnlineListResponse.Form OnlineListResponse.encode OnlineListResponse.decode :=
  ⟨.of_rewrites RegisterRequest.shaped RegisterRequest.rewrites (.of_takes RegisterRequest.takes)
      fun _ => rfl,
    .of_rewrites LoginRequest.shaped LoginRequest.rewrites (.of_takes LoginRequest.takes)
      fun _ => rfl,
    .of_rewrites RegisterResponse.shaped RegisterResponse.rewrites
      (.of_takes RegisterResponse.takes) fun _ => rfl,
    .of_rewrites LoginResponse.shaped LoginResponse.rewrites (.of_takes LoginResponse.takes)
      LoginResponse.plain_of_decode,
    .of_rewrites OnlineListResponse.shaped OnlineListResponse.rewrites
      (.of_takes OnlineListResponse.takes) fun _ => rfl⟩

/-- A flag of 7 and a byte that begins no character are repaired. -/
example : (RegisterResponse.decode [7, 0, 1, 255]).toOption = some ⟨true, "\ufffd"⟩ ∧
    RegisterResponse.encode ⟨true, "\ufffd"⟩ = .ok [1, 0, 3, 239, 191, 189] :=
  ⟨rfl, rfl⟩

end Corelink.Wire
