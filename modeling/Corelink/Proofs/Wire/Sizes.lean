import Corelink.Proofs.Wire.Row
import Mathlib.Algebra.GroupWithZero.Nat

/-!
# Which messages can be written

A message is written field by field (`pieces`), and each text must fit its two-byte length. To write
is the same as to check all sizes in wire order first (`writeRow_eq_checked`); so what cannot be
written is what has a size above 65535, the first such size is the error, and in what is written
each length is spelled in full (`messages_sized`).
-/

namespace Corelink.Wire

/-- The texts of a row, each with its number of bytes. -/
def textSizes : List Piece → List (String × Nat)
  | [] => []
  | .text field slice :: row => (field, slice.length) :: textSizes row
  | _ :: row => textSizes row

/-- The bytes of the field that are there whatever is written. -/
def Piece.fixed : Piece → Nat
  | flag _ => 1
  | word bs => bs.length
  | text .. => 0

theorem length_rowBytes (row : List Piece) : (rowBytes row).length =
    (row.map Piece.fixed).sum + ((textSizes row).map fun c => 2 + c.2).sum := by
  induction row with
  | nil => rfl
  | cons x row ih =>
    rw [rowBytes_cons, List.length_append, ih, List.map_cons, List.sum_cons, Nat.add_assoc]
    cases x with
    | flag | word => rfl
    | text field slice =>
      simp only [Piece.bytes, Piece.fixed, textSizes, List.length_append, BigEndian.length_ofNat,
        List.map_cons, List.sum_cons]
      omega

/-- `p`, if all these sizes fit; the first one that does not is the error. -/
def checked : List (String × Nat) → Bytes → Except ValidationError Bytes
  | [], p => .ok p
  | (field, n) :: sizes, p =>
    if n > maxFieldSize then .error (.fieldTooLong field n) else checked sizes p

section Checked

variable {sizes : List (String × Nat)} {p q : Bytes} {e : ValidationError}

theorem checked_eq_ok_iff :
    checked sizes p = .ok q ↔ (∀ c ∈ sizes, c.2 ≤ maxFieldSize) ∧ p = q := by
  induction sizes with
  | nil => simp [checked]
  | cons c sizes ih =>
    rw [checked, List.forall_mem_cons]
    split
    · next hlong => exact iff_of_false nofun fun h => Nat.not_lt.2 h.1.1 hlong
    · next hfits => simp only [ih, Nat.not_lt.1 hfits, true_and]

theorem checked_error (h : checked sizes p = .error e) :
    ∃ before field n later, sizes = before ++ (field, n) :: later ∧
      (∀ c ∈ before, c.2 ≤ maxFieldSize) ∧ maxFieldSize < n ∧ e = .fieldTooLong field n := by
  induction sizes with
  | nil => cases h
  | cons c sizes ih =>
    rw [checked] at h
    split at h
    · next hlong =>
      cases h
      exact ⟨[], c.1, c.2, sizes, rfl, by simp, hlong, rfl⟩
    · next hfits =>
      obtain ⟨before, field, n, later, rfl, hbefore, hlong, he⟩ := ih h
      exact ⟨c :: before, field, n, later, rfl,
        List.forall_mem_cons.2 ⟨Nat.not_lt.1 hfits, hbefore⟩, hlong, he⟩

theorem checked_append (sizes : List (String × Nat)) (front p : Bytes) :
    (do let bs ← checked sizes p; pure (front ++ bs)) = checked sizes (front ++ p) := by
  induction sizes with
  | nil => rfl
  | cons c sizes ih =>
    rw [checked, checked]
    split
    · rfl
    · exact ih

/-- **A row is written if its texts fit**; the first one that does not is the error. -/
theorem writeRow_eq_checked (row : List Piece) :
    writeRow row = checked (textSizes row) (rowBytes row) := by
  induction row with
  | nil => rfl
  | cons x row ih =>
    rw [writeRow_cons, ih]
    cases x with
    | flag | word => exact checked_append _ _ _
    | text field slice =>
      rw [Piece.write, textSizes, checked]
      split
      · rfl
      · exact checked_append _ _ _

end Checked

/-! ### What is written -/

/-- What is written of a message, and when it is not. Behind the `fixed` bytes come the texts, each
with two bytes more than its own; `counts` are sizes that are checked before any text. -/
structure Sized {α : Type} (encode : α → Except ValidationError Bytes)
    (counts : α → List (String × Nat)) (pieces : α → List Piece) (fixed : α → Nat) : Prop where
  fails_iff : ∀ {v : α}, (∃ e, encode v = .error e) ↔
    ∃ c ∈ counts v ++ textSizes (pieces v), maxFieldSize < c.2
  first : ∀ {v : α} {e : ValidationError}, encode v = .error e →
    ∃ before field n later, counts v ++ textSizes (pieces v) = before ++ (field, n) :: later ∧
      (∀ c ∈ before, c.2 ≤ maxFieldSize) ∧ maxFieldSize < n ∧ e = .fieldTooLong field n
  bytes : ∀ {v : α} {p : Bytes}, encode v = .ok p → p = rowBytes (pieces v)
  length_eq : ∀ {v : α} {p : Bytes}, encode v = .ok p →
    p.length = fixed v + ((textSizes (pieces v)).map fun c => 2 + c.2).sum
  /-- The two bytes in front of a text spell its length. -/
  length_spelled : ∀ {v : α} {p : Bytes}, encode v = .ok p → ∀ {field : String} {slice : Bytes},
    .text field slice ∈ pieces v → BigEndian.toNat (BigEndian.ofNat 2 slice.length) = slice.length
  /-- The two bytes in front of all spell the count. -/
  count_spelled : ∀ {v : α} {p : Bytes}, encode v = .ok p → ∀ c ∈ counts v,
    BigEndian.toNat (p.take 2) = c.2

theorem toNat_ofNat_two {n : Nat} (h : n ≤ maxFieldSize) :
    BigEndian.toNat (BigEndian.ofNat 2 n) = n := by
  rw [BigEndian.toNat_ofNat]
  exact Nat.mod_eq_of_lt (Nat.lt_succ_of_le h)

theorem mem_textSizes {row : List Piece} {field : String} {slice : Bytes}
    (h : .text field slice ∈ row) : (field, slice.length) ∈ textSizes row := by
  induction row with
  | nil => cases h
  | cons x row ih =>
    obtain rfl | hrow := List.mem_cons.1 h
    · exact List.mem_cons_self
    · cases x with
      | flag | word => exact ih hrow
      | text => exact List.mem_cons_of_mem _ (ih hrow)

section Sized

variable {α : Type} {encode : α → Except ValidationError Bytes}
  {counts : α → List (String × Nat)} {pieces : α → List Piece} {fixed : α → Nat}

theorem Sized.of_checked
    (hencode : ∀ v, encode v = checked (counts v ++ textSizes (pieces v)) (rowBytes (pieces v)))
    (hfixed : ∀ v, ((pieces v).map Piece.fixed).sum = fixed v)
    (hcount : ∀ v, ∀ c ∈ counts v, (rowBytes (pieces v)).take 2 = BigEndian.ofNat 2 c.2) :
    Sized encode counts pieces fixed where
  fails_iff {v} := by
    constructor
    · rintro ⟨e, he⟩
      obtain ⟨before, field, n, later, hsizes, -, hlong, -⟩ :=
        checked_error ((hencode v).symm.trans he)
      exact ⟨(field, n), by simp [hsizes], hlong⟩
    · rintro ⟨c, hc, hlong⟩
      cases hv : encode v with
      | error e => exact ⟨e, rfl⟩
      | ok p =>
        have hfits := (checked_eq_ok_iff.1 ((hencode v).symm.trans hv)).1 c hc
        exact absurd hlong (Nat.not_lt.2 hfits)
  first {v e} he := checked_error ((hencode v).symm.trans he)
  bytes {v p} hp := (checked_eq_ok_iff.1 ((hencode v).symm.trans hp)).2.symm
  length_eq {v p} hp := by
    rw [← (checked_eq_ok_iff.1 ((hencode v).symm.trans hp)).2, length_rowBytes, hfixed]
  length_spelled {v p} hp field slice hx := by
    have hfits := (checked_eq_ok_iff.1 ((hencode v).symm.trans hp)).1
    exact toNat_ofNat_two (hfits _ (List.mem_append_right _ (mem_textSizes hx)))
  count_spelled {v p} hp c hc := by
    obtain ⟨hfits, rfl⟩ := checked_eq_ok_iff.1 ((hencode v).symm.trans hp)
    rw [hcount v c hc, toNat_ofNat_two (hfits c (List.mem_append_left _ hc))]

theorem Sized.of_row (hencode : ∀ v, encode v = writeRow (pieces v))
    (hfixed : ∀ v, ((pieces v).map Piece.fixed).sum = fixed v) :
    Sized encode (fun _ => []) pieces fixed :=
  .of_checked (fun v => (hencode v).trans (writeRow_eq_checked (pieces v))) hfixed
    fun _ _ hc => nomatch hc

end Sized

/-! ### The messages -/

/-- A field that holds a text. -/
def Piece.ofString (field s : String) : Piece :=
  .text field (Utf8.encode s)

theorem text_eq_write_ofString (field s : String) :
    Field.text field s = (Piece.ofString field s).write :=
  rfl

namespace RegisterRequest

def pieces (m : RegisterRequest) : List Piece :=
  [.ofString "username" m.username, .ofString "email" m.email, .ofString "password" m.password]

theorem encode_eq (m : RegisterRequest) : m.encode = writeRow m.pieces := by
  simp only [encode, pieces, text_eq_write_ofString, writeRow_cons, writeRow_nil, bind_assoc,
    pure_bind, List.append_nil, List.append_assoc]

end RegisterRequest

namespace LoginRequest

def pieces (m : LoginRequest) : List Piece :=
  [.ofString "username" m.username, .ofString "password" m.password]

theorem encode_eq (m : LoginRequest) : m.encode = writeRow m.pieces := by
  simp only [encode, pieces, text_eq_write_ofString, writeRow_cons, writeRow_nil, bind_assoc,
    pure_bind, List.append_nil]

end LoginRequest

namespace RegisterResponse

def pieces (m : RegisterResponse) : List Piece :=
  [.flag (if m.ok then 1 else 0), .ofString "message" m.message]

theorem encode_eq (m : RegisterResponse) : m.encode = writeRow m.pieces := by
  simp only [encode, pieces, text_eq_write_ofString, writeRow_cons, writeRow_nil, bind_assoc,
    pure_bind, List.append_nil]
  rfl

end RegisterResponse

namespace LoginResponse

/-- Token, user id and username are written of an accepted login only. -/
def pieces (m : LoginResponse) : List Piece :=
  if m.ok then
    [.flag 1, .ofString "token" m.token, .word (BigEndian.ofNat 8 m.userId.toNat),
      .ofString "username" m.username, .ofString "message" m.message]
  else [.flag 0, .ofString "message" m.message]

theorem encode_eq (m : LoginResponse) : m.encode = writeRow m.pieces := by
  obtain ⟨ok, token, userId, username, message⟩ := m
  cases ok with
  | true =>
    simp only [encode, encodeGrant, pieces, text_eq_write_ofString, writeRow_cons, writeRow_nil,
      bind_assoc, pure_bind, List.append_nil, List.append_assoc, List.cons_append, if_true]
    rfl
  | false =>
    have hnone : (Except.ok [] : Except ValidationError Bytes) = pure [] := rfl
    simp only [encode, pieces, hnone, text_eq_write_ofString, writeRow_cons, writeRow_nil,
      Bool.false_eq_true, if_false, pure_bind, bind_assoc, List.append_nil]
    rfl

theorem fixed_pieces (m : LoginResponse) :
    (m.pieces.map Piece.fixed).sum = if m.ok then 1 + 8 else 1 := by
  obtain ⟨ok, token, userId, username, message⟩ := m
  cases ok with
  | true => rfl
  | false => rfl

end LoginResponse

namespace OnlineListResponse

def pieces (m : OnlineListResponse) : List Piece :=
  .word (BigEndian.ofNat 2 m.usernames.length) :: m.usernames.map (.ofString "username")

/-- The number of names. -/
def counts (m : OnlineListResponse) : List (String × Nat) :=
  [("usernames", m.usernames.length)]

theorem encodeNames_eq (ss : List String) :
    encodeNames ss = writeRow (ss.map (.ofString "username")) := by
  induction ss with
  | nil => rfl
  | cons s ss ih =>
    rw [encodeNames, ih]
    rfl

theorem encode_eq (m : OnlineListResponse) :
    m.encode = checked (m.counts ++ textSizes m.pieces) (rowBytes m.pieces) := by
  rw [counts, List.singleton_append, checked, ← writeRow_eq_checked, encode, encodeNames_eq]
  rfl

theorem fixed_pieces (m : OnlineListResponse) : (m.pieces.map Piece.fixed).sum = 2 := by
  have hnames : ∀ ss : List String, ((ss.map (.ofString "username")).map Piece.fixed).sum = 0 := by
    intro ss
    induction ss with
    | nil => rfl
    | cons s ss ih => simpa [Piece.ofString, Piece.fixed] using ih
  rw [pieces, List.map_cons, List.sum_cons, hnames]
  exact BigEndian.length_ofNat 2 _

end OnlineListResponse

/-! ### All messages -/

/-- **What has a size above 65535 cannot be written, and nothing else.** The first such size in wire
order is the error, with the name of its field; otherwise each length and the number of names are
spelled in full. -/
theorem messages_sized :
    Sized RegisterRequest.encode (fun _ => []) RegisterRequest.pieces (fun _ => 0) ∧
    Sized LoginRequest.encode (fun _ => []) LoginRequest.pieces (fun _ => 0) ∧
    Sized RegisterResponse.encode (fun _ => []) RegisterResponse.pieces (fun _ => 1) ∧
    Sized LoginResponse.encode (fun _ => []) LoginResponse.pieces
      (fun m => if m.ok then 1 + 8 else 1) ∧
    Sized OnlineListResponse.encode OnlineListResponse.counts OnlineListResponse.pieces
      (fun _ => 2) := by
  refine ⟨.of_row RegisterRequest.encode_eq fun _ => rfl,
    .of_row LoginRequest.encode_eq fun _ => rfl, .of_row RegisterResponse.encode_eq fun _ => rfl,
    .of_row LoginResponse.encode_eq LoginResponse.fixed_pieces,
    .of_checked OnlineListResponse.encode_eq OnlineListResponse.fixed_pieces ?_⟩
  intro m c hc
  obtain rfl := List.mem_singleton.1 hc
  exact List.take_left' (BigEndian.length_ofNat 2 _)

/-- A username of three bytes, of two characters. -/
example : LoginRequest.encode ⟨"né", ""⟩ = .ok [0, 3, 110, 195, 169, 0, 0] :=
  rfl

end Corelink.Wire
