import Corelink.Proofs.Wire.Layout
import Corelink.Proofs.Wire.Repair

/-!
# Which payloads are accepted

The layout of each message tells which field is wanted next, by its name. A payload is decoded if it
is one message, and nothing else is: less is a field that runs short, and the first such field is
named; more is bytes left over (`payloads_classified`).
-/

namespace Corelink.Wire

open Layout

section Classifies

variable {α : Type} {Form : List Piece → Prop} {L : Layout} {value : List Piece → α}
  {decode : Bytes → Except FramingError α}

/-- What is accepted, and how the rest fails. -/
structure Classifies (Form : List Piece → Prop) (L : Layout)
    (decode : Bytes → Except FramingError α) : Prop where
  /-- The layout is that of the form. -/
  whole_iff : ∀ {row : List Piece}, L.Whole row ↔ Form row ∧ ∀ x ∈ row, x.Fits
  accepted : ∀ {p : Bytes}, (∃ v, decode p = .ok v) ↔ ∃ row, IsRow Form row p
  /-- An accepted payload that is cut off is truncated. -/
  cut : ∀ {p q : Bytes} {v : α}, decode p = .ok v → q <+: p → q ≠ p →
    ∃ field needed remaining, decode q = .error (.truncated field needed remaining)
  /-- Bytes behind an accepted payload are counted. -/
  extended : ∀ {p t : Bytes} {v : α}, decode p = .ok v → t ≠ [] →
    decode (p ++ t) = .error (.trailingBytes t.length)
  /-- Either bytes are left over, or the field that is to come next is short. -/
  failed : ∀ {p : Bytes} {e : FramingError}, decode p = .error e →
    (∃ row rest, L.Whole row ∧ rest ≠ [] ∧ p = rowBytes row ++ rest ∧
      e = .trailingBytes rest.length) ∨
    ∃ row rest w needed remaining, L.Begun row ∧ L row = some w ∧ p = rowBytes row ++ rest ∧
      w.Short rest needed remaining ∧ remaining < needed ∧
      e = .truncated w.name needed remaining

theorem Layout.Decodes.ok {p : Bytes} {v : α} (h : L.Decodes value p (.ok v)) :
    ∃ row, L.Whole row ∧ p = rowBytes row ∧ v = value row := by
  cases h with
  | whole hrow hp => exact ⟨_, hrow, hp, rfl⟩

theorem Classifies.of_decodes (hform : ∀ {row : List Piece},
      L.Whole row ↔ Form row ∧ ∀ x ∈ row, x.Fits)
    (hdec : ∀ p, L.Decodes value p (decode p)) : Classifies Form L decode where
  whole_iff := hform
  accepted {p} := by
    constructor
    · rintro ⟨v, hv⟩
      obtain ⟨row, hrow, hp, -⟩ := (hv ▸ hdec p).ok
      exact ⟨row, (hform.1 hrow).1, (hform.1 hrow).2, hp⟩
    · rintro ⟨row, hrow⟩
      exact ⟨_, (hdec p).unique (.whole (hform.2 ⟨hrow.form, hrow.fits⟩) hrow.bytes)⟩
  cut {p q v} hv hq hne := by
    obtain ⟨row, hrow, hp, -⟩ := (hv ▸ hdec p).ok
    obtain ⟨t, ht⟩ := hq
    have hbytes : q ++ t = rowBytes row ++ [] := by rw [ht, hp, List.append_nil]
    have hd := hdec q
    generalize decode q = result at hd
    -- a whole payload in front of `t` would be all of `p`
    have far : ∀ row' rest, L.Whole row' → q = rowBytes row' ++ rest → False := by
      rintro row' rest hrow' rfl
      rw [List.append_assoc] at hbytes
      have hnil := (hrow'.unique hrow hbytes).2
      rw [List.append_eq_nil_iff] at hnil
      rw [hnil.2, List.append_nil] at ht
      exact hne ht
    cases hd with
    | @whole row' hrow' hq => exact (far row' [] hrow' (by rw [hq, List.append_nil])).elim
    | trailing hrow' _ hq => exact (far _ _ hrow' hq).elim
    | truncated => exact ⟨_, _, _, rfl⟩
  extended {p t v} hv ht := by
    obtain ⟨row, hrow, rfl, -⟩ := (hv ▸ hdec p).ok
    exact (hdec _).unique (.trailing hrow ht rfl)
  failed {p e} he := by
    have hd := he ▸ hdec p
    cases hd with
    | trailing hrow hrest hp => exact .inl ⟨_, _, hrow, hrest, hp, rfl⟩
    | truncated hrow hw hs hp => exact .inr ⟨_, _, _, _, _, hrow, hw, hp, hs, hs.lt, rfl⟩

end Classifies

/-! ### Layouts of the messages -/

namespace RegisterRequest

def layout : Layout
  | [] => some (.text "username")
  | [_] => some (.text "email")
  | [_, _] => some (.text "password")
  | _ => none

/-- The message with these fields; other rows are not whole. -/
def ofRow : List Piece → RegisterRequest
  | [username, email, password] => ⟨username.string, email.string, password.string⟩
  | _ => ⟨"", "", ""⟩

theorem follows : layout.Follows ofRow [] reader := by
  refine .bind rfl (gives_text "username") fun username _ => ?_
  refine .bind rfl (gives_text "email") fun email _ => ?_
  refine .bind rfl (gives_text "password") fun password _ => ?_
  exact follows_pure rfl

theorem whole_iff {row : List Piece} : layout.Whole row ↔ Form row ∧ ∀ x ∈ row, x.Fits := by
  constructor
  · intro h
    refine ⟨?_, h.begun.fits⟩
    obtain ⟨_, row, rfl, hx, h⟩ := h.cons rfl
    obtain ⟨_, row, rfl, hy, h⟩ := h.cons rfl
    obtain ⟨_, row, rfl, hz, h⟩ := h.cons rfl
    obtain rfl := h.nil rfl
    obtain ⟨username, rfl, -⟩ := hx.text
    obtain ⟨email, rfl, -⟩ := hy.text
    obtain ⟨password, rfl, -⟩ := hz.text
    exact ⟨username, email, password, rfl⟩
  · rintro ⟨⟨username, email, password, rfl⟩, hfits⟩
    simp only [List.forall_mem_cons] at hfits
    obtain ⟨hu, he, hp, -⟩ := hfits
    exact ⟨⟨⟨_, rfl, rfl, hu⟩, ⟨_, rfl, rfl, he⟩, ⟨_, rfl, rfl, hp⟩, trivial⟩, rfl⟩

end RegisterRequest

namespace LoginRequest

def layout : Layout
  | [] => some (.text "username")
  | [_] => some (.text "password")
  | _ => none

def ofRow : List Piece → LoginRequest
  | [username, password] => ⟨username.string, password.string⟩
  | _ => ⟨"", ""⟩

theorem follows : layout.Follows ofRow [] reader := by
  refine .bind rfl (gives_text "username") fun username _ => ?_
  refine .bind rfl (gives_text "password") fun password _ => ?_
  exact follows_pure rfl

theorem whole_iff {row : List Piece} : layout.Whole row ↔ Form row ∧ ∀ x ∈ row, x.Fits := by
  constructor
  · intro h
    refine ⟨?_, h.begun.fits⟩
    obtain ⟨_, row, rfl, hx, h⟩ := h.cons rfl
    obtain ⟨_, row, rfl, hy, h⟩ := h.cons rfl
    obtain rfl := h.nil rfl
    obtain ⟨username, rfl, -⟩ := hx.text
    obtain ⟨password, rfl, -⟩ := hy.text
    exact ⟨username, password, rfl⟩
  · rintro ⟨⟨username, password, rfl⟩, hfits⟩
    simp only [List.forall_mem_cons] at hfits
    obtain ⟨hu, hp, -⟩ := hfits
    exact ⟨⟨⟨_, rfl, rfl, hu⟩, ⟨_, rfl, rfl, hp⟩, trivial⟩, rfl⟩

end LoginRequest

namespace RegisterResponse

def layout : Layout
  | [] => some (.flag "ok")
  | [_] => some (.text "message")
  | _ => none

def ofRow : List Piece → RegisterResponse
  | [ok, message] => ⟨ok.byte != 0, message.string⟩
  | _ => ⟨false, ""⟩

theorem follows : layout.Follows ofRow [] reader := by
  refine .bind rfl (gives_u8 "ok") fun ok _ => ?_
  refine .bind rfl (gives_text "message") fun message _ => ?_
  exact follows_pure rfl

theorem whole_iff {row : List Piece} : layout.Whole row ↔ Form row ∧ ∀ x ∈ row, x.Fits := by
  constructor
  · intro h
    refine ⟨?_, h.begun.fits⟩
    obtain ⟨_, row, rfl, hx, h⟩ := h.cons rfl
    obtain ⟨_, row, rfl, hy, h⟩ := h.cons rfl
    obtain rfl := h.nil rfl
    obtain ⟨ok, rfl⟩ := hx.flag
    obtain ⟨message, rfl, -⟩ := hy.text
    exact ⟨ok, message, rfl⟩
  · rintro ⟨⟨ok, message, rfl⟩, hfits⟩
    simp only [List.forall_mem_cons] at hfits
    obtain ⟨-, hm, -⟩ := hfits
    exact ⟨⟨⟨_, rfl, trivial⟩, ⟨_, rfl, rfl, hm⟩, trivial⟩, rfl⟩

end RegisterResponse

namespace LoginResponse

/-- Token, user id and username come between a flag that is set and the message. -/
def layout : Layout
  | [] => some (.flag "ok")
  | [ok] => some (.text (if ok.byte = 0 then "message" else "token"))
  | [ok, _] => if ok.byte = 0 then none else some (.word "user_id" 8)
  | [_, _, _] => some (.text "username")
  | [_, _, _, _] => some (.text "message")
  | _ => none

def ofRow : List Piece → LoginResponse
  | [_, token, userId, username, message] =>
    accepted token.string (.ofNat userId.number) username.string message.string
  | [_, message] => rejected message.string
  | _ => rejected ""

theorem follows : layout.Follows ofRow [] reader := by
  refine .bind rfl (gives_u8 "ok") fun ok hok => ?_
  obtain ⟨b, rfl⟩ := hok.flag
  by_cases hb : b = 0
  · subst hb
    refine .bind (w := .text "message") rfl (gives_text "message") fun message _ => ?_
    exact follows_pure rfl
  · have hset : (b != 0) = true := bne_iff_ne.2 hb
    have htoken : layout [.flag b] = some (.text "token") := by simp [layout, Piece.byte, hb]
    have huser : ∀ token, layout [.flag b, token] = some (.word "user_id" 8) := by
      simp [layout, Piece.byte, hb]
    simp only [Piece.byte, hset, if_true]
    refine .bind htoken (gives_text "token") fun token _ => ?_
    refine .bind (huser token) (gives_word "user_id" 8 UInt64.ofNat) fun userId _ => ?_
    refine .bind rfl (gives_text "username") fun username _ => ?_
    refine .bind rfl (gives_text "message") fun message _ => ?_
    exact follows_pure rfl

theorem whole_iff {row : List Piece} : layout.Whole row ↔ Form row ∧ ∀ x ∈ row, x.Fits := by
  constructor
  · intro h
    refine ⟨?_, h.begun.fits⟩
    obtain ⟨_, row, rfl, hok, h⟩ := h.cons rfl
    obtain ⟨ok, rfl⟩ := hok.flag
    obtain ⟨_, row, rfl, hx, h⟩ := h.cons rfl
    by_cases hok : ok = 0
    · subst hok
      obtain rfl := h.nil rfl
      obtain ⟨message, rfl, -⟩ := hx.text
      exact .inl ⟨message, rfl⟩
    · have huser : ∀ token, layout [.flag ok, token] = some (.word "user_id" 8) := by
        simp [layout, Piece.byte, hok]
      obtain ⟨_, row, rfl, hi, h⟩ := h.cons (huser _)
      obtain ⟨_, row, rfl, hu, h⟩ := h.cons rfl
      obtain ⟨_, row, rfl, hm, h⟩ := h.cons rfl
      obtain rfl := h.nil rfl
      obtain ⟨token, rfl, -⟩ := hx.text
      obtain ⟨userId, rfl, hid⟩ := hi.word
      obtain ⟨username, rfl, -⟩ := hu.text
      obtain ⟨message, rfl, -⟩ := hm.text
      exact .inr ⟨ok, token, userId, username, message, hok, hid, by simp [Piece.byte, hok]⟩
  · rintro ⟨⟨message, rfl⟩ | ⟨ok, token, userId, username, message, hok, hid, rfl⟩, hfits⟩
    · simp only [List.forall_mem_cons] at hfits
      obtain ⟨-, hm, -⟩ := hfits
      exact ⟨⟨⟨_, rfl, trivial⟩, ⟨_, rfl, rfl, hm⟩, trivial⟩, rfl⟩
    · simp only [List.forall_mem_cons] at hfits
      obtain ⟨-, ht, -, hu, hm, -⟩ := hfits
      have htoken : layout [.flag ok] = some (.text "token") := by simp [layout, Piece.byte, hok]
      have huser : ∀ token, layout [.flag ok, token] = some (.word "user_id" 8) := by
        simp [layout, Piece.byte, hok]
      exact ⟨⟨⟨_, rfl, trivial⟩, ⟨_, htoken, rfl, ht⟩, ⟨_, huser _, hid⟩, ⟨_, rfl, rfl, hu⟩,
        ⟨_, rfl, rfl, hm⟩, trivial⟩, rfl⟩

end LoginResponse

namespace OnlineListResponse

/-- The word in front tells how many names are to come. -/
def layout : Layout
  | [] => some (.word "count" 2)
  | count :: names => if names.length < count.number then some (.text "username") else none

def ofRow (row : List Piece) : OnlineListResponse :=
  ⟨row.tail.map Piece.string⟩

theorem runs_names {count : Piece} {before names : List Piece}
    (hbefore : before.length ≤ count.number) :
    layout.Runs (count :: before) names ↔
      before.length + names.length ≤ count.number ∧
        ∀ x ∈ names, (Want.text "username").Is x := by
  induction names generalizing before with
  | nil => simp [Runs, hbefore]
  | cons x names ih =>
    by_cases hmore : before.length < count.number
    · have hlength : (before ++ [x]).length = before.length + 1 := List.length_append
      have hw : layout (count :: before) = some (.text "username") := if_pos hmore
      rw [runs_cons hw, List.cons_append, ih (hlength ▸ hmore), hlength, List.forall_mem_cons,
        List.length_cons, Nat.add_right_comm, Nat.add_assoc]
      exact and_left_comm
    · have hnone : layout (count :: before) = none := if_neg hmore
      refine iff_of_false (not_runs_cons hnone) fun h => ?_
      have hle := h.1
      rw [List.length_cons] at hle
      omega

theorem follows : layout.Follows ofRow [] reader := by
  refine .bind rfl (gives_word "count" 2 UInt16.ofNat) fun count hcount => ?_
  obtain ⟨bs, rfl, hbs⟩ := hcount.word
  have hn : BigEndian.toNat bs ≤ maxFieldSize := by
    have hlt := BigEndian.toNat_lt bs
    rw [hbs] at hlt
    exact Nat.le_of_lt_succ hlt
  show layout.Follows ofRow [.word bs]
    (Reader.textList "username" (UInt16.ofNat (BigEndian.toNat bs)).toNat >>= _)
  rw [Reader.toNat_u16 hn]
  refine .textList (fun row hmore _ => if_pos hmore) fun row hall _ => ?_
  exact follows_pure (if_neg (Nat.not_lt.2 (Nat.le_of_eq hall.symm)))

theorem ends_names {count : Piece} {names : List Piece} :
    layout.Ends [count] names ↔
      names.length = count.number ∧ ∀ x ∈ names, (Want.text "username").Is x := by
  have hruns := @runs_names count [] names (Nat.zero_le _)
  rw [List.length_nil, Nat.zero_add] at hruns
  have hnone : layout ([count] ++ names) = none ↔ count.number ≤ names.length := by
    simp [layout]
  constructor
  · rintro ⟨hnames, hend⟩
    exact ⟨Nat.le_antisymm (hruns.1 hnames).1 (hnone.1 hend), (hruns.1 hnames).2⟩
  · rintro ⟨hlength, hnames⟩
    exact ⟨hruns.2 ⟨Nat.le_of_eq hlength, hnames⟩, hnone.2 (Nat.le_of_eq hlength.symm)⟩

theorem forall_is_iff {names : List Piece} :
    (∀ x ∈ names, (Want.text "username").Is x) ↔
      (∃ slices : List Bytes, names = slices.map (.text "username")) ∧ ∀ x ∈ names, x.Fits := by
  constructor
  · intro h
    refine ⟨?_, fun x hx => (h x hx).fits⟩
    induction names with
    | nil => exact ⟨[], rfl⟩
    | cons x names ih =>
      obtain ⟨hx, hnames⟩ := List.forall_mem_cons.1 h
      obtain ⟨slice, rfl, -⟩ := hx.text
      obtain ⟨slices, rfl⟩ := ih hnames
      exact ⟨slice :: slices, rfl⟩
  · rintro ⟨⟨slices, rfl⟩, hfits⟩ x hx
    obtain ⟨slice, -, rfl⟩ := List.mem_map.1 hx
    exact ⟨rfl, hfits _ hx⟩

theorem whole_iff {row : List Piece} : layout.Whole row ↔ Form row ∧ ∀ x ∈ row, x.Fits := by
  constructor
  · intro h
    refine ⟨?_, h.begun.fits⟩
    obtain ⟨_, names, rfl, hcount, h⟩ := h.cons rfl
    obtain ⟨bs, rfl, hbs⟩ := hcount.word
    obtain ⟨hlength, hnames⟩ := ends_names.1 h
    obtain ⟨⟨slices, rfl⟩, -⟩ := forall_is_iff.1 hnames
    rw [List.length_map] at hlength
    have hlt := BigEndian.toNat_lt bs
    have hword := BigEndian.ofNat_toNat bs
    rw [hbs] at hlt hword
    refine ⟨slices, ?_, ?_⟩
    · rw [hlength]
      exact Nat.le_of_lt_succ hlt
    · rw [hlength]
      exact congrArg (Piece.word · :: _) hword.symm
  · rintro ⟨⟨slices, hcount, rfl⟩, hfits⟩
    have hnumber : (Piece.word (BigEndian.ofNat 2 slices.length)).number = slices.length := by
      rw [Piece.number, BigEndian.toNat_ofNat]
      exact Nat.mod_eq_of_lt (Nat.lt_succ_of_le hcount)
    have hnames := ends_names.2 ⟨(List.length_map _).trans hnumber.symm,
      forall_is_iff.2 ⟨⟨slices, rfl⟩, (List.forall_mem_cons.1 hfits).2⟩⟩
    exact ⟨⟨⟨_, rfl, BigEndian.length_ofNat 2 _⟩, hnames.runs⟩, hnames.complete⟩

end OnlineListResponse

/-! ### All messages -/

/-- **A payload is accepted if it is one message, and every other one is told apart.** A part of a
message lacks the field that is named, with so many bytes needed and so many left; more than a
message has bytes behind it. -/
theorem payloads_classified :
    Classifies RegisterRequest.Form RegisterRequest.layout RegisterRequest.decode ∧
    Classifies LoginRequest.Form LoginRequest.layout LoginRequest.decode ∧
    Classifies RegisterResponse.Form RegisterResponse.layout RegisterResponse.decode ∧
    Classifies LoginResponse.Form LoginResponse.layout LoginResponse.decode ∧
    Classifies OnlineListResponse.Form OnlineListResponse.layout OnlineListResponse.decode :=
  ⟨.of_decodes RegisterRequest.whole_iff RegisterRequest.follows.decode,
    .of_decodes LoginRequest.whole_iff LoginRequest.follows.decode,
    .of_decodes RegisterResponse.whole_iff RegisterResponse.follows.decode,
    .of_decodes LoginResponse.whole_iff LoginResponse.follows.decode,
    .of_decodes OnlineListResponse.whole_iff OnlineListResponse.follows.decode⟩

/-- The second name of a list is there with four of its five bytes. -/
example : OnlineListResponse.decode [0, 2, 0, 1, 97, 0, 5, 98, 99, 100, 101] =
    .error (.truncated "username" 5 4) :=
  rfl

end Corelink.Wire
