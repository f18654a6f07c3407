import Corelink.Proofs.Wire.Acceptance

/-!
# What a text says never matters to the parse

No layout looks into a text (`Layout.Blind`): of the fields so far it takes no more than their
outline, where each text is blank. So if two payloads differ only inside the body of one text, each
field of the one stands where it stands in the other (`Decodes.swap`). They are decoded to the same
message but for this text, or fail alike (`texts_never_steer`); bytes that are no character, and
characters that are broken off, stay inside their text.
-/

namespace Corelink.Wire

namespace Piece

/-- The field with its text blanked. -/
def outline : Piece → Piece
  | text field slice => text field (List.replicate slice.length 0)
  | x => x

@[simp] theorem byte_outline (x : Piece) : x.outline.byte = x.byte := by
  cases x <;> rfl

@[simp] theorem number_outline (x : Piece) : x.outline.number = x.number := by
  cases x <;> rfl

theorem outline_text {field : String} {slice slice' : Bytes} (h : slice'.length = slice.length) :
    (text field slice').outline = (text field slice).outline := by
  rw [outline, outline, h]

end Piece

theorem Want.is_outline (w : Want) (x : Piece) : w.Is x.outline ↔ w.Is x := by
  cases x with
  | flag | word => rfl
  | text field slice =>
    cases w with
    | text => simp [Piece.outline, Want.Is]
    | flag | word => rfl

namespace Layout

variable {α : Type} {L : Layout} {value : List Piece → α} {before before' row row' : List Piece}
  {x y : Piece} {p p' rest : Bytes} {start n : Nat}

/-- The layout never looks into a text. -/
def Blind (L : Layout) : Prop :=
  ∀ row, L (row.map Piece.outline) = L row

theorem Blind.eq (hL : L.Blind) (h : row'.map Piece.outline = row.map Piece.outline) :
    L row' = L row := by
  rw [← hL row', h, hL row]

theorem Runs.outline (hL : L.Blind) (h : L.Runs before row)
    (hbefore : before'.map Piece.outline = before.map Piece.outline)
    (hrow : row'.map Piece.outline = row.map Piece.outline) : L.Runs before' row' := by
  induction row generalizing before before' row' with
  | nil =>
    obtain rfl := List.map_eq_nil_iff.1 hrow
    trivial
  | cons x row ih =>
    obtain ⟨y, row', rfl, hxy, hrow⟩ := List.map_eq_cons_iff.1 hrow
    obtain ⟨⟨w, hw, hx⟩, h⟩ := h
    refine ⟨⟨w, (hL.eq hbefore).trans hw, ?_⟩, ih h ?_ hrow⟩
    · rwa [← w.is_outline, hxy, w.is_outline]
    · rw [List.map_append, List.map_append, hbefore, List.map_singleton, List.map_singleton, hxy]

theorem Begun.outline (hL : L.Blind) (h : L.Begun row)
    (hrow : row'.map Piece.outline = row.map Piece.outline) : L.Begun row' :=
  Runs.outline hL h rfl hrow

/-- **A field of the same outline in its place**: the fields behind it are the same, or the same
error. -/
theorem Decodes.swap {r : Except FramingError α} (hL : L.Blind) (hx : L.Begun (before ++ [x]))
    (hy : y.outline = x.outline) (h : L.Decodes value (rowBytes (before ++ [x]) ++ rest) r) :
    (∃ more, L.Whole (before ++ x :: more) ∧ r = .ok (value (before ++ x :: more)) ∧
      L.Decodes value (rowBytes (before ++ [y]) ++ rest) (.ok (value (before ++ y :: more)))) ∨
    ∃ e, r = .error e ∧ L.Decodes value (rowBytes (before ++ [y]) ++ rest) (.error e) := by
  have hrow : ∀ more, (before ++ y :: more).map Piece.outline =
      (before ++ x :: more).map Piece.outline := by
    simp [hy]
  have hbytes : ∀ (z : Piece) more a, rest = rowBytes more ++ a →
      rowBytes (before ++ [z]) ++ rest = rowBytes (before ++ z :: more) ++ a := by
    rintro z more a rfl
    simp [rowBytes]
  have hwhole : ∀ more, L.Whole (before ++ x :: more) → L.Whole (before ++ y :: more) :=
    fun more hw => ⟨hw.begun.outline hL (hrow more), (hL.eq (hrow more)).trans hw.eq_none⟩
  cases h with
  | @whole row hw hp =>
    obtain ⟨more, rfl, hrest⟩ := hw.eq_append (a := []) hx (by rw [List.append_nil, hp])
    rw [List.append_assoc, List.singleton_append] at hw ⊢
    refine .inl ⟨more, hw, rfl, .whole (hwhole more hw) ?_⟩
    rw [hbytes y more [] hrest, List.append_nil]
  | @trailing row a hw ha hp =>
    obtain ⟨more, rfl, hrest⟩ := hw.eq_append hx hp.symm
    rw [List.append_assoc, List.singleton_append] at hw
    exact .inr ⟨_, rfl, .trailing (hwhole more hw) ha (hbytes y more a hrest)⟩
  | @truncated row a w needed remaining hb hw hs hp =>
    obtain ⟨more, rfl, hrest⟩ := hb.le_of_short hw hs hx hp.symm
    rw [List.append_assoc, List.singleton_append] at hb hw
    exact .inr ⟨_, rfl, .truncated (hb.outline hL (hrow more)) ((hL.eq (hrow more)).trans hw) hs
      (hbytes y more a hrest)⟩

/-! ### Payloads that differ in one text -/

/-- The text that is to come behind the fields in `before` is said to have `n` bytes, which begin
at `start`. -/
structure TextAt (L : Layout) (before : List Piece) (p : Bytes) (start n : Nat) : Prop where
  begun : L.Begun before
  want : ∃ name, L before = some (.text name)
  fits : n ≤ maxFieldSize
  bytes : rowBytes before ++ BigEndian.ofNat 2 n <+: p
  start_eq : start = (rowBytes before).length + 2

end Layout

/-- The bytes are the same, but for some of the `n` bytes from `start` on. -/
structure DifferIn (p p' : Bytes) (start n : Nat) : Prop where
  length_eq : p'.length = p.length
  outside : ∀ i, i < start ∨ start + n ≤ i → p'[i]? = p[i]?

theorem DifferIn.split {front tail p' : Bytes} {n : Nat}
    (h : DifferIn (front ++ tail) p' front.length n) :
    ∃ tail', p' = front ++ tail' ∧ tail'.length = tail.length ∧ tail'.drop n = tail.drop n := by
  have hfront : p'.take front.length = front := by
    refine List.ext_getElem? fun i => ?_
    by_cases hi : i < front.length
    · rw [List.getElem?_take_of_lt hi, h.outside i (.inl hi), List.getElem?_append_left hi]
    · rw [List.getElem?_eq_none (by simp; omega), List.getElem?_eq_none (by omega)]
  have hp' : p' = front ++ p'.drop front.length := by
    conv_lhs => rw [← List.take_append_drop front.length p', hfront]
  refine ⟨_, hp', ?_, List.ext_getElem? fun i => ?_⟩
  · have hlength := h.length_eq
    rw [List.length_append] at hlength
    rw [List.length_drop]
    omega
  · have hi := h.outside (front.length + (n + i)) (.inr (by omega))
    rw [List.getElem?_append_right (by omega), Nat.add_sub_cancel_left] at hi
    rw [List.getElem?_drop, List.getElem?_drop, List.getElem?_drop, hi]

section Ignores

variable {α : Type} {L : Layout} {value : List Piece → α}
  {decode : Bytes → Except FramingError α} {withText : Nat → String → α → α}

/-- Other bytes inside the body of one text: the message is the same but for this text, and an error
is the same error. -/
structure IgnoresText (L : Layout) (decode : Bytes → Except FramingError α)
    (withText : Nat → String → α → α) : Prop where
  ok : ∀ {before : List Piece} {p p' : Bytes} {start n : Nat} {v : α},
    L.TextAt before p start n → DifferIn p p' start n → decode p = .ok v →
      decode p' = .ok (withText before.length (Utf8.decodeLossy ((p'.drop start).take n)) v)
  error : ∀ {before : List Piece} {p p' : Bytes} {start n : Nat} {e : FramingError},
    L.TextAt before p start n → DifferIn p p' start n → decode p = .error e → decode p' = .error e

theorem Layout.TextAt.split {before : List Piece} {p p' : Bytes} {start n : Nat}
    (h : L.TextAt before p start n) (hd : DifferIn p p' start n) :
    ∃ tail, p = rowBytes before ++ (BigEndian.ofNat 2 n ++ tail) ∧
      p' = rowBytes before ++ (BigEndian.ofNat 2 n ++ p'.drop start) ∧
      (p'.drop start).length = tail.length ∧ (p'.drop start).drop n = tail.drop n := by
  obtain ⟨tail, rfl⟩ := h.bytes
  have hstart : start = (rowBytes before ++ BigEndian.ofNat 2 n).length := by
    rw [h.start_eq, List.length_append, BigEndian.length_ofNat]
  subst hstart
  obtain ⟨tail', rfl, hlength, hdrop⟩ := hd.split
  rw [List.drop_left, List.append_assoc, List.append_assoc]
  exact ⟨tail, rfl, rfl, hlength, hdrop⟩

theorem Layout.TextAt.decodes (hL : L.Blind) {before : List Piece} {p p' : Bytes} {start n : Nat}
    (h : L.TextAt before p start n) (hd : DifferIn p p' start n) {r : Except FramingError α}
    (hr : L.Decodes value p r) :
    (∃ name slice more, L.Whole (before ++ .text name slice :: more) ∧
      r = .ok (value (before ++ .text name slice :: more)) ∧
      L.Decodes value p'
        (.ok (value (before ++ .text name ((p'.drop start).take n) :: more)))) ∨
    ∃ e, r = .error e ∧ L.Decodes value p' (.error e) := by
  obtain ⟨name, hw⟩ := h.want
  obtain ⟨tail, hp, hp', hlength, hdrop⟩ := h.split hd
  generalize p'.drop start = tail' at hp' hlength hdrop ⊢
  by_cases hn : n ≤ tail.length
  · have hslice : (tail.take n).length = n := List.length_take_of_le hn
    have hslice' : (tail'.take n).length = n := List.length_take_of_le (hlength ▸ hn)
    have hfits : (tail.take n).length ≤ maxFieldSize := hslice.symm ▸ h.fits
    have hbegun : L.Begun (before ++ [.text name (tail.take n)]) :=
      begun_append.2 ⟨h.begun, ⟨_, hw, rfl, hfits⟩, trivial⟩
    have hfield : ∀ t : Bytes, (t.take n).length = n →
        rowBytes before ++ (BigEndian.ofNat 2 n ++ t) =
          rowBytes (before ++ [.text name (t.take n)]) ++ t.drop n := by
      intro t ht
      simp [rowBytes, Piece.bytes, ht]
    rw [hp, hfield tail hslice] at hr
    have hswap := hr.swap hL hbegun (Piece.outline_text (hslice'.trans hslice.symm))
    rw [← hdrop, ← hfield tail' hslice', ← hp'] at hswap
    obtain ⟨more, hmore⟩ | herror := hswap
    · exact .inl ⟨name, _, more, hmore⟩
    · exact .inr herror
  · have hshort : tail.length < n := Nat.not_le.1 hn
    have hcut : L.Decodes value p (.error (.truncated name n tail.length)) :=
      .truncated h.begun hw (.body rfl h.fits rfl hshort) hp
    have hcut' : L.Decodes value p' (.error (.truncated name n tail'.length)) :=
      .truncated h.begun hw (.body rfl h.fits rfl (hlength ▸ hshort)) hp'
    exact .inr ⟨_, hr.unique hcut, hlength ▸ hcut'⟩

theorem IgnoresText.of_decodes (hL : L.Blind) (hdec : ∀ p, L.Decodes value p (decode p))
    (hvalue : ∀ {row : List Piece} {k : Nat} {name : String} {slice : Bytes} (slice' : Bytes),
      L.Whole row → row[k]? = some (.text name slice) →
        value (row.set k (.text name slice')) =
          withText k (Utf8.decodeLossy slice') (value row)) :
    IgnoresText L decode withText where
  ok {before p p' start n v} h hd hv := by
    obtain ⟨name, slice, more, hwhole, hr, hp'⟩ | ⟨e, hr, -⟩ := h.decodes hL hd (hdec p)
    · have hat : (before ++ .text name slice :: more)[before.length]? =
          some (.text name slice) := by simp
      have hnew := hvalue ((p'.drop start).take n) hwhole hat
      rw [List.set_append_right _ _ (Nat.le_refl _), Nat.sub_self, List.set_cons_zero] at hnew
      rw [(hdec p').unique hp', hnew, Except.ok.inj (hv.symm.trans hr)]
    · cases hv.symm.trans hr
  error {before p p' start n e} h hd he := by
    obtain ⟨name, slice, more, -, hr, -⟩ | ⟨e', hr, hp'⟩ := h.decodes hL hd (hdec p)
    · cases he.symm.trans hr
    · cases he.symm.trans hr
      exact (hdec p').unique hp'

end Ignores

/-! ### Texts of the messages -/

namespace RegisterRequest

theorem blind : layout.Blind := by
  intro row
  rcases row with _ | ⟨_, _ | ⟨_, _ | ⟨_, row⟩⟩⟩ <;> rfl

/-- The message with another text for its field `k`. -/
def withText (k : Nat) (s : String) (m : RegisterRequest) : RegisterRequest :=
  match k with
  | 0 => { m with username := s }
  | 1 => { m with email := s }
  | 2 => { m with password := s }
  | _ => m

theorem ofRow_set {row : List Piece} {k : Nat} {name : String} {slice : Bytes} (slice' : Bytes)
    (h : layout.Whole row) (hk : row[k]? = some (.text name slice)) :
    ofRow (row.set k (.text name slice')) = withText k (Utf8.decodeLossy slice') (ofRow row) := by
  obtain ⟨⟨username, email, password, rfl⟩, -⟩ := whole_iff.1 h
  match k with
  | 0 | 1 | 2 => rfl
  | k + 3 => cases hk

end RegisterRequest

namespace LoginRequest

theorem blind : layout.Blind := by
  intro row
  rcases row with _ | ⟨_, _ | ⟨_, row⟩⟩ <;> rfl

def withText (k : Nat) (s : String) (m : LoginRequest) : LoginRequest :=
  match k with
  | 0 => { m with username := s }
  | 1 => { m with password := s }
  | _ => m

theorem ofRow_set {row : List Piece} {k : Nat} {name : String} {slice : Bytes} (slice' : Bytes)
    (h : layout.Whole row) (hk : row[k]? = some (.text name slice)) :
    ofRow (row.set k (.text name slice')) = withText k (Utf8.decodeLossy slice') (ofRow row) := by
  obtain ⟨⟨username, password, rfl⟩, -⟩ := whole_iff.1 h
  match k with
  | 0 | 1 => rfl
  | k + 2 => cases hk

end LoginRequest

namespace RegisterResponse

theorem blind : layout.Blind := by
  intro row
  rcases row with _ | ⟨_, _ | ⟨_, row⟩⟩ <;> rfl

def withText (k : Nat) (s : String) (m : RegisterResponse) : RegisterResponse :=
  match k with
  | 1 => { m with message := s }
  | _ => m

theorem ofRow_set {row : List Piece} {k : Nat} {name : String} {slice : Bytes} (slice' : Bytes)
    (h : layout.Whole row) (hk : row[k]? = some (.text name slice)) :
    ofRow (row.set k (.text name slice')) = withText k (Utf8.decodeLossy slice') (ofRow row) := by
  obtain ⟨⟨ok, message, rfl⟩, -⟩ := whole_iff.1 h
  match k with
  | 0 => cases hk
  | 1 => rfl
  | k + 2 => cases hk

end RegisterResponse

namespace LoginResponse

theorem blind : layout.Blind := by
  intro row
  rcases row with _ | ⟨_, _ | ⟨_, _ | ⟨_, _ | ⟨_, _ | ⟨_, row⟩⟩⟩⟩⟩ <;> simp [layout]

/-- The field behind the flag is the message, if the flag is not set. -/
def withText (k : Nat) (s : String) (m : LoginResponse) : LoginResponse :=
  match m.ok, k with
  | false, 1 | true, 4 => { m with message := s }
  | true, 1 => { m with token := s }
  | true, 3 => { m with username := s }
  | _, _ => m

theorem ofRow_set {row : List Piece} {k : Nat} {name : String} {slice : Bytes} (slice' : Bytes)
    (h : layout.Whole row) (hk : row[k]? = some (.text name slice)) :
    ofRow (row.set k (.text name slice')) = withText k (Utf8.decodeLossy slice') (ofRow row) := by
  obtain ⟨⟨message, rfl⟩ | ⟨ok, token, userId, username, message, -, -, rfl⟩, -⟩ := whole_iff.1 h
  · match k with
    | 0 => cases hk
    | 1 => rfl
    | k + 2 => cases hk
  · match k with
    | 0 | 2 => cases hk
    | 1 | 3 | 4 => rfl
    | k + 5 => cases hk

end LoginResponse

namespace OnlineListResponse

theorem blind : layout.Blind := by
  intro row
  cases row <;> simp [layout]

/-- The field behind the count is the first name. -/
def withText (k : Nat) (s : String) (m : OnlineListResponse) : OnlineListResponse :=
  match k with
  | 0 => m
  | k + 1 => { m with usernames := m.usernames.set k s }

theorem ofRow_set {row : List Piece} {k : Nat} {name : String} {slice : Bytes} (slice' : Bytes)
    (h : layout.Whole row) (hk : row[k]? = some (.text name slice)) :
    ofRow (row.set k (.text name slice')) = withText k (Utf8.decodeLossy slice') (ofRow row) := by
  obtain ⟨⟨names, -, rfl⟩, -⟩ := whole_iff.1 h
  match k with
  | 0 => cases hk
  | k + 1 => exact congrArg mk List.map_set

end OnlineListResponse

/-! ### All messages -/

/-- **What a text says never matters to the parse.** Two payloads that differ only inside the body
of one text, where the first one is parsed to have it, are decoded to messages that differ in this
text alone, or to the same error. -/
theorem texts_never_steer :
    IgnoresText RegisterRequest.layout RegisterRequest.decode RegisterRequest.withText ∧
    IgnoresText LoginRequest.layout LoginRequest.decode LoginRequest.withText ∧
    IgnoresText RegisterResponse.layout RegisterResponse.decode RegisterResponse.withText ∧
    IgnoresText LoginResponse.layout LoginResponse.decode LoginResponse.withText ∧
    IgnoresText OnlineListResponse.layout OnlineListResponse.decode OnlineListResponse.withText :=
  ⟨.of_decodes RegisterRequest.blind RegisterRequest.follows.decode RegisterRequest.ofRow_set,
    .of_decodes LoginRequest.blind LoginRequest.follows.decode LoginRequest.ofRow_set,
    .of_decodes RegisterResponse.blind RegisterResponse.follows.decode RegisterResponse.ofRow_set,
    .of_decodes LoginResponse.blind LoginResponse.follows.decode LoginResponse.ofRow_set,
    .of_decodes OnlineListResponse.blind OnlineListResponse.follows.decode
      OnlineListResponse.ofRow_set⟩

/-- A username that ends inside a character does not take the byte that would complete it. -/
example : (LoginRequest.decode [0, 1, 0xC3, 0, 1, 0xA9]).toOption = some ⟨"\ufffd", "\ufffd"⟩ :=
  rfl

end Corelink.Wire
