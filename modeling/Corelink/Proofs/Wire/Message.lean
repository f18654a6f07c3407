import Corelink.Proofs.Wire.Field

/-!
# Messages read back

Each message that can be encoded is decoded to itself, except that the answer to a login keeps
no more than its message when it is a rejection (`LoginResponse.plain`). So a payload belongs to
one message, up to what a rejection drops.
-/

namespace Corelink.Wire

open Reader

theorem flag_ne_zero (b : Bool) : ((if b then 1 else 0 : UInt8) != 0) = b := by
  cases b <;> rfl

namespace RegisterRequest

theorem takes {m : RegisterRequest} {p : Bytes} (h : m.encode = .ok p) : reader.Takes p m := by
  obtain ⟨username, hu, h⟩ := bind_eq_ok_iff.1 h
  obtain ⟨email, he, h⟩ := bind_eq_ok_iff.1 h
  obtain ⟨password, hp, h⟩ := bind_eq_ok_iff.1 h
  cases h
  rw [List.append_assoc]
  refine (takes_text hu).bind ((takes_text he).bind ?_)
  exact (takes_text hp).map (mk m.username m.email)

end RegisterRequest

namespace LoginRequest

theorem takes {m : LoginRequest} {p : Bytes} (h : m.encode = .ok p) : reader.Takes p m := by
  obtain ⟨username, hu, h⟩ := bind_eq_ok_iff.1 h
  obtain ⟨password, hp, h⟩ := bind_eq_ok_iff.1 h
  cases h
  refine (takes_text hu).bind ?_
  exact (takes_text hp).map (mk m.username)

/-- A login whose two fields fit can be encoded, and the payload fits into a frame. -/
theorem encode_of_fits {u p : String} (hu : Utf8.size u ≤ maxFieldSize)
    (hp : Utf8.size p ≤ maxFieldSize) :
    ∃ payload, (LoginRequest.mk u p).encode = .ok payload ∧ payload.length < UInt32.size := by
  refine ⟨_, bind_eq_ok_iff.2 ⟨_, Field.text_eq_ok_iff.2 ⟨hu, rfl⟩, bind_eq_ok_iff.2
    ⟨_, Field.text_eq_ok_iff.2 ⟨hp, rfl⟩, rfl⟩⟩, ?_⟩
  have hlength : ∀ s, (Utf8.encode s).length = Utf8.size s := fun _ => rfl
  simp only [List.length_append, BigEndian.length_ofNat, hlength]
  simp only [maxFieldSize] at hu hp
  simp only [UInt32.size]
  omega

end LoginRequest

namespace RegisterResponse

theorem takes {m : RegisterResponse} {p : Bytes} (h : m.encode = .ok p) : reader.Takes p m := by
  obtain ⟨message, hm, h⟩ := bind_eq_ok_iff.1 h
  cases h
  have hrest : (Reader.text "message" >>= fun text =>
      Pure.pure (mk ((if m.ok then 1 else 0 : UInt8) != 0) text)).Takes message m := by
    rw [flag_ne_zero]
    exact (takes_text hm).map (mk m.ok)
  exact (takes_u8 "ok" (if m.ok then 1 else 0)).bind hrest

end RegisterResponse

namespace LoginResponse

/-- What the wire keeps of the answer to a login. -/
def plain (m : LoginResponse) : LoginResponse :=
  if m.ok then m else rejected m.message

theorem takes_accepted {m : LoginResponse} {grant message : Bytes}
    (hg : m.encodeGrant = .ok grant) (hm : Field.text "message" m.message = .ok message) :
    (do
      let token ← Reader.text "token"
      let userId ← Reader.u64 "user_id"
      let username ← Reader.text "username"
      let message ← Reader.text "message"
      return accepted token userId username message : Reader LoginResponse).Takes
      (grant ++ message) (accepted m.token m.userId m.username m.message) := by
  obtain ⟨token, ht, hg⟩ := bind_eq_ok_iff.1 hg
  obtain ⟨username, hu, hg⟩ := bind_eq_ok_iff.1 hg
  cases hg
  rw [List.append_assoc, List.append_assoc]
  refine (takes_text ht).bind ((takes_u64 "user_id" m.userId).bind ((takes_text hu).bind ?_))
  exact (takes_text hm).map (accepted m.token m.userId m.username)

theorem takes {m : LoginResponse} {p : Bytes} (h : m.encode = .ok p) : reader.Takes p m.plain := by
  obtain ⟨ok, token, userId, username, text⟩ := m
  cases ok with
  | true =>
    obtain ⟨grant, hg, h⟩ := bind_eq_ok_iff.1 h
    obtain ⟨message, hm, h⟩ := bind_eq_ok_iff.1 h
    cases h
    exact (takes_u8 "ok" 1).bind (takes_accepted hg hm)
  | false =>
    obtain ⟨grant, hg, h⟩ := bind_eq_ok_iff.1 h
    obtain ⟨message, hm, h⟩ := bind_eq_ok_iff.1 h
    cases hg
    cases h
    exact (takes_u8 "ok" 0).bind ((takes_text hm).map rejected)

end LoginResponse

namespace OnlineListResponse

theorem takes {m : OnlineListResponse} {p : Bytes} (h : m.encode = .ok p) : reader.Takes p m := by
  unfold encode at h
  split at h
  · cases h
  · rename_i hlen
    have hcount : m.usernames.length ≤ maxFieldSize := Nat.not_lt.1 hlen
    obtain ⟨names, hnames, h⟩ := bind_eq_ok_iff.1 h
    cases h
    refine (takes_u16 "count" hcount).bind ?_
    rw [toNat_u16 hcount]
    exact (takes_textList hnames).map mk

end OnlineListResponse

/-! ### All messages -/

/-- Whatever can be encoded is decoded to what `keep` leaves of it. -/
structure ReadsBack {α : Type} (encode : α → Except ValidationError Bytes)
    (decode : Bytes → Except FramingError α) (keep : α → α) : Prop where
  decode_eq : ∀ {m : α} {p : Bytes}, encode m = .ok p → decode p = .ok (keep m)
  /-- A payload belongs to one message. -/
  keep_eq : ∀ {m m' : α} {p : Bytes}, encode m = .ok p → encode m' = .ok p → keep m = keep m'

theorem ReadsBack.of_takes {α : Type} {encode : α → Except ValidationError Bytes} {r : Reader α}
    {keep : α → α} (h : ∀ {m : α} {p : Bytes}, encode m = .ok p → r.Takes p (keep m)) :
    ReadsBack encode r.decode keep where
  decode_eq hm := (h hm).decode
  keep_eq {m m' p} hm hm' := by
    have hd : r.decode p = .ok (keep m) := (h hm).decode
    rw [(h hm').decode] at hd
    exact (Except.ok.inj hd).symm

/-- **Messages are read back.** What a message is encoded as is decoded to the message, and to no
other one; a rejected login comes back as the rejection with its message alone. -/
theorem messages_read_back :
    ReadsBack RegisterRequest.encode RegisterRequest.decode id ∧
    ReadsBack LoginRequest.encode LoginRequest.decode id ∧
    ReadsBack RegisterResponse.encode RegisterResponse.decode id ∧
    ReadsBack LoginResponse.encode LoginResponse.decode
      (fun m => if m.ok then m else .rejected m.message) ∧
    ReadsBack OnlineListResponse.encode OnlineListResponse.decode id :=
  ⟨.of_takes RegisterRequest.takes, .of_takes LoginRequest.takes, .of_takes RegisterResponse.takes,
    .of_takes LoginResponse.takes, .of_takes OnlineListResponse.takes⟩

/-- A rejection that carries more than its message is not what comes back. -/
example : LoginResponse.encode ⟨false, "T1", 42, "bob", "né"⟩ = .ok [0, 0, 3, 110, 195, 169] ∧
    LoginResponse.decode [0, 0, 3, 110, 195, 169] = .ok (.rejected "né") :=
  ⟨rfl, rfl⟩

end Corelink.Wire
