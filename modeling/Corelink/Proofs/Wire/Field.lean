import Corelink.Proofs.Text.Utf8
import Corelink.Wire.Message

/-!
# Fields read back

`r.Takes bs a` says that a reader takes exactly `bs` off the front and gives `a`, whatever
comes behind. Readers one after another take their bytes one after another (`Takes.bind`), so a
payload is read back field by field: each kind of field says once what it is written as
(`takes_word`, `takes_text`, `takes_textList`).
-/

namespace Corelink.Wire

theorem bind_eq_ok_iff {ε α β : Type} {x : Except ε α} {f : α → Except ε β} {b : β} :
    x >>= f = .ok b ↔ ∃ a, x = .ok a ∧ f a = .ok b := by
  cases x with
  | error e => exact ⟨nofun, fun ⟨_, h, _⟩ => nomatch h⟩
  | ok a => exact ⟨fun h => ⟨a, rfl, h⟩, fun ⟨_, h, hf⟩ => Except.ok.inj h ▸ hf⟩

theorem Field.text_eq_ok_iff {field s : String} {bs : Bytes} :
    Field.text field s = .ok bs ↔
      Utf8.size s ≤ maxFieldSize ∧ bs = BigEndian.ofNat 2 (Utf8.size s) ++ Utf8.encode s := by
  unfold Field.text
  split
  · rename_i h
    exact ⟨nofun, fun hs => absurd hs.1 (Nat.not_le.2 h)⟩
  · rename_i h
    exact ⟨fun hb => ⟨Nat.not_lt.1 h, (Except.ok.inj hb).symm⟩, fun hb => congrArg _ hb.2.symm⟩

namespace Reader

variable {α β : Type}

/-- The reader takes these bytes off the front and gives `a`, whatever comes behind them. -/
def Takes (r : Reader α) (bs : Bytes) (a : α) : Prop :=
  ∀ rest : Bytes, r (bs ++ rest) = (.ok a, rest)

theorem takes_pure (a : α) : (Pure.pure a : Reader α).Takes [] a :=
  fun _ => rfl

theorem Takes.bind {r : Reader α} {f : α → Reader β} {bs cs : Bytes} {a : α} {b : β}
    (hr : r.Takes bs a) (hf : (f a).Takes cs b) : (r >>= f).Takes (bs ++ cs) b := by
  intro rest
  show Reader.bind r f (bs ++ cs ++ rest) = _
  rw [Reader.bind, List.append_assoc, hr]
  exact hf rest

theorem Takes.map {r : Reader α} {bs : Bytes} {a : α} (hr : r.Takes bs a) (g : α → β) :
    (r >>= fun a => Pure.pure (g a)).Takes bs (g a) := by
  have h := hr.bind (f := fun a => Pure.pure (g a)) (takes_pure (g a))
  rwa [List.append_nil] at h

theorem Takes.decode {r : Reader α} {bs : Bytes} {a : α} (hr : r.Takes bs a) :
    r.decode bs = .ok a := by
  have h : (r >>= fun a => finish >>= fun _ => Pure.pure a) bs = (.ok a, []) := by
    show Reader.bind r _ bs = _
    have hrest := hr []
    rw [List.append_nil] at hrest
    rw [Reader.bind, hrest]
    rfl
  exact congrArg Prod.fst h

/-! ### Words -/

theorem takes_take (field : String) {n : Nat} {bs : Bytes} (h : bs.length = n) :
    (take field n).Takes bs bs := by
  intro rest
  have hl : Bytes.shorterThan (bs ++ rest) n = false := by
    rw [Bytes.shorterThan_false_iff, List.length_append]
    omega
  rw [take, hl, if_neg Bool.false_ne_true, List.take_left' h, List.drop_left' h]

theorem takes_word (field : String) (k : Nat) {n : Nat} (hn : n < Nat.pow 256 k) (g : Nat → α) :
    (take field k >>= fun bs => Pure.pure (g (BigEndian.toNat bs))).Takes
      (BigEndian.ofNat k n) (g n) := by
  have h := (takes_take field (BigEndian.length_ofNat k n)).map fun bs => g (BigEndian.toNat bs)
  rwa [BigEndian.toNat_ofNat, Nat.mod_eq_of_lt hn] at h

theorem takes_u8 (field : String) (b : UInt8) : (u8 field).Takes [b] b := by
  have h := takes_word field 1 b.toNat_lt UInt8.ofNat
  have hb : BigEndian.ofNat 1 b.toNat = [b] := congrArg ([·]) UInt8.ofNat_toNat
  rwa [hb, UInt8.ofNat_toNat] at h

theorem takes_u16 (field : String) {n : Nat} (hn : n ≤ maxFieldSize) :
    (u16 field).Takes (BigEndian.ofNat 2 n) (UInt16.ofNat n) :=
  takes_word field 2 (Nat.lt_succ_of_le hn) UInt16.ofNat

theorem takes_u64 (field : String) (n : UInt64) :
    (u64 field).Takes (BigEndian.ofNat 8 n.toNat) n := by
  have h := takes_word field 8 n.toNat_lt UInt64.ofNat
  rwa [UInt64.ofNat_toNat] at h

theorem toNat_u16 {n : Nat} (hn : n ≤ maxFieldSize) : (UInt16.ofNat n).toNat = n :=
  UInt16.toNat_ofNat_of_lt' (Nat.lt_succ_of_le hn)

/-! ### Texts -/

/-- **A text that fits is read back**, whatever its characters. -/
theorem takes_text {field field' s : String} {bs : Bytes} (h : Field.text field s = .ok bs) :
    (text field').Takes bs s := by
  obtain ⟨hfit, rfl⟩ := Field.text_eq_ok_iff.1 h
  refine (takes_u16 field' hfit).bind ?_
  have hbody := (takes_take field' (toNat_u16 hfit).symm).map Utf8.decodeLossy
  rwa [Utf8.decodeLossy_encode] at hbody

theorem takes_textList {field : String} {ss : List String} {bs : Bytes}
    (h : OnlineListResponse.encodeNames ss = .ok bs) : (textList field ss.length).Takes bs ss := by
  induction ss generalizing bs with
  | nil =>
    cases h
    exact takes_pure []
  | cons s ss ih =>
    obtain ⟨name, hname, h⟩ := bind_eq_ok_iff.1 h
    obtain ⟨names, hnames, h⟩ := bind_eq_ok_iff.1 h
    cases h
    exact (takes_text hname).bind ((ih hnames).map (s :: ·))

end Reader

end Corelink.Wire
