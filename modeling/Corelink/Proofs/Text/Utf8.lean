import Corelink.Text.Utf8

/-!
# Reading back written text

A character is written as a first byte, which says how many bytes follow and carries the high
bits, and as many tails of six bits each. The reader takes it back byte by byte
(`decodeFrom_utf8EncodeChar`): no first byte begins a range of second bytes that shuts out a
character written with it. So the repair of bytes that are not UTF-8 leaves every written text
alone (`decodeLossy_encode`).
-/

namespace Corelink.Utf8

/-- A tail carries the low six bits of `n`. -/
def tail (n : Nat) : UInt8 :=
  UInt8.ofNat (n % 64 + 0x80)

/-! ### First bytes -/

theorem lead_ascii : ∀ n < 0x80, lead (UInt8.ofNat n) = .whole (Char.ofNat n) := by
  decide

theorem lead_two : ∀ n < 0x20, 2 ≤ n →
    lead (UInt8.ofNat (n + 0xC0)) = .begins ⟨1, 0x80, 0xBF, n⟩ := by
  decide

/-- After `E0` the overlong forms are shut out, and after `ED` the surrogates. -/
theorem lead_three : ∀ n < 0x10, lead (UInt8.ofNat (n + 0xE0)) =
    .begins ⟨2, if n = 0 then 0xA0 else 0x80, if n = 0xD then 0x9F else 0xBF, n⟩ := by
  decide

/-- After `F0` the overlong forms are shut out, and after `F4` what is above U+10FFFF. -/
theorem lead_four : ∀ n < 5, lead (UInt8.ofNat (n + 0xF0)) =
    .begins ⟨3, if n = 0 then 0x90 else 0x80, if n = 4 then 0x8F else 0xBF, n⟩ := by
  decide

/-! ### Tails -/

theorem toNat_tail (n : Nat) : (tail n).toNat = n % 64 + 0x80 := by
  rw [tail, UInt8.toNat_ofNat']
  omega

theorem accepts_tail (p : Pending) (n : Nat) :
    p.accepts (tail n) = true ↔ p.lo.toNat ≤ n % 64 + 0x80 ∧ n % 64 + 0x80 ≤ p.hi.toNat := by
  rw [Pending.accepts, Bool.and_eq_true, decide_eq_true_eq, decide_eq_true_eq,
    UInt8.le_iff_toNat_le, UInt8.le_iff_toNat_le, toNat_tail]

theorem accepts_tail_of_full (owed bits n : Nat) :
    Pending.accepts ⟨owed, 0x80, 0xBF, bits⟩ (tail n) = true := by
  rw [accepts_tail]
  show 0x80 ≤ _ ∧ _ ≤ 0xBF
  omega

theorem bitsWith_tail (p : Pending) (n : Nat) : p.bitsWith (tail n) = 64 * p.bits + n % 64 := by
  have h := toNat_tail n
  unfold Pending.bitsWith
  omega

theorem decodeFrom_lead {b : UInt8} {p : Pending} (h : lead b = .begins p) (bs : Bytes) :
    decodeFrom none (b :: bs) = decodeFrom (some p) bs := by
  rw [decodeFrom, h]

theorem decodeFrom_tail {owed bits n : Nat} {lo hi : UInt8} (bs : Bytes)
    (h : Pending.accepts ⟨owed + 2, lo, hi, bits⟩ (tail n) = true) :
    decodeFrom (some ⟨owed + 2, lo, hi, bits⟩) (tail n :: bs) =
      decodeFrom (some ⟨owed + 1, 0x80, 0xBF, 64 * bits + n % 64⟩) bs := by
  rw [decodeFrom, if_pos h, if_neg (by simp), bitsWith_tail]
  rfl

theorem decodeFrom_last {bits n : Nat} (bs : Bytes) :
    decodeFrom (some ⟨1, 0x80, 0xBF, bits⟩) (tail n :: bs) =
      Char.ofNat (64 * bits + n % 64) :: decodeFrom none bs := by
  rw [decodeFrom, if_pos (accepts_tail_of_full _ _ _), if_pos (Nat.le_refl 1), bitsWith_tail]

/-! ### Characters -/

theorem decodeFrom_two {v : Nat} (hlo : 0x80 ≤ v) (hhi : v < 0x800) (bs : Bytes) :
    decodeFrom none (UInt8.ofNat (v / 64 % 32 + 0xC0) :: tail v :: bs) =
      Char.ofNat v :: decodeFrom none bs := by
  have hbits : 64 * (v / 64 % 32) + v % 64 = v := by omega
  rw [decodeFrom_lead (lead_two _ (by omega) (by omega)),
    decodeFrom_last, hbits]

theorem decodeFrom_three {v : Nat} (hlo : 0x800 ≤ v) (hhi : v < 0x10000)
    (hs : v < 0xD800 ∨ 0xDFFF < v) (bs : Bytes) :
    decodeFrom none (UInt8.ofNat (v / 4096 % 16 + 0xE0) :: tail (v / 64) :: tail v :: bs) =
      Char.ofNat v :: decodeFrom none bs := by
  have hbits : 64 * (64 * (v / 4096 % 16) + v / 64 % 64) + v % 64 = v := by omega
  have hsecond : Pending.accepts ⟨2, if v / 4096 % 16 = 0 then 0xA0 else 0x80,
      if v / 4096 % 16 = 0xD then 0x9F else 0xBF, v / 4096 % 16⟩ (tail (v / 64)) = true := by
    rw [accepts_tail, apply_ite UInt8.toNat, apply_ite UInt8.toNat]
    show (if _ then 0xA0 else 0x80) ≤ _ ∧ _ ≤ (if _ then 0x9F else 0xBF)
    constructor <;> split <;> omega
  rw [decodeFrom_lead (lead_three _ (by omega)), decodeFrom_tail _ hsecond,
    decodeFrom_last, hbits]

theorem decodeFrom_four {v : Nat} (hlo : 0x10000 ≤ v) (hhi : v < 0x110000) (bs : Bytes) :
    decodeFrom none
        (UInt8.ofNat (v / 262144 % 8 + 0xF0) :: tail (v / 4096) :: tail (v / 64) :: tail v :: bs) =
      Char.ofNat v :: decodeFrom none bs := by
  have hbits :
      64 * (64 * (64 * (v / 262144 % 8) + v / 4096 % 64) + v / 64 % 64) + v % 64 = v := by omega
  have hsecond : Pending.accepts ⟨3, if v / 262144 % 8 = 0 then 0x90 else 0x80,
      if v / 262144 % 8 = 4 then 0x8F else 0xBF, v / 262144 % 8⟩ (tail (v / 4096)) = true := by
    rw [accepts_tail, apply_ite UInt8.toNat, apply_ite UInt8.toNat]
    show (if _ then 0x90 else 0x80) ≤ _ ∧ _ ≤ (if _ then 0x8F else 0xBF)
    constructor <;> split <;> omega
  rw [decodeFrom_lead (lead_four _ (by omega)), decodeFrom_tail _ hsecond,
    decodeFrom_tail _ (accepts_tail_of_full _ _ _),
    decodeFrom_last, hbits]

/-- **A character that is written is read back**, whatever follows it. -/
theorem decodeFrom_utf8EncodeChar (c : Char) (bs : Bytes) :
    decodeFrom none (String.utf8EncodeChar c ++ bs) = c :: decodeFrom none bs := by
  have hc : Char.ofNat c.val.toNat = c := Char.ofNat_toNat c
  have hvalid : c.val.toNat < 0xD800 ∨ 0xDFFF < c.val.toNat ∧ c.val.toNat < 0x110000 := c.valid
  conv => rhs; rw [← hc]
  unfold String.utf8EncodeChar
  generalize c.val.toNat = v at hvalid
  dsimp only
  split
  · rw [List.singleton_append, decodeFrom, lead_ascii v (by omega)]
  · split
    · exact decodeFrom_two (by omega) (by omega) bs
    · split
      · exact decodeFrom_three (by omega) (by omega) (by omega) bs
      · exact decodeFrom_four (by omega) (by omega) bs

/-! ### Texts -/

theorem decodeFrom_flatMap (cs : List Char) (bs : Bytes) :
    decodeFrom none (cs.flatMap String.utf8EncodeChar ++ bs) = cs ++ decodeFrom none bs := by
  induction cs with
  | nil => rfl
  | cons c cs ih =>
    rw [List.flatMap_cons, List.append_assoc, decodeFrom_utf8EncodeChar, ih, List.cons_append]

/-- **The repair leaves written text alone.** -/
@[simp] theorem decodeLossy_encode (s : String) : decodeLossy (encode s) = s := by
  have h := decodeFrom_flatMap s.toList []
  rw [List.append_nil] at h
  rw [decodeLossy, encode, h, decodeFrom, List.append_nil, String.ofList_toList]

end Corelink.Utf8
