/-!
# Bytes

A string of bytes is a list, so that what was read and what is left are
plain list facts. Words are written most significant byte first:
`BigEndian.ofNat k n` has exactly `k` bytes, and `BigEndian.toNat` reads them
back modulo `256 ^ k` (`toNat_ofNat`); in the other direction nothing is lost
(`ofNat_toNat`).
-/

namespace Corelink

/-- A string of bytes. -/
abbrev Bytes := List UInt8

/-- Whether `bs` has fewer than `n` bytes, looking at no more than `n` of them. -/
def Bytes.shorterThan : Bytes → Nat → Bool
  | _, 0 => false
  | [], _ + 1 => true
  | _ :: bs, n + 1 => Bytes.shorterThan bs n

@[simp] theorem Bytes.shorterThan_iff (bs : Bytes) (n : Nat) :
    bs.shorterThan n = true ↔ bs.length < n := by
  induction n generalizing bs with
  | zero => cases bs <;> simp [Bytes.shorterThan]
  | succ n ih => cases bs <;> simp [Bytes.shorterThan, ih]

theorem Bytes.shorterThan_false_iff {b : Bytes} {n : Nat} :
    b.shorterThan n = false ↔ n ≤ b.length := by
  rw [← Bool.not_eq_true, Bytes.shorterThan_iff]
  omega

/-- What is long enough stays so when more bytes come. -/
theorem Bytes.shorterThan_append {b : Bytes} {n : Nat} (t : Bytes) (h : b.shorterThan n = false) :
    Bytes.shorterThan (b ++ t) n = false := by
  rw [Bytes.shorterThan_false_iff] at h ⊢
  rw [List.length_append]
  omega

namespace BigEndian

/-- The number that `bs` spells, most significant byte first. -/
def toNat (bs : Bytes) : Nat :=
  bs.foldl (fun n b => 256 * n + b.toNat) 0

/-- The low `k` bytes of `n`, most significant byte first. -/
def ofNat : Nat → Nat → Bytes
  | 0, _ => []
  | k + 1, n => ofNat k (n / 256) ++ [UInt8.ofNat n]

@[simp] theorem toNat_nil : toNat [] = 0 := rfl

@[simp] theorem toNat_concat (bs : Bytes) (b : UInt8) :
    toNat (bs ++ [b]) = 256 * toNat bs + b.toNat := by
  simp [toNat]

@[simp] theorem length_ofNat (k n : Nat) : (ofNat k n).length = k := by
  induction k generalizing n with
  | zero => rfl
  | succ k ih => simp [ofNat, ih]

theorem toNat_ofNat (k n : Nat) : toNat (ofNat k n) = n % Nat.pow 256 k := by
  induction k generalizing n with
  | zero => exact (Nat.mod_one n).symm
  | succ k ih =>
    have h : n % (256 * Nat.pow 256 k) = n % 256 + 256 * (n / 256 % Nat.pow 256 k) := Nat.mod_mul
    have hk : Nat.pow 256 (k + 1) = 256 * Nat.pow 256 k := Nat.mul_comm _ _
    rw [ofNat, toNat_concat, ih, UInt8.toNat_ofNat', hk, h]
    omega

theorem ofNat_toNat (bs : Bytes) : ofNat bs.length (toNat bs) = bs := by
  generalize hk : bs.length = k
  induction k generalizing bs with
  | zero => simp [ofNat, List.length_eq_zero_iff.1 hk]
  | succ k ih =>
    have hne : bs ≠ [] := by
      rintro rfl
      simp at hk
    rw [← List.dropLast_concat_getLast hne]
    have hl : bs.dropLast.length = k := by simp [hk]
    have hb := (bs.getLast hne).toNat_lt
    have hd : (256 * toNat bs.dropLast + (bs.getLast hne).toNat) / 256 = toNat bs.dropLast := by
      omega
    have hm : UInt8.ofNat (256 * toNat bs.dropLast + (bs.getLast hne).toNat)
        = bs.getLast hne := by
      apply UInt8.toNat_inj.1
      rw [UInt8.toNat_ofNat']
      omega
    rw [toNat_concat, ofNat, hd, hm, ih _ hl]

theorem toNat_lt (bs : Bytes) : toNat bs < Nat.pow 256 bs.length := by
  have h := toNat_ofNat bs.length (toNat bs)
  rw [ofNat_toNat] at h
  rw [h]
  exact Nat.mod_lt _ (Nat.pow_pos (by decide))

end BigEndian

end Corelink
