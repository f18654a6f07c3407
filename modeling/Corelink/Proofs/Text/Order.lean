import Corelink.Proofs.Text.Utf8
import Mathlib.Data.String.Basic

/-!
# The order of texts

Texts are ordered by code points, and their written forms byte by byte. The two orders are one
(`encode_lt_iff`): a character takes more bytes than a smaller one and begins with a greater
byte, or takes as many, and then its bits are the digits of its code point, the high ones first.
-/

namespace Corelink.Utf8

/-! ### Characters -/

/-- The bytes `bs` are how the code point `v` is written: all its bits in one byte, or the high
ones in a first byte that says how many tails follow. -/
inductive Spells : Nat → Bytes → Prop where
  | one {v : Nat} : v < 0x80 → Spells v [UInt8.ofNat v]
  | two {v : Nat} : 0x80 ≤ v → v < 0x800 → Spells v [UInt8.ofNat (v / 64 + 0xC0), tail v]
  | three {v : Nat} : 0x800 ≤ v → v < 0x10000 →
    Spells v [UInt8.ofNat (v / 4096 + 0xE0), tail (v / 64), tail v]
  | four {v : Nat} : 0x10000 ≤ v → v < 0x110000 →
    Spells v [UInt8.ofNat (v / 262144 + 0xF0), tail (v / 4096), tail (v / 64), tail v]

theorem spells_utf8EncodeChar (c : Char) : Spells c.val.toNat (String.utf8EncodeChar c) := by
  have hvalid : c.val.toNat < 0xD800 ∨ 0xDFFF < c.val.toNat ∧ c.val.toNat < 0x110000 := c.valid
  unfold String.utf8EncodeChar
  generalize c.val.toNat = v at hvalid
  dsimp only
  split
  · exact .one (by omega)
  · split
    · rw [Nat.mod_eq_of_lt (show v / 64 < 32 by omega)]
      exact .two (by omega) (by omega)
    · split
      · rw [Nat.mod_eq_of_lt (show v / 4096 < 16 by omega)]
        exact .three (by omega) (by omega)
      · rw [Nat.mod_eq_of_lt (show v / 262144 < 8 by omega)]
        exact .four (by omega) (by omega)

theorem ofNat_cons_lt_iff {m n : Nat} {x y : Bytes} (hm : m < 256) (hn : n < 256) :
    UInt8.ofNat m :: x < UInt8.ofNat n :: y ↔ m < n ∨ m = n ∧ x < y := by
  rw [List.cons_lt_cons_iff, UInt8.lt_iff_toNat_lt, ← UInt8.toNat_inj, UInt8.toNat_ofNat',
    UInt8.toNat_ofNat', Nat.mod_eq_of_lt hm, Nat.mod_eq_of_lt hn]

theorem tail_cons_lt_iff {m n : Nat} {x y : Bytes} :
    tail m :: x < tail n :: y ↔ m % 64 < n % 64 ∨ m % 64 = n % 64 ∧ x < y := by
  rw [tail, tail, ofNat_cons_lt_iff (by omega) (by omega), Nat.add_lt_add_iff_right,
    Nat.add_right_cancel_iff]

/-- The smaller code point is written with the smaller bytes, whatever follows them. -/
theorem Spells.append_lt {v w : Nat} {bs cs : Bytes} (hv : Spells v bs) (hw : Spells w cs)
    (h : v < w) (x y : Bytes) : bs ++ x < cs ++ y := by
  -- with fewer bytes the first one decides; with more of them `v` would not be smaller
  cases hv <;> cases hw <;>
    simp (disch := omega) only [List.cons_append, List.nil_append, ofNat_cons_lt_iff,
      tail_cons_lt_iff] <;>
    omega

theorem Spells.nil_lt {v : Nat} {bs : Bytes} (h : Spells v bs) (x : Bytes) : [] < bs ++ x := by
  cases h <;> exact List.nil_lt_cons _ _

/-! ### Texts -/

theorem flatMap_utf8EncodeChar_lt {cs ds : List Char} (h : cs < ds) :
    cs.flatMap String.utf8EncodeChar < ds.flatMap String.utf8EncodeChar := by
  induction h with
  | nil =>
    rw [List.flatMap_nil, List.flatMap_cons]
    exact (spells_utf8EncodeChar _).nil_lt _
  | rel hcd =>
    rw [List.flatMap_cons, List.flatMap_cons]
    exact (spells_utf8EncodeChar _).append_lt (spells_utf8EncodeChar _) hcd _ _
  | cons _ ih =>
    rw [List.flatMap_cons, List.flatMap_cons]
    exact List.append_left_lt ih

/-- **The order of texts is the order of their bytes.** -/
theorem encode_lt_iff {s t : String} : encode s < encode t ↔ s < t := by
  have mono {s t : String} (h : s < t) : encode s < encode t :=
    flatMap_utf8EncodeChar_lt (String.lt_iff_toList_lt.1 h)
  refine ⟨fun h => ?_, mono⟩
  rcases lt_trichotomy s t with hst | rfl | hts
  · exact hst
  · exact absurd h (List.lt_irrefl _)
  · exact absurd (mono hts) (List.lt_asymm h)

end Corelink.Utf8
