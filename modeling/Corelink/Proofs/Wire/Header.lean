import Corelink.Wire.Header

/-!
# Headers by their places

A header stands at fixed places: the magic in front, the version at 4, the type at 5 and the length
from 6 to 10. `Header.ReadsAs` tells by these places alone what bytes are read as, and decoding
gives just that (`Header.decode_eq_iff`). So bytes that agree in their first ten are read alike
(`Header.decode_congr`), a header that is written is read back (`Header.decode_bytes`), and one
that is read is written again but for its reserved bytes (`Header.ReadsAs.bytes_eq`).
-/

namespace Corelink

theorem Bytes.extract_eq_of_take_eq {b d : Bytes} {i j n : Nat} (hfront : b.take n = d.take n)
    (hj : j ≤ n) : b.extract i j = d.extract i j := by
  have hpart (b : Bytes) : b.extract i j = (b.take n).extract i j := by
    simp only [List.extract_eq_take_drop, List.drop_take, List.take_take]
    congr 1
    omega
  rw [hpart b, hpart d, hfront]

theorem BigEndian.ofNat_toNat_extract {b : Bytes} {i k : Nat} (hlong : i + k ≤ b.length) :
    ofNat k (toNat (b.extract i (i + k))) = b.extract i (i + k) := by
  have hsize : (b.extract i (i + k)).length = k := by
    rw [List.extract_eq_take_drop, List.length_take, List.length_drop]
    omega
  have hpart := ofNat_toNat (b.extract i (i + k))
  rwa [hsize] at hpart

namespace Wire.Header

/-- What bytes are read as, told by the places of the fields. The guards exclude each other: the
size comes first, then the magic, then the version. -/
inductive ReadsAs (b : Bytes) : Except FramingError Header → Prop where
  | short : b.length < headerSize → ReadsAs b (.error (.shortHeader b.length))
  | badMagic : headerSize ≤ b.length → BigEndian.toNat (b.extract 0 4) ≠ magic →
    ReadsAs b (.error (.badMagic (BigEndian.toNat (b.extract 0 4))))
  | badVersion {v : UInt8} : headerSize ≤ b.length → BigEndian.toNat (b.extract 0 4) = magic →
    b[4]? = some v → v ≠ version → ReadsAs b (.error (.badVersion v))
  | header {h : Header} : headerSize ≤ b.length → BigEndian.toNat (b.extract 0 4) = magic →
    b[4]? = some version → b[5]? = some h.type →
    BigEndian.toNat (b.extract 6 10) = h.length.toNat → ReadsAs b (.ok h)

variable {b : Bytes} {r : Except FramingError Header} {h : Header}

/-! ### Reading -/

theorem readsAs_decode (b : Bytes) : ReadsAs b (decode b) := by
  fun_cases decode b with
  | case1 m₀ m₁ m₂ m₃ v c l₀ l₁ l₂ l₃ r₀ r₁ t hmagic =>
    exact .badMagic (Nat.le_add_left _ _) hmagic
  | case2 m₀ m₁ m₂ m₃ v c l₀ l₁ l₂ l₃ r₀ r₁ t hmagic hversion =>
    exact .badVersion (Nat.le_add_left _ _) (Decidable.not_not.1 hmagic) rfl hversion
  | case3 m₀ m₁ m₂ m₃ v c l₀ l₁ l₂ l₃ r₀ r₁ t hmagic hversion =>
    have hlength : BigEndian.toNat [l₀, l₁, l₂, l₃] < Nat.pow 256 4 := BigEndian.toNat_lt _
    exact .header (Nat.le_add_left _ _) (Decidable.not_not.1 hmagic)
      (congrArg some (Decidable.not_not.1 hversion)) rfl (UInt32.toNat_ofNat_of_lt' hlength).symm
  | case4 _ hnone =>
    refine .short (Nat.lt_of_not_le fun hlong => ?_)
    rcases b with _ | ⟨m₀, _ | ⟨m₁, _ | ⟨m₂, _ | ⟨m₃, _ | ⟨v, _ | ⟨c, _ | ⟨l₀, _ | ⟨l₁, _ | ⟨l₂, _ |
      ⟨l₃, _ | ⟨r₀, _ | ⟨r₁, t⟩⟩⟩⟩⟩⟩⟩⟩⟩⟩⟩⟩
    case cons => exact hnone _ _ _ _ _ _ _ _ _ _ _ _ _ rfl
    all_goals simp [headerSize] at hlong

theorem ReadsAs.unique {r' : Except FramingError Header} (hr : ReadsAs b r) (hr' : ReadsAs b r') :
    r = r' := by
  cases hr with
  | short hshort =>
    cases hr' with
    | short => rfl
    | badMagic hlong | badVersion hlong | header hlong => exact absurd hlong (Nat.not_le.2 hshort)
  | badMagic hlong hmagic =>
    cases hr' with
    | short hshort => exact absurd hlong (Nat.not_le.2 hshort)
    | badMagic => rfl
    | badVersion _ hgood | header _ hgood => exact absurd hgood hmagic
  | badVersion hlong hgood hv hversion =>
    cases hr' with
    | short hshort => exact absurd hlong (Nat.not_le.2 hshort)
    | badMagic _ hmagic => exact absurd hgood hmagic
    | badVersion _ _ hv' => rw [Option.some.inj (hv.symm.trans hv')]
    | header _ _ hv' => exact absurd (Option.some.inj (hv.symm.trans hv')) hversion
  | @header h hlong hgood hv htype hlength =>
    cases hr' with
    | short hshort => exact absurd hlong (Nat.not_le.2 hshort)
    | badMagic _ hmagic => exact absurd hgood hmagic
    | badVersion _ _ hv' hversion => exact absurd (Option.some.inj (hv'.symm.trans hv)) hversion
    | @header h' _ _ _ htype' hlength' =>
      have hsame : h.length = h'.length := UInt32.toNat_inj.1 (hlength.symm.trans hlength')
      cases h
      cases h'
      cases Option.some.inj (htype.symm.trans htype')
      cases hsame
      rfl

/-- **Decoding tells what stands at the places.** -/
theorem decode_eq_iff : decode b = r ↔ ReadsAs b r := by
  constructor
  · rintro rfl
    exact readsAs_decode b
  · exact (readsAs_decode b).unique

/-- A header is read from twelve bytes or more. -/
theorem le_length_of_decode (hd : decode b = .ok h) : headerSize ≤ b.length := by
  cases decode_eq_iff.1 hd with
  | header hlong => exact hlong

/-- **Only the first ten bytes count**, and whether there are twelve. -/
theorem ReadsAs.congr {d : Bytes} (hr : ReadsAs b r) (hfront : b.take 10 = d.take 10)
    (hsize : min b.length headerSize = min d.length headerSize) : ReadsAs d r := by
  have hpart (i : Nat) {j : Nat} (hj : j ≤ 10) : b.extract i j = d.extract i j :=
    Bytes.extract_eq_of_take_eq hfront hj
  have hbyte {i : Nat} (hi : i < 10) : b[i]? = d[i]? := by
    rw [← List.getElem?_take_of_lt hi, hfront, List.getElem?_take_of_lt hi]
  have hstill : headerSize ≤ b.length → headerSize ≤ d.length := by omega
  cases hr with
  | short hshort =>
    have hsame : b.length = d.length := by omega
    rw [hsame] at hshort ⊢
    exact .short hshort
  | badMagic hlong hmagic =>
    rw [hpart 0 (by decide)] at hmagic ⊢
    exact .badMagic (hstill hlong) hmagic
  | badVersion hlong hmagic hv hversion =>
    rw [hpart 0 (by decide)] at hmagic
    rw [hbyte (by decide)] at hv
    exact .badVersion (hstill hlong) hmagic hv hversion
  | header hlong hmagic hv htype hlength =>
    rw [hpart _ (by decide)] at hmagic hlength
    rw [hbyte (by decide)] at hv htype
    exact .header (hstill hlong) hmagic hv htype hlength

theorem decode_congr {d : Bytes} (hfront : b.take 10 = d.take 10)
    (hsize : min b.length headerSize = min d.length headerSize) : decode b = decode d :=
  decode_eq_iff.2 ((readsAs_decode d).congr hfront.symm hsize.symm)

theorem decode_append (t : Bytes) (hlong : headerSize ≤ b.length) :
    decode (b ++ t) = decode b := by
  have hfront : (b ++ t).take 10 = b.take 10 :=
    List.take_append_of_le_length (Nat.le_trans (by decide) hlong)
  have hsize : min (b ++ t).length headerSize = min b.length headerSize := by
    rw [List.length_append]
    omega
  exact decode_congr hfront hsize

/-! ### Reading and writing -/

theorem readsAs_bytes (h : Header) (rest : Bytes) : ReadsAs (h.bytes ++ rest) (.ok h) := by
  have hfront : (h.bytes ++ rest).extract 0 4 = BigEndian.ofNat 4 magic := rfl
  have hback : (h.bytes ++ rest).extract 6 10 = BigEndian.ofNat 4 h.length.toNat := rfl
  have hlong : headerSize ≤ (h.bytes ++ rest).length := by
    rw [List.length_append]
    exact Nat.le_add_right _ _
  refine .header hlong ?_ rfl rfl ?_
  · rw [hfront]
    decide
  · rw [hback, BigEndian.toNat_ofNat, Nat.mod_eq_of_lt h.length.toNat_lt]

theorem decode_bytes (h : Header) (rest : Bytes) : decode (h.bytes ++ rest) = .ok h :=
  decode_eq_iff.2 (readsAs_bytes h rest)

theorem decode_encode (t : MessageType) (n : UInt32) (rest : Bytes) :
    decode (encode t n ++ rest) = .ok ⟨t.code, n⟩ :=
  decode_bytes ⟨t.code, n⟩ rest

theorem take_ten {v c : UInt8} (hv : b[4]? = some v) (hc : b[5]? = some c) :
    b.take 10 = b.extract 0 4 ++ [v, c] ++ b.extract 6 10 := by
  obtain ⟨h4, rfl⟩ := List.getElem?_eq_some_iff.1 hv
  obtain ⟨h5, rfl⟩ := List.getElem?_eq_some_iff.1 hc
  have hback : (b.drop 4).take 6 = b[4] :: b[5] :: b.extract 6 10 := by
    rw [List.drop_eq_getElem_cons h4, List.drop_eq_getElem_cons h5]
    rfl
  have hten : b.take (4 + 6) = b.take 4 ++ (b.drop 4).take 6 := List.take_add
  rw [hten, hback, List.append_assoc]
  rfl

/-- **A header that is read is written again**, but for its reserved bytes. -/
theorem ReadsAs.bytes_eq (hr : ReadsAs b (.ok h)) : h.bytes = b.take 10 ++ [0, 0] := by
  cases hr with
  | header hlong hmagic hv htype hlength =>
    have hfront : BigEndian.ofNat 4 magic = b.extract 0 4 := by
      rw [← hmagic]
      exact BigEndian.ofNat_toNat_extract (i := 0) (Nat.le_trans (by decide) hlong)
    have hback : BigEndian.ofNat 4 h.length.toNat = b.extract 6 10 := by
      rw [← hlength]
      exact BigEndian.ofNat_toNat_extract (i := 6) (Nat.le_trans (by decide) hlong)
    rw [bytes, hfront, hback, take_ten hv htype]

/-- **Headers are exact both ways.** Bytes are read by the places of the fields, the first fault
counting, and neither the reserved bytes nor what comes behind the header matter. What is written is
read back, whatever follows it, and what is read of a known type is written again as it stood, with
nothing in the reserved bytes. -/
theorem codec_is_exact :
    (∀ b r, decode b = r ↔ ReadsAs b r) ∧
    (∀ b d : Bytes, b.take 10 = d.take 10 → min b.length headerSize = min d.length headerSize →
      decode b = decode d) ∧
    (∀ (t : MessageType) (n : UInt32) (rest : Bytes),
      decode (encode t n ++ rest) = .ok ⟨t.code, n⟩ ∧ messageType? ⟨t.code, n⟩ = some t) ∧
    ∀ (b : Bytes) (h : Header) (t : MessageType), decode b = .ok h → h.messageType? = some t →
      encode t h.length = b.take 10 ++ [0, 0] := by
  refine ⟨fun b r => decode_eq_iff, fun b d hfront hsize => decode_congr hfront hsize,
    fun t n rest => ?_, fun b h t hd ht => ?_⟩
  · exact ⟨decode_encode t n rest, MessageType.ofCode?_code t⟩
  · have htype : t.code = h.type := MessageType.code_of_ofCode? ht
    rw [encode, htype]
    exact (decode_eq_iff.1 hd).bytes_eq

/-- The header of a pong with something in its reserved bytes, and a byte behind it. -/
theorem reserved_bytes_are_ignored :
    let b : Bytes := [0x46, 0x53, 0x58, 0x31, 1, 3, 0xFF, 2, 3, 4, 0xAB, 0xCD, 7]
    decode b = .ok ⟨3, 0xFF020304⟩ ∧
      decode b = decode [0x46, 0x53, 0x58, 0x31, 1, 3, 0xFF, 2, 3, 4, 0, 0] ∧
      encode .pong 0xFF020304 = [0x46, 0x53, 0x58, 0x31, 1, 3, 0xFF, 2, 3, 4, 0, 0] := by
  intro b
  obtain ⟨hread, hfront, -, hagain⟩ := codec_is_exact
  have hpong : decode b = .ok ⟨3, 0xFF020304⟩ :=
    (hread _ _).2 (.header (by decide) (by decide) rfl rfl (by decide))
  have hplain : decode b = decode (b.take 10 ++ [0, 0]) := hfront _ _ rfl rfl
  exact ⟨hpong, hplain, hagain b ⟨3, 0xFF020304⟩ .pong hpong rfl⟩

end Wire.Header

end Corelink
