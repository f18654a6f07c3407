import Corelink.Proofs.Wire.Field
import Corelink.Proofs.Wire.Stream
import Mathlib.Data.List.Forall2

/-!
# Frames read back

What is written as a frame is parsed as that frame, and nothing of what comes behind it is
touched (`Parse.run_sent`). A frame that is cut off is told from a clean end: before its
header is whole, the bytes stay where they are; from then on the header says how many payload
bytes are owed (`Parse.run_cut`). So a stream of frames that ends anywhere is read back as far
as it goes (`stream_read_back`).
-/

namespace Corelink.Wire

/-! ### Whole frames -/

/-- The bytes of a frame: a header that announces the payload, whatever its type and its reserved
bytes, and the payload. -/
structure Frame.IsSentAs (f : Frame) (bs : Bytes) : Prop where
  header : Header.decode bs = .ok f.header
  payload : bs.drop headerSize = f.payload
  size : f.payload.length = f.header.size

namespace Frame.IsSentAs

variable {f g : Frame} {bs : Bytes}

theorem le_length (h : f.IsSentAs bs) : headerSize ≤ bs.length :=
  Header.le_length_of_decode h.header

theorem length_eq (h : f.IsSentAs bs) : bs.length = headerSize + f.header.size := by
  have hdrop := congrArg List.length h.payload
  have hlong := h.le_length
  rw [List.length_drop, h.size] at hdrop
  omega

theorem decode_append (h : f.IsSentAs bs) (rest : Bytes) :
    Header.decode (bs ++ rest) = .ok f.header := by
  rw [Header.decode_append rest h.le_length, h.header]

theorem eq_of_append {cs r q : Bytes} (h : f.IsSentAs bs) (h' : g.IsSentAs cs)
    (he : bs ++ r = cs ++ q) : f = g ∧ bs = cs ∧ r = q := by
  have hheader : f.header = g.header := by
    have hd := h.decode_append r
    rw [he, h'.decode_append q] at hd
    exact (Except.ok.inj hd).symm
  have hlength : bs.length = cs.length := by rw [h.length_eq, h'.length_eq, hheader]
  obtain ⟨rfl, rfl⟩ := List.append_inj he hlength
  refine ⟨?_, rfl, rfl⟩
  cases f
  cases g
  cases hheader
  cases h.payload
  cases h'.payload
  rfl

end Frame.IsSentAs

namespace Parse

variable {limit : Nat} {f : Frame} {bs : Bytes}

theorem run_of_decode {s : Bytes} {h : Header} (hd : Header.decode s = .ok h)
    (hl : h.size ≤ limit) : Parse.run limit s = Parse.payload limit h (s.drop headerSize) := by
  have hlong : Bytes.shorterThan s headerSize = false :=
    Bytes.shorterThan_false_iff.2 (Header.le_length_of_decode hd)
  rw [Parse.run_eq, hlong, if_neg Bool.false_ne_true, hd]
  show (if h.size > limit then _ else _) = _
  rw [if_neg (Nat.not_lt.2 hl)]

/-- **A frame that is sent is the next one to be parsed.** -/
theorem run_sent (h : f.IsSentAs bs) (hl : f.header.size ≤ limit) (rest : Bytes) :
    Parse.run limit (bs ++ rest) = (Parse.run limit rest).behind [f] := by
  have hbody : (bs ++ rest).drop headerSize = f.payload ++ rest := by
    rw [List.drop_append_of_le_length h.le_length, h.payload]
  have hlong : Bytes.shorterThan (f.payload ++ rest) f.header.size = false := by
    rw [Bytes.shorterThan_false_iff, List.length_append, h.size]
    omega
  rw [run_of_decode (h.decode_append rest) hl, hbody, Parse.payload, hlong,
    if_neg Bool.false_ne_true, List.drop_left' h.size, List.take_left' h.size]

theorem run_sentAll {sent : List Frame} {written : List Bytes}
    (h : List.Forall₂ Frame.IsSentAs sent written) (hl : ∀ f ∈ sent, f.header.size ≤ limit)
    (rest : Bytes) :
    Parse.run limit (written.flatten ++ rest) = (Parse.run limit rest).behind sent := by
  induction h with
  | nil => rfl
  | @cons f bs sent written hf _ ih =>
    rw [List.forall_mem_cons] at hl
    rw [List.flatten_cons, List.append_assoc, run_sent hf hl.1, ih hl.2, Parse.behind_behind]
    rfl

/-! ### Frames cut off -/

theorem run_cut {cut : Bytes} (h : f.IsSentAs bs) (hl : f.header.size ≤ limit) (hcut : cut <+: bs)
    (hne : cut ≠ bs) :
    Parse.run limit cut =
      if cut.length < headerSize then ⟨[], none, none, cut⟩
      else ⟨[], none, some f.header, cut.drop headerSize⟩ := by
  obtain ⟨rest, rfl⟩ := hcut
  split
  · next hshort => rw [Parse.run_eq, if_pos ((Bytes.shorterThan_iff _ _).2 hshort)]
  · next hlong =>
    -- the header is whole, so what is cut off is the payload
    have hd : Header.decode cut = .ok f.header := by
      rw [← h.header, Header.decode_append rest (Nat.not_lt.1 hlong)]
    have hrest : 0 < rest.length := by
      rw [List.length_pos_iff]
      rintro rfl
      exact hne (List.append_nil cut).symm
    have hshort : (cut.drop headerSize).length < f.header.size := by
      have hlength := h.length_eq
      rw [List.length_append] at hlength
      rw [List.length_drop]
      omega
    rw [run_of_decode hd hl, Parse.payload, if_pos ((Bytes.shorterThan_iff _ _).2 hshort)]

/-- **A stream of frames that ends anywhere** is parsed as the frames that are whole, and what is
left is what there is of the next one. -/
theorem run_prefix {sent : List Frame} {written : List Bytes} {s : Bytes}
    (h : List.Forall₂ Frame.IsSentAs sent written) (hl : ∀ f ∈ sent, f.header.size ≤ limit)
    (hs : s <+: written.flatten) :
    ∃ k cut, s = (written.take k).flatten ++ cut ∧
      (cut = [] ∨ ∃ f whole, sent[k]? = some f ∧ written[k]? = some whole ∧ cut <+: whole ∧
        cut ≠ whole) ∧
      Parse.run limit s = ⟨sent.take k, none,
        if cut.length < headerSize then none else sent[k]?.map Frame.header,
        if cut.length < headerSize then cut else cut.drop headerSize⟩ := by
  induction h generalizing s with
  | nil =>
    rw [List.flatten_nil, List.prefix_nil] at hs
    subst hs
    refine ⟨0, [], rfl, .inl rfl, ?_⟩
    rw [Parse.run_eq]
    rfl
  | @cons f bs sent written hf _ ih =>
    rw [List.forall_mem_cons] at hl
    rw [List.flatten_cons] at hs
    by_cases hshort : s.length < bs.length
    · have hcut : s <+: bs :=
        List.prefix_of_prefix_length_le hs (List.prefix_append _ _) (Nat.le_of_lt hshort)
      have hne : s ≠ bs := by
        rintro rfl
        exact Nat.lt_irrefl _ hshort
      refine ⟨0, s, rfl, .inr ⟨f, bs, rfl, rfl, hcut, hne⟩, ?_⟩
      rw [run_cut hf hl.1 hcut hne]
      split <;> rfl
    · obtain ⟨s, rfl⟩ :=
        List.prefix_of_prefix_length_le (List.prefix_append _ _) hs (Nat.not_lt.1 hshort)
      rw [List.prefix_append_right_inj] at hs
      obtain ⟨k, cut, rfl, hcut, hrun⟩ := ih hl.2 hs
      refine ⟨k + 1, cut, ?_, hcut, ?_⟩
      · rw [List.take_succ_cons, List.flatten_cons, List.append_assoc]
      · rw [run_sent hf hl.1, hrun]
        rfl

end Parse

/-! ### Frames of messages -/

/-- The frame that a message is sent in. -/
def Frame.ofMessage (t : MessageType) (payload : Bytes) : Frame :=
  ⟨⟨t.code, UInt32.ofNat payload.length⟩, payload⟩

namespace Frame

variable {t : MessageType} {payload bs : Bytes}

theorem encode_eq_ok_iff : Frame.encode t payload = .ok bs ↔
    payload.length < UInt32.size ∧
      bs = Header.encode t (UInt32.ofNat payload.length) ++ payload := by
  unfold Frame.encode
  split
  · rename_i h
    exact ⟨fun hb => ⟨h, (Except.ok.inj hb).symm⟩, fun hb => congrArg _ hb.2.symm⟩
  · rename_i h
    exact ⟨nofun, fun hb => absurd hb.1 h⟩

theorem size_ofMessage (h : payload.length < UInt32.size) :
    (Frame.ofMessage t payload).header.size = payload.length :=
  UInt32.toNat_ofNat_of_lt' h

theorem isSentAs_of_encode (h : Frame.encode t payload = .ok bs) :
    (Frame.ofMessage t payload).IsSentAs bs := by
  obtain ⟨hp, rfl⟩ := encode_eq_ok_iff.1 h
  exact ⟨Header.decode_encode _ _ _, List.drop_left' (Header.length_encode _ _),
    (size_ofMessage hp).symm⟩

theorem size_of_encode (h : Frame.encode t payload = .ok bs) :
    (Frame.ofMessage t payload).header.size = payload.length :=
  size_ofMessage (encode_eq_ok_iff.1 h).1

end Frame

theorem forall₂_isSentAs {sent : List (MessageType × Bytes)} {written : List Bytes}
    (h : sent.mapM (fun m => Frame.encode m.1 m.2) = .ok written) :
    List.Forall₂ Frame.IsSentAs (sent.map fun m => Frame.ofMessage m.1 m.2) written ∧
      ∀ m ∈ sent, (Frame.ofMessage m.1 m.2).header.size = m.2.length := by
  induction sent generalizing written with
  | nil =>
    cases h
    exact ⟨.nil, by simp⟩
  | cons m sent ih =>
    rw [List.mapM_cons] at h
    obtain ⟨bs, hbs, h⟩ := bind_eq_ok_iff.1 h
    obtain ⟨more, hmore, h⟩ := bind_eq_ok_iff.1 h
    cases h
    obtain ⟨hsent, hsize⟩ := ih hmore
    exact ⟨.cons (Frame.isSentAs_of_encode hbs) hsent,
      List.forall_mem_cons.2 ⟨Frame.size_of_encode hbs, hsize⟩⟩

namespace Parse

variable {limit : Nat} {t : MessageType} {payload bs : Bytes}

theorem run_stream {sent : List (MessageType × Bytes)} {written : List Bytes} {cut : Bytes}
    (hsent : sent.mapM (fun m => Frame.encode m.1 m.2) = .ok written)
    (hfit : ∀ m ∈ sent, m.2.length ≤ limit) (h : Frame.encode t payload = .ok bs)
    (hl : payload.length ≤ limit) (hcut : cut <+: bs) (hne : cut ≠ bs) :
    Parse.run limit (written.flatten ++ cut) =
      ⟨sent.map fun m => Frame.ofMessage m.1 m.2, none,
        if cut.length < headerSize then none else some (Frame.ofMessage t payload).header,
        if cut.length < headerSize then cut else cut.drop headerSize⟩ := by
  obtain ⟨hframes, hsize⟩ := forall₂_isSentAs hsent
  have hlast := Frame.isSentAs_of_encode h
  have hlastFit : (Frame.ofMessage t payload).header.size ≤ limit := by
    rw [Frame.size_of_encode h]
    exact hl
  rw [run_sentAll hframes ?_, run_cut hlast hlastFit hcut hne]
  · split <;> simp only [Parse.behind, List.append_nil]
  · rw [List.forall_mem_map]
    intro m hm
    rw [hsize m hm]
    exact hfit m hm

end Parse

/-! ### Refused headers -/

theorem Decoder.error_append {d : Decoder} {a : Bytes} {e : FramingError} (b : Bytes)
    (h : (d.parse a).error = some e) : (d.parse (a ++ b)).error = some e := by
  have ha := d.parse_append_eq a []
  rw [List.append_nil] at ha
  have hab := d.parse_append_eq a b
  cases hl : d.look a with
  | frame f d' rest =>
    rw [hl] at ha hab
    simp only [Look.parse, List.append_nil] at ha hab
    rw [ha] at h
    rw [hab]
    exact error_append b h
  | wait d' rest =>
    rw [hl] at ha
    simp only [Look.parse, List.append_nil] at ha
    rw [ha, parse_of_look_wait hl] at h
    cases h
  | fail e' =>
    rw [hl] at ha hab
    rw [ha] at h
    rw [hab]
    exact h
termination_by d.measure a
decreasing_by exact measure_lt_of_look ‹_›

/-- If nothing is refused in a whole stream, nothing is refused at any feed. -/
theorem Receiver.error_feedAll_take {limit : Nat} {feeds : List Bytes}
    (h : (Parse.run limit feeds.flatten).error = none) (n : Nat) :
    ((fresh limit).feedAll (feeds.take n)).2.1 = none := by
  rw [feedAll_fresh]
  show (Parse.run limit (feeds.take n).flatten).error = none
  rw [← List.take_append_drop n feeds, List.flatten_append] at h
  cases he : (Parse.run limit (feeds.take n).flatten).error with
  | none => rfl
  | some e =>
    have hd := Decoder.error_append (d := ⟨limit, none⟩) (feeds.drop n).flatten he
    exact absurd (hd.symm.trans h) nofun

/-! ### Streams of frames -/

namespace Receiver

/-- **A stream of frames is read back as far as it goes**, wherever it is cut into feeds. Frames
that fit come out whole, in order and once, and no feed fails. What is left tells a clean end from
a frame that is cut off. -/
theorem stream_read_back {limit : Nat} {sent : List (MessageType × Bytes)} {written : List Bytes}
    {last : MessageType × Bytes} {whole cut : Bytes} {feeds : List Bytes}
    (hsent : sent.mapM (fun m => Frame.encode m.1 m.2) = .ok written)
    (hfit : ∀ m ∈ sent, m.2.length ≤ limit)
    (hlast : Frame.encode last.1 last.2 = .ok whole) (hlastFit : last.2.length ≤ limit)
    (hcut : cut <+: whole) (hne : cut ≠ whole) (hfeeds : feeds.flatten = written.flatten ++ cut) :
    let r := (fresh limit).feedAll feeds
    r.1 = sent.map (fun m => Frame.ofMessage m.1 m.2) ∧
    (∀ n, ((fresh limit).feedAll (feeds.take n)).2.1 = none) ∧
    (r.2.2.buffer = [] ∧ r.2.2.decoder.pendingPayload = none ↔ cut = []) ∧
    (cut.length < headerSize → r.2.2.buffer = cut ∧ r.2.2.decoder.pendingPayload = none) ∧
    (headerSize ≤ cut.length → r.2.2.buffer = cut.drop headerSize ∧
      r.2.2.decoder.pendingPayload = some last.2.length) := by
  have hparse := Parse.run_stream hsent hfit hlast hlastFit hcut hne
  rw [← hfeeds] at hparse
  have hsize : (Frame.ofMessage last.1 last.2).header.size = last.2.length :=
    Frame.size_ofMessage (Frame.encode_eq_ok_iff.1 hlast).1
  have herror (n : Nat) : ((fresh limit).feedAll (feeds.take n)).2.1 = none :=
    error_feedAll_take (by rw [hparse]) n
  dsimp only
  rw [feedAll_fresh, hparse]
  by_cases hshort : cut.length < headerSize
  · -- the header is not whole: all that is left stays in the buffer
    rw [if_pos hshort, if_pos hshort]
    exact ⟨rfl, herror, ⟨fun h => h.1, fun h => ⟨h, rfl⟩⟩, fun _ => ⟨rfl, rfl⟩,
      fun hlong => absurd hlong (Nat.not_le.2 hshort)⟩
  · rw [if_neg hshort, if_neg hshort]
    refine ⟨rfl, herror, ⟨fun h => ?_, fun h => ?_⟩, fun h => absurd h hshort,
      fun _ => ⟨rfl, congrArg some hsize⟩⟩
    · cases h.2
    · subst h
      exact absurd (by decide) hshort

/-- An empty frame, one whose payload looks like a header, and one whose payload is cut off; the
feeds are cut inside the headers. -/
theorem cut_stream_read_back :
    let feeds : List Bytes := [[0x46, 0x53, 0x58], [0x31, 1, 2, 0, 0, 0, 0, 0, 0, 0x46],
      [0x53, 0x58, 0x31, 1, 3, 0, 0, 0, 4, 0, 0, 0x46, 0x53, 0x58, 0x31, 0x46, 0x53, 0x58, 0x31, 1, 3],
      [0, 0, 0, 2, 0, 0, 7]]
    let r := (fresh 4).feedAll feeds
    r.1 = [Frame.ofMessage .ping [], Frame.ofMessage .pong [0x46, 0x53, 0x58, 0x31]] ∧
      r.2.2.buffer = [7] ∧ r.2.2.decoder.pendingPayload = some 2 := by
  intro feeds
  have h := @stream_read_back 4 [(.ping, []), (.pong, [0x46, 0x53, 0x58, 0x31])] _
    (.pong, [7, 8]) _ [0x46, 0x53, 0x58, 0x31, 1, 3, 0, 0, 0, 2, 0, 0, 7] feeds
    rfl (by decide) rfl (by decide) ⟨[8], rfl⟩ (by decide) rfl
  exact ⟨h.1, h.2.2.2.2 (by decide)⟩

end Receiver

end Corelink.Wire
