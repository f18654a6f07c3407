import Corelink.Proofs.Wire.Framing

/-!
# The first frame of a stream

Who waits for an answer wants the first thing that a parse finds, a frame or a header that it
refuses (`Parse.first?`). How a parse begins is one of four ways (`Parse.Begins`), and the bytes in
front decide which: what has been found stays found (`first?_append`), a refused header shows with
its twelve bytes (`first?_take_header`), and a frame with its last byte (`first?_take_frame`). As
long as nothing is found, a receiver has taken at most a header from the stream, and a look at what
comes next is a look at the whole stream (`look_resume`).
-/

namespace Corelink.Wire

namespace Parse

/-- The first thing that a parse finds, a frame or a header that is refused. -/
def first? (p : Parse) : Option (Except FramingError Frame) :=
  match p.frames, p.error with
  | f :: _, _ => some (.ok f)
  | [], some e => some (.error e)
  | [], none => none

/-- The receiver that has taken from a stream what there is to take. -/
def receiver (limit : Nat) (p : Parse) : Receiver :=
  ⟨⟨limit, p.pending⟩, p.rest⟩

/-- How the parse of a stream begins, and often ends. -/
inductive Begins (limit : Nat) (s : Bytes) : Parse → Prop where
  | short : s.length < headerSize → Begins limit s ⟨[], none, none, s⟩
  | refused {e : FramingError} : headerSize ≤ s.length →
    (∀ h, Header.decode s = .ok h → limit < h.size) → Begins limit s ⟨[], some e, none, s⟩
  | cut {h : Header} : Header.decode s = .ok h → h.size ≤ limit →
    (s.drop headerSize).length < h.size → Begins limit s ⟨[], none, some h, s.drop headerSize⟩
  | frame {f : Frame} {bs rest : Bytes} : s = bs ++ rest → f.IsSentAs bs → f.header.size ≤ limit →
    Begins limit s ((Parse.run limit rest).behind [f])

variable {limit : Nat} {s : Bytes} {f : Frame} {e : FramingError}
  {v : Except FramingError Frame}

/-- **There are no other ways.** -/
theorem begins (limit : Nat) (s : Bytes) : Begins limit s (Parse.run limit s) := by
  rw [Parse.run_eq]
  split
  · next hshort => exact .short ((Bytes.shorterThan_iff _ _).1 hshort)
  · next hlong =>
    rw [Bytes.shorterThan_iff, Nat.not_lt] at hlong
    split
    · next e hd =>
      refine .refused hlong fun h hok => ?_
      cases hd.symm.trans hok
    · next h hd =>
      split
      · next hsize =>
        refine .refused hlong fun h' hok => ?_
        cases hd.symm.trans hok
        exact hsize
      · next hsize =>
        have hfit : h.size ≤ limit := Nat.not_lt.1 hsize
        unfold Parse.payload
        split
        · next hshort => exact .cut hd hfit ((Bytes.shorterThan_iff _ _).1 hshort)
        · next hbody =>
          rw [Bytes.shorterThan_iff, Nat.not_lt] at hbody
          have hs : s = s.take (headerSize + h.size) ++ (s.drop headerSize).drop h.size := by
            rw [List.drop_drop, List.take_append_drop]
          have htake : headerSize ≤ (s.take (headerSize + h.size)).length := by
            rw [List.length_take]
            rw [List.length_drop] at hbody
            omega
          refine .frame hs ⟨?_, ?_, List.length_take_of_le hbody⟩ hfit
          · rw [← Header.decode_append _ htake, ← hs, hd]
          · rw [List.drop_take, Nat.add_sub_cancel_left]

theorem look_start (limit : Nat) (s : Bytes) :
    Decoder.look ⟨limit, none⟩ s =
      match (Parse.run limit s).first? with
      | none => .wait ⟨limit, (Parse.run limit s).pending⟩ (Parse.run limit s).rest
      | some (.ok f) => .frame f ⟨limit, none⟩ (s.drop (headerSize + f.header.size))
      | some (.error e) => .fail e := by
  rw [Parse.run_eq]
  unfold Decoder.look
  dsimp only
  split
  · rfl
  · cases Header.decode s with
    | error e => rfl
    | ok h =>
      dsimp only
      split
      · rfl
      · unfold Decoder.lookPayload Parse.payload
        split
        · rfl
        · rw [List.drop_drop]
          rfl

theorem first?_append (h : (Parse.run limit s).first? = some v) (t : Bytes) :
    (Parse.run limit (s ++ t)).first? = some v := by
  have hrun : Parse.run limit (s ++ t) = (Decoder.look ⟨limit, none⟩ s).parse s t :=
    Decoder.parse_append_eq ⟨limit, none⟩ s t
  rw [look_start, h] at hrun
  rw [hrun]
  cases v <;> rfl

theorem first?_of_prefix {head : Bytes} (h : (Parse.run limit head).first? = some v)
    (hhead : head <+: s) : (Parse.run limit s).first? = some v := by
  obtain ⟨t, rfl⟩ := hhead
  exact first?_append h t

/-- A refused header shows with its twelve bytes. -/
theorem first?_take_header (h : (Parse.run limit s).first? = some (.error e)) :
    (Parse.run limit (s.take headerSize)).first? = some (.error e) := by
  cases hv : (Parse.run limit (s.take headerSize)).first? with
  | some v => rw [← h, first?_of_prefix hv (List.take_prefix _ _)]
  | none =>
    have hbegins := begins limit s
    generalize Parse.run limit s = p at h hbegins
    cases hbegins with
    | short | cut | frame => cases h
    | refused hlong hall =>
      have htake : headerSize ≤ (s.take headerSize).length :=
        Nat.le_of_eq (List.length_take_of_le hlong).symm
      have hhead := begins limit (s.take headerSize)
      generalize Parse.run limit (s.take headerSize) = q at hv hhead
      cases hhead with
      | short hshort => exact absurd htake (Nat.not_le.2 hshort)
      | refused | frame => cases hv
      | @cut hdr hd hfit _ =>
        -- the header is read from these bytes, so it is the one that was refused
        refine absurd hfit (Nat.not_le.2 (hall hdr ?_))
        rw [← hd, ← Header.decode_append (s.drop headerSize) htake, List.take_append_drop]

/-- What is found first is there with its last byte. -/
theorem sent_of_first? (h : (Parse.run limit s).first? = some (.ok f)) :
    ∃ bs rest, s = bs ++ rest ∧ f.IsSentAs bs ∧ f.header.size ≤ limit := by
  have hbegins := begins limit s
  generalize Parse.run limit s = p at h hbegins
  cases hbegins with
  | short | refused | cut => cases h
  | @frame g bs rest hs hg hfit =>
    cases h
    exact ⟨bs, rest, hs, hg, hfit⟩

theorem first?_of_sent {bs : Bytes} (h : f.IsSentAs bs) (hl : f.header.size ≤ limit)
    (rest : Bytes) : (Parse.run limit (bs ++ rest)).first? = some (.ok f) := by
  rw [run_sent h hl]
  rfl

theorem first?_take_frame (h : (Parse.run limit s).first? = some (.ok f)) :
    (Parse.run limit (s.take (headerSize + f.header.size))).first? = some (.ok f) := by
  obtain ⟨bs, rest, rfl, hbs, hl⟩ := sent_of_first? h
  have hfound := first?_of_sent hbs hl []
  rwa [List.take_left' hbs.length_eq, ← List.append_nil bs]

/-- As long as nothing is found, a look at what comes next is a look at the whole stream. -/
theorem look_resume (h : (Parse.run limit s).first? = none) (t : Bytes) :
    Decoder.look ⟨limit, (Parse.run limit s).pending⟩ ((Parse.run limit s).rest ++ t) =
      Decoder.look ⟨limit, none⟩ (s ++ t) := by
  have hbegins := begins limit s
  generalize Parse.run limit s = p at h hbegins
  cases hbegins with
  | short => rfl
  | refused | frame => cases h
  | @cut hdr hd hfit _ =>
    have hlong : headerSize ≤ s.length := Header.le_length_of_decode hd
    have hshort : Bytes.shorterThan (s ++ t) headerSize = false :=
      Bytes.shorterThan_append t (Bytes.shorterThan_false_iff.2 hlong)
    unfold Decoder.look
    dsimp only
    rw [hshort, if_neg Bool.false_ne_true, Header.decode_append t hlong, hd,
      List.drop_append_of_le_length hlong]
    dsimp only
    rw [if_neg (Nat.not_lt.2 hfit)]
    rfl

end Parse

end Corelink.Wire
