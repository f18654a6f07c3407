import Corelink.Proofs.Wire.Header
import Corelink.Wire.Frame

/-!
# Streams cut into feeds

`Parse.run` reads a whole stream in one pass; a `Decoder` sees it in pieces and may stand
in the middle of a frame when the next piece comes. `Decoder.parse` is the one-pass parse
of what is still to come, from the decoder's place on. A look takes nothing away from it
(`parse_append_eq`), so neither does a drain, and after a drain nothing is left to take
(`drain_eq_parse`). Hence feeds may be cut anywhere (`feedAll_fresh`), and whoever looks
less often has only seen fewer of the same frames (`parse_play`).
-/

namespace Corelink.Wire

/-! ### The parse of what is still to come -/

/-- The parse of a stream in front of which these frames stood. -/
def Parse.behind (fs : List Frame) (p : Parse) : Parse :=
  { p with frames := fs ++ p.frames }

@[simp] theorem Parse.behind_nil (p : Parse) : p.behind [] = p := rfl

@[simp] theorem Parse.behind_behind (fs gs : List Frame) (p : Parse) :
    (p.behind gs).behind fs = p.behind (fs ++ gs) := by
  simp [behind]

/-- The parse from the payload of `h` on. -/
def Parse.payload (limit : Nat) (h : Header) (s : Bytes) : Parse :=
  if s.shorterThan h.size then ⟨[], none, some h, s⟩
  else (Parse.run limit (s.drop h.size)).behind [⟨h, s.take h.size⟩]

theorem Parse.run_eq (limit : Nat) (s : Bytes) :
    Parse.run limit s =
      if s.shorterThan headerSize then ⟨[], none, none, s⟩
      else
        match Header.decode s with
        | .error e => ⟨[], some e, none, s⟩
        | .ok h =>
          if h.size > limit then ⟨[], some (.payloadTooLarge h.size limit), none, s⟩
          else Parse.payload limit h (s.drop headerSize) := by
  rw [Parse.run]
  rfl

namespace Decoder

/-- The one-pass parse of a stream, from the place where the decoder stands. -/
def parse (d : Decoder) (s : Bytes) : Parse :=
  match d.pending with
  | some h => Parse.payload d.maxPayload h s
  | none => Parse.run d.maxPayload s

theorem parse_pending {d : Decoder} {h : Header} (hd : d.pending = some h) (s : Bytes) :
    d.parse s = Parse.payload d.maxPayload h s := by
  simp only [parse, hd]

theorem parse_waiting {d : Decoder} (hd : d.pending = none) (s : Bytes) :
    d.parse s = Parse.run d.maxPayload s := by
  simp only [parse, hd]

end Decoder

/-- Whatever decoder a look leaves has this limit. -/
def Look.Keeps (limit : Nat) : Look → Prop
  | .frame _ d _ | .wait d _ => d.maxPayload = limit
  | .fail _ => True

/-- The parse of a stream that begins with `b`, given what a look at `b` gave and the bytes
`t` that come later. -/
def Look.parse (b t : Bytes) : Look → Parse
  | .frame f d rest => (d.parse (rest ++ t)).behind [f]
  | .wait d rest => d.parse (rest ++ t)
  | .fail e => ⟨[], some e, none, b ++ t⟩

namespace Decoder

theorem payload_append_eq (d : Decoder) (h : Header) (b c t : Bytes) :
    Parse.payload d.maxPayload h (b ++ t) = (d.lookPayload h b).parse c t := by
  unfold lookPayload
  cases hb : b.shorterThan h.size with
  | true => rfl
  | false =>
    have hl : h.size ≤ b.length := Bytes.shorterThan_false_iff.1 hb
    simp only [Parse.payload, Bytes.shorterThan_append t hb, Bool.false_eq_true, if_false]
    rw [List.drop_append_of_le_length hl, List.take_append_of_le_length hl]
    rfl

/-- **A look takes nothing away from the parse**: the frame it gives is the next one, and
the parse goes on from where it leaves decoder and buffer. -/
theorem parse_append_eq (d : Decoder) (b t : Bytes) :
    d.parse (b ++ t) = (d.look b).parse b t := by
  unfold look
  cases hd : d.pending with
  | some h =>
    rw [parse_pending hd]
    exact payload_append_eq d h b b t
  | none =>
    rw [parse_waiting hd]
    cases hb : b.shorterThan headerSize with
    | true =>
      simp only [if_true, Look.parse]
      rw [parse_waiting hd]
    | false =>
      have hl : headerSize ≤ b.length := Bytes.shorterThan_false_iff.1 hb
      rw [Parse.run_eq, Bytes.shorterThan_append t hb, Header.decode_append t hl]
      cases Header.decode b with
      | error e => rfl
      | ok h =>
        simp only [Bool.false_eq_true, if_false]
        split
        · rfl
        · rw [List.drop_append_of_le_length hl]
          exact payload_append_eq d h (b.drop headerSize) b t

theorem parse_of_look_wait {d d' : Decoder} {b rest : Bytes} (h : d.look b = .wait d' rest) :
    d'.parse rest = ⟨[], none, d'.pending, rest⟩ := by
  have short : ∀ {d₀ : Decoder} {h₀ : Header} {b₀ : Bytes},
      d₀.lookPayload h₀ b₀ = .wait d' rest → d'.parse rest = ⟨[], none, d'.pending, rest⟩ := by
    intro d₀ h₀ b₀ hw
    unfold lookPayload at hw
    split at hw
    · rename_i hs
      cases hw
      rw [parse_pending rfl, Parse.payload, if_pos hs]
    · cases hw
  unfold look at h
  split at h
  · exact short h
  · rename_i hd
    split at h
    · rename_i hs
      cases h
      rw [parse_waiting hd, Parse.run_eq, if_pos hs, hd]
    · split at h
      · cases h
      · split at h
        · cases h
        · exact short h

/-- Only a header can be refused. -/
theorem pending_of_look_fail {d : Decoder} {b : Bytes} {e : FramingError}
    (h : d.look b = .fail e) : d.pending = none := by
  cases hd : d.pending with
  | none => rfl
  | some h₀ =>
    simp only [look, hd, lookPayload] at h
    split at h <;> cases h

theorem look_keeps (d : Decoder) (b : Bytes) : (d.look b).Keeps d.maxPayload := by
  have payload : ∀ (h : Header) (b : Bytes), (d.lookPayload h b).Keeps d.maxPayload := by
    intro h b
    unfold lookPayload
    split <;> rfl
  unfold look
  split
  · exact payload _ _
  · split
    · rfl
    · split
      · trivial
      · split
        · trivial
        · exact payload _ _

/-! ### Drains -/

/-- **Draining is parsing**: the frames, the error, the header taken and the bytes left are
those of the one-pass parse from the decoder's place on. -/
theorem drain_eq_parse (d : Decoder) (b : Bytes) :
    d.drain b = ⟨(d.parse b).frames, (d.parse b).error, ⟨d.maxPayload, (d.parse b).pending⟩,
      (d.parse b).rest⟩ := by
  have hp := d.parse_append_eq b []
  rw [List.append_nil] at hp
  have hk := d.look_keeps b
  rw [drain]
  split
  · -- a frame: the rest is drained by a decoder of the same limit
    rename_i f d' rest hl
    rw [hl] at hp hk
    have hd' : d'.maxPayload = d.maxPayload := hk
    simp only [Look.parse, List.append_nil] at hp
    rw [hp, drain_eq_parse d' rest, hd']
    rfl
  · rename_i d' rest hl
    rw [hl] at hp hk
    have hd' : d'.maxPayload = d.maxPayload := hk
    simp only [Look.parse, List.append_nil] at hp
    rw [hp, parse_of_look_wait hl, ← hd']
  · rename_i e hl
    rw [hl] at hp
    simp only [Look.parse, List.append_nil] at hp
    rw [hp, ← pending_of_look_fail hl]
termination_by d.measure b
decreasing_by exact measure_lt_of_look ‹_›

theorem parse_append (d : Decoder) (a b : Bytes) :
    d.parse (a ++ b) =
      (Decoder.parse ⟨d.maxPayload, (d.parse a).pending⟩ ((d.parse a).rest ++ b)).behind
        (d.parse a).frames := by
  have hp := d.parse_append_eq a []
  rw [List.append_nil] at hp
  have hb := d.parse_append_eq a b
  have hk := d.look_keeps a
  cases hl : d.look a with
  | frame f d' rest =>
    rw [hl] at hp hb hk
    have hd' : d'.maxPayload = d.maxPayload := hk
    simp only [Look.parse, List.append_nil] at hp hb
    rw [hb, hp, parse_append d' rest b, hd', Parse.behind_behind]
    rfl
  | wait d' rest =>
    rw [hl] at hp hb hk
    have hd' : d'.maxPayload = d.maxPayload := hk
    simp only [Look.parse, List.append_nil] at hp hb
    rw [hb, hp, parse_of_look_wait hl, ← hd']
    rfl
  | fail e =>
    have hd := pending_of_look_fail hl
    rw [hl] at hp hb
    simp only [Look.parse, List.append_nil] at hp
    rw [hp]
    simp only [Parse.behind_nil]
    rw [← hd]
termination_by d.measure a
decreasing_by exact measure_lt_of_look ‹_›

end Decoder

/-! ### Feeds -/

/-- What a parse comes to for a receiver of this limit: frames, error, and what is kept. -/
def Parse.outcome (limit : Nat) (p : Parse) : List Frame × Option FramingError × Receiver :=
  (p.frames, p.error, ⟨⟨limit, p.pending⟩, p.rest⟩)

namespace Receiver

/-- A receiver that has received nothing. -/
def fresh (limit : Nat) : Receiver :=
  ⟨⟨limit, none⟩, []⟩

/-- The parse of what a receiver holds and of the bytes still to come. -/
def parse (r : Receiver) (s : Bytes) : Parse :=
  r.decoder.parse (r.buffer ++ s)

theorem parse_fresh (limit : Nat) (s : Bytes) : (fresh limit).parse s = Parse.run limit s := rfl

/-- Feeds one after another: all frames, the error of the last feed, and the receiver then. -/
def feedAll : Receiver → List Bytes → List Frame × Option FramingError × Receiver
  | r, [] => ([], none, r)
  | r, [s] => r.feed s
  | r, s :: t :: rest =>
    let fed := r.feed s
    let later := feedAll fed.2.2 (t :: rest)
    (fed.1 ++ later.1, later.2)

theorem feed_eq_parse (r : Receiver) (s : Bytes) :
    r.feed s = (r.parse s).outcome r.decoder.maxPayload := by
  simp only [feed, drain, fill, Decoder.drain_eq_parse]
  rfl

theorem parse_feed (r : Receiver) (s t : Bytes) :
    r.parse (s ++ t) = ((r.feed s).2.2.parse t).behind (r.feed s).1 := by
  rw [feed_eq_parse, parse, ← List.append_assoc, Decoder.parse_append]
  rfl

theorem feedAll_eq_parse (r : Receiver) (s : Bytes) (rest : List Bytes) :
    r.feedAll (s :: rest) = (r.parse (s :: rest).flatten).outcome r.decoder.maxPayload := by
  induction rest generalizing r s with
  | nil =>
    rw [feedAll, feed_eq_parse]
    simp
  | cons t rest ih =>
    have hl : (r.feed s).2.2.decoder.maxPayload = r.decoder.maxPayload := by
      rw [feed_eq_parse]
      rfl
    have hs : (s :: t :: rest).flatten = s ++ (t :: rest).flatten := List.flatten_cons
    rw [feedAll, ih, hl, hs, parse_feed r s]
    rfl

theorem feedAll_fresh (limit : Nat) (feeds : List Bytes) :
    (fresh limit).feedAll feeds = (Parse.run limit feeds.flatten).outcome limit := by
  cases feeds with
  | nil =>
    rw [List.flatten_nil, Parse.run_eq]
    rfl
  | cons s rest =>
    rw [feedAll_eq_parse, parse_fresh]
    rfl

/-! ### Looks at any time -/

/-- What can be done with a receiver. -/
inductive Act where
  | fill (s : Bytes)
  | next
  deriving DecidableEq, Repr

/-- The bytes that come in by these acts. -/
def received : List Act → Bytes
  | [] => []
  | .fill s :: rest => s ++ received rest
  | .next :: rest => received rest

/-- The frames that these acts give, in whatever order bytes and looks come. -/
def play : Receiver → List Act → List Frame × Receiver
  | r, [] => ([], r)
  | r, .fill s :: rest => (r.fill s).play rest
  | r, .next :: rest =>
    let (found, r) := r.next
    let later := r.play rest
    match found with
    | .ok (some f) => (f :: later.1, later.2)
    | _ => later

/-- A look leaves the parse of what comes later as it was, but for the frame it gives. -/
theorem parse_next (r : Receiver) (t : Bytes) :
    r.parse t = (r.next.2.parse t).behind
      (match r.next.1 with | .ok (some f) => [f] | _ => []) := by
  have hp := r.decoder.parse_append_eq r.buffer t
  unfold next
  cases hl : r.decoder.look r.buffer with
  | frame f d rest => rw [parse, hp, hl]; rfl
  | wait d rest => rw [parse, hp, hl]; rfl
  | fail e => rfl

/-- **Frames given by any acts are the first ones of the parse**, and the parse of what the
receiver then holds gives the others. -/
theorem parse_play (r : Receiver) (acts : List Act) (later : Bytes) :
    r.parse (received acts ++ later) = ((r.play acts).2.parse later).behind (r.play acts).1 := by
  induction acts generalizing r with
  | nil => rfl
  | cons a rest ih =>
    cases a with
    | fill s =>
      rw [play, ← ih]
      simp only [parse, received, fill, List.append_assoc]
    | next =>
      rw [received, parse_next, ih, Parse.behind_behind, play]
      split <;> rename_i hn <;> simp [hn]

/-- **Decoding does not depend on how the bytes arrive.** Cut anywhere and drained after each
feed, a stream gives frames, error, buffer and pending length of its one-pass parse; looked
at in any other rhythm, it gives the first of these frames. -/
theorem decoding_independent_of_arrival (limit : Nat) :
    (∀ feeds : List Bytes,
      let p := Parse.run limit feeds.flatten
      let r := (fresh limit).feedAll feeds
      r.1 = p.frames ∧ r.2.1 = p.error ∧ r.2.2.buffer = p.rest ∧
        r.2.2.decoder.pendingPayload = p.pending.map Header.size) ∧
    ∀ (acts : List Act) (later : Bytes),
      ((fresh limit).play acts).1 <+: (Parse.run limit (received acts ++ later)).frames := by
  constructor
  · intro feeds
    rw [feedAll_fresh]
    exact ⟨rfl, rfl, rfl, rfl⟩
  · intro acts later
    rw [← parse_fresh, parse_play]
    exact ⟨_, rfl⟩

end Receiver

end Corelink.Wire
