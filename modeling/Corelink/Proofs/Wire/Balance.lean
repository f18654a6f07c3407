import Corelink.Proofs.Wire.Stream

/-!
# Where the bytes are

No byte that a receiver is given is lost or counted twice: it has gone out with a frame, it is part
of the header that has been taken, or it is still in the buffer (`Receiver.held`). What one look does
to this account is `Look.Spends`, and from it comes the account of whatever is done with a receiver
(`Receiver.balance`). As no frame goes out for less than a header, a buffer cannot give more frames
than its bytes pay for, whatever they are (`Receiver.bytes_accounted_for`).
-/

namespace Corelink.Wire

/-! ### Frames and what is held -/

namespace Frame

/-- Bytes of a frame: its header and its payload. -/
def size (f : Frame) : Nat :=
  headerSize + f.payload.length

/-- Bytes of these frames together. -/
def total : List Frame → Nat
  | [] => 0
  | f :: fs => f.size + total fs

/-- The payload is as long as the header announces, and that is not more than is accepted. -/
structure Sound (limit : Nat) (f : Frame) : Prop where
  announced : f.payload.length = f.header.size
  accepted : f.header.size ≤ limit

@[simp] theorem total_nil : total [] = 0 := rfl

@[simp] theorem total_cons (f : Frame) (fs : List Frame) : total (f :: fs) = f.size + total fs :=
  rfl

@[simp] theorem total_append (fs gs : List Frame) : total (fs ++ gs) = total fs + total gs := by
  induction fs with
  | nil => exact (Nat.zero_add _).symm
  | cons f fs ih => rw [List.cons_append, total_cons, total_cons, ih, Nat.add_assoc]

theorem length_le_total (fs : List Frame) : headerSize * fs.length ≤ total fs := by
  induction fs with
  | nil => exact Nat.le_refl 0
  | cons f fs ih =>
    rw [total_cons, List.length_cons, Nat.mul_succ, Nat.add_comm]
    exact Nat.add_le_add (Nat.le_add_right _ _) ih

end Frame

namespace Decoder

/-- Bytes that have come in and not gone out, if `buffer` is behind the decoder. -/
def held (d : Decoder) (buffer : Bytes) : Nat :=
  (if d.pendingPayload.isSome then headerSize else 0) + buffer.length

/-- Bytes that are needed before anything can be taken from the buffer. -/
def wanted (d : Decoder) : Nat :=
  d.pendingPayload.getD headerSize

/-- The header that has been taken, if there is one, is one that is accepted. -/
structure Within (limit : Nat) (d : Decoder) : Prop where
  maxPayload : d.maxPayload = limit
  pending : ∀ h, d.pending = some h → h.size ≤ limit

theorem held_pending {d : Decoder} {h : Header} (hd : d.pending = some h) (buffer : Bytes) :
    d.held buffer = headerSize + buffer.length := by
  simp [held, pendingPayload, hd]

theorem held_waiting {d : Decoder} (hd : d.pending = none) (buffer : Bytes) :
    d.held buffer = buffer.length := by
  simp [held, pendingPayload, hd]

theorem within_waiting (limit : Nat) : Within limit ⟨limit, none⟩ :=
  ⟨rfl, nofun⟩

end Decoder

/-! ### One look -/

/-- What a look does where `held` bytes are: it gives a frame, which takes its own bytes along; or
it finds too few bytes and keeps them all; or it fails. -/
inductive Look.Spends (limit held : Nat) : Look → Prop where
  | frame {f : Frame} {rest : Bytes} : f.Sound limit → held = f.size + rest.length →
    Spends limit held (.frame f ⟨limit, none⟩ rest)
  | wait {d : Decoder} {rest : Bytes} : d.Within limit → rest.length < d.wanted →
    d.held rest = held → Spends limit held (.wait d rest)
  | fail {e : FramingError} : Spends limit held (.fail e)

namespace Decoder

variable {limit : Nat} {d : Decoder} {h : Header}

theorem lookPayload_spends (hd : d.maxPayload = limit) (hh : h.size ≤ limit) (b : Bytes) :
    (d.lookPayload h b).Spends limit (headerSize + b.length) := by
  obtain ⟨m, p⟩ := d
  obtain rfl : m = limit := hd
  unfold lookPayload
  split
  · next hshort =>
    refine .wait ⟨rfl, ?_⟩ ((Bytes.shorterThan_iff _ _).1 hshort) (held_pending rfl b)
    rintro _ ⟨⟩
    exact hh
  · next hlong =>
    rw [Bytes.shorterThan_iff, Nat.not_lt] at hlong
    have hpayload : (b.take h.size).length = h.size := List.length_take_of_le hlong
    refine .frame ⟨hpayload, hh⟩ ?_
    rw [Frame.size, hpayload, List.length_drop]
    omega

/-- **A look loses no byte**, and a header that it takes is one that is accepted. -/
theorem look_spends (hd : d.Within limit) (b : Bytes) :
    (d.look b).Spends limit (d.held b) := by
  unfold look
  split
  · next h hpending =>
    rw [held_pending hpending]
    exact lookPayload_spends hd.maxPayload (hd.pending h hpending) b
  · next hpending =>
    split
    · next hshort =>
      refine .wait hd ?_ rfl
      rw [wanted, pendingPayload, hpending]
      exact (Bytes.shorterThan_iff _ _).1 hshort
    · next hlong =>
      rw [Bytes.shorterThan_iff, Nat.not_lt] at hlong
      split
      · exact .fail
      · next h _ =>
        split
        · exact .fail
        · next hsize =>
          have hfit : h.size ≤ limit := hd.maxPayload ▸ Nat.not_lt.1 hsize
          have hheld : d.held b = headerSize + (b.drop headerSize).length := by
            rw [held_waiting hpending, List.length_drop]
            omega
          rw [hheld]
          exact lookPayload_spends hd.maxPayload hfit _

end Decoder

/-! ### Anything that is done -/

namespace Receiver

variable {limit : Nat} {r r' : Receiver}

/-- Bytes that have come in and not gone out. -/
def held (r : Receiver) : Nat :=
  r.decoder.held r.buffer

/-- What becomes of a receiver with `bytes` more bytes, of which it has given these frames. -/
structure Balanced (limit : Nat) (r : Receiver) (bytes : Nat) (given : List Frame)
    (r' : Receiver) : Prop where
  sound : ∀ f ∈ given, f.Sound limit
  within : r'.decoder.Within limit
  account : r.held + bytes = Frame.total given + r'.held

theorem held_fill (r : Receiver) (s : Bytes) : (r.fill s).held = r.held + s.length := by
  rw [held, held, Decoder.held, Decoder.held, fill, List.length_append, Nat.add_assoc]

/-- The frame that a call gives, if it gives one. -/
def found : Except FramingError (Option Frame) → List Frame
  | .ok (some f) => [f]
  | _ => []

theorem next_balance (hr : r.decoder.Within limit) :
    Balanced limit r 0 (found r.next.1) r.next.2 := by
  have hlook := Decoder.look_spends hr r.buffer
  unfold next
  generalize r.decoder.look r.buffer = l at hlook
  cases hlook with
  | @frame f rest hf heq =>
    refine ⟨List.forall_mem_singleton.2 hf, Decoder.within_waiting limit, ?_⟩
    show r.decoder.held r.buffer = f.size + 0 + Decoder.held ⟨limit, none⟩ rest
    rw [heq, Decoder.held_waiting rfl, Nat.add_zero]
  | wait hd _ heq =>
    refine ⟨List.forall_mem_nil _, hd, ?_⟩
    show r.decoder.held r.buffer = 0 + Decoder.held _ _
    rw [heq, Nat.zero_add]
  | fail => exact ⟨List.forall_mem_nil _, hr, (Nat.zero_add _).symm⟩

theorem lt_wanted_of_next (hr : r.decoder.Within limit) (h : r.next = (.ok none, r')) :
    r'.buffer.length < r'.decoder.wanted := by
  have hlook := Decoder.look_spends hr r.buffer
  unfold next at h
  generalize r.decoder.look r.buffer = l at hlook h
  cases hlook with
  | frame | fail => cases h
  | wait _ hlt _ =>
    cases h
    exact hlt

theorem play_next (r : Receiver) (acts : List Act) :
    r.play (.next :: acts) =
      (found r.next.1 ++ (r.next.2.play acts).1, (r.next.2.play acts).2) := by
  rw [play]
  rcases r.next with ⟨_ | _ | f, r'⟩ <;> rfl

/-- **The account of whatever is done**: what comes in goes out with the frames or is held. -/
theorem balance (hr : r.decoder.Within limit) (acts : List Act) :
    Balanced limit r (received acts).length (r.play acts).1 (r.play acts).2 := by
  induction acts generalizing r with
  | nil => exact ⟨List.forall_mem_nil _, hr, (Nat.zero_add _).symm⟩
  | cons a acts ih =>
    cases a with
    | fill s =>
      obtain ⟨hsound, hwithin, haccount⟩ := ih (r := r.fill s) hr
      refine ⟨hsound, hwithin, ?_⟩
      rw [held_fill] at haccount
      rw [received, List.length_append, ← Nat.add_assoc]
      exact haccount
    | next =>
      obtain ⟨hfound, hnext, hstep⟩ := next_balance hr
      obtain ⟨hsound, hwithin, haccount⟩ := ih hnext
      rw [play_next]
      refine ⟨fun f hf => (List.mem_append.1 hf).elim (hfound f) (hsound f), hwithin, ?_⟩
      show r.held + (received acts).length = Frame.total (_ ++ _) + (r.next.2.play acts).2.held
      rw [Frame.total_append]
      omega

/-! ### Drains -/

section

variable {r : Receiver} {f : Frame} {d : Decoder} {rest : Bytes} {e : FramingError}

theorem drain_of_frame (h : r.decoder.look r.buffer = .frame f d rest) :
    r.drain = (f :: (drain ⟨d, rest⟩).1, (drain ⟨d, rest⟩).2) := by
  rw [drain, Decoder.drain]
  split <;> simp_all [drain]

theorem drain_of_wait (h : r.decoder.look r.buffer = .wait d rest) :
    r.drain = ([], none, ⟨d, rest⟩) := by
  rw [drain, Decoder.drain]
  split <;> simp_all

theorem drain_of_fail (h : r.decoder.look r.buffer = .fail e) : r.drain = ([], some e, r) := by
  rw [drain, Decoder.drain]
  split <;> simp_all

end

/-- **A drain is so many calls as give a frame, and one more that gives none.** -/
theorem play_drain (r : Receiver) : ∃ r', r.play (List.replicate r.drain.1.length .next) =
    (r.drain.1, r') ∧ (∀ f, r'.next.1 ≠ .ok (some f)) ∧ r'.next.2 = r.drain.2.2 := by
  cases hl : r.decoder.look r.buffer with
  | frame f d rest =>
    have hnext : r.next = (.ok (some f), ⟨d, rest⟩) := by rw [next, hl]
    obtain ⟨r', hplay, hlast⟩ := play_drain ⟨d, rest⟩
    rw [drain_of_frame hl]
    refine ⟨r', ?_, hlast⟩
    rw [List.length_cons, List.replicate_succ, play_next, hnext, hplay]
    rfl
  | wait d rest =>
    have hnext : r.next = (.ok none, ⟨d, rest⟩) := by rw [next, hl]
    rw [drain_of_wait hl]
    refine ⟨r, rfl, fun f hf => ?_, by rw [hnext]⟩
    rw [hnext] at hf
    cases hf
  | fail e =>
    have hnext : r.next = (.error e, r) := by rw [next, hl]
    rw [drain_of_fail hl]
    refine ⟨r, rfl, fun f hf => ?_, by rw [hnext]⟩
    rw [hnext] at hf
    cases hf
termination_by r.decoder.measure r.buffer
decreasing_by exact Decoder.measure_lt_of_look ‹_›

/-- The bytes of a buffer pay for its frames, but for a header that has been taken before. -/
theorem length_drain_le (hr : r.decoder.Within limit) :
    r.drain.1.length ≤ 1 + r.buffer.length / headerSize := by
  obtain ⟨r', hplay, -⟩ := play_drain r
  have haccount := (balance hr (List.replicate r.drain.1.length .next)).account
  have hnone : ∀ n, received (List.replicate n .next) = [] := by
    intro n
    induction n with
    | zero => rfl
    | succ n ih => rw [List.replicate_succ, received, ih]
  have hheld : r.held ≤ headerSize + r.buffer.length := by
    unfold held Decoder.held
    split <;> omega
  have hpaid := Frame.length_le_total r.drain.1
  rw [hplay, hnone, List.length_nil] at haccount
  simp only [headerSize] at *
  omega

/-- **No byte is lost.** Whatever comes in and however often a receiver is asked for a frame, the
bytes that came in are those of the frames it gave, of a header that it has taken, and of its
buffer. Each payload is as long as its header announces, and none is longer than is accepted, nor is
one that is waited for. A call that gives nothing leaves too few bytes for the next thing to be
taken. So to ask until no frame comes ends, after no more frames than the buffer pays for and one. -/
theorem bytes_accounted_for (limit : Nat) (acts : List Act) :
    let given := ((fresh limit).play acts).1
    let r := ((fresh limit).play acts).2
    (received acts).length = Frame.total given +
      (if r.decoder.pendingPayload.isSome then headerSize else 0) + r.buffer.length ∧
    (∀ f ∈ given, f.payload.length = f.header.size ∧ f.header.size ≤ limit) ∧
    (∀ n, r.decoder.pendingPayload = some n → n ≤ limit) ∧
    (∀ r', r.next = (.ok none, r') →
      r'.buffer.length < r'.decoder.pendingPayload.getD headerSize) ∧
    r.drain.1.length ≤ 1 + r.buffer.length / headerSize ∧
    ∃ r', r.play (List.replicate r.drain.1.length .next) = (r.drain.1, r') ∧
      (∀ f, r'.next.1 ≠ .ok (some f)) ∧ r'.next.2 = r.drain.2.2 := by
  intro given r
  have hfresh : (fresh limit).decoder.Within limit := Decoder.within_waiting limit
  obtain ⟨hsound, hwithin, haccount⟩ := balance hfresh acts
  refine ⟨?_, fun f hf => ⟨(hsound f hf).announced, (hsound f hf).accepted⟩, fun n hn => ?_,
    fun r' hr' => lt_wanted_of_next hwithin hr', length_drain_le hwithin, play_drain r⟩
  · have hnone : (fresh limit).held = 0 := rfl
    rw [hnone, Nat.zero_add, held, Decoder.held, ← Nat.add_assoc] at haccount
    exact haccount
  · obtain ⟨h, hpending, rfl⟩ := Option.map_eq_some_iff.1 hn
    exact hwithin.pending h hpending

/-- An empty ping, and a pong that lacks a byte: its header is held, and the byte that is there. -/
theorem cut_pong_is_held :
    let acts : List Act := [.fill [0x46, 0x53, 0x58, 0x31, 1, 2, 0, 0, 0, 0, 0, 0, 0x46, 0x53,
      0x58, 0x31, 1, 3, 0, 0, 0, 2, 0, 0, 7], .next, .next]
    let r := ((fresh 4).play acts).2
    ((fresh 4).play acts).1 = [⟨⟨2, 0⟩, []⟩] ∧ r.decoder.pendingPayload = some 2 ∧ 2 ≤ 4 ∧
      (received acts).length = headerSize + headerSize + r.buffer.length ∧
      r.next = (.ok none, r) ∧ r.buffer.length < 2 ∧ r.drain.1.length ≤ 1 := by
  intro acts r
  have hgiven : ((fresh 4).play acts).1 = [⟨⟨2, 0⟩, []⟩] := by decide
  have hpending : r.decoder.pendingPayload = some 2 := by decide
  have hnext : r.next = (.ok none, r) := rfl
  have hbuffer : r.buffer.length / headerSize = 0 := by decide
  obtain ⟨haccount, -, hfit, hwait, hdrain, -⟩ := bytes_accounted_for 4 acts
  rw [hgiven] at haccount
  rw [hbuffer] at hdrain
  exact ⟨hgiven, hpending, hfit 2 hpending, haccount, hnext, hwait r hnext, hdrain⟩

end Receiver

end Corelink.Wire
