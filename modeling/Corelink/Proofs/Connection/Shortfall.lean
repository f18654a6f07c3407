import Corelink.Proofs.Connection.Reply
import Corelink.Proofs.Wire.Refusal

/-!
# Streams that end too soon

A stream that ends with no frame refused is whole frames and what there is of the next one
(`EndsShort`). That is what a receiver says is missing which has taken all whole frames before
(`endsShort_of_run`), and no other report is true (`EndsShort.unique`). A wait for a frame looks
before every read, so what it says of the end of the stream is true
(`Wait.endsShort_of_incomplete`).
-/

namespace Corelink

open Wire

/-- What there is of a frame that was cut off, and what is to be said of it. -/
inductive CutOff (limit : Nat) (cut : Bytes) : ProtocolError → Prop where
  | header : cut.length < headerSize →
    CutOff limit cut (.incomplete .header headerSize cut.length)
  | payload {h : Header} : Header.decode cut = .ok h → h.size ≤ limit →
    (cut.drop headerSize).length < h.size →
    CutOff limit cut (.incomplete .payload h.size (cut.drop headerSize).length)

/-- The stream ends in a frame that is cut off, behind whole frames, and this is to be said of
it. -/
def EndsShort (s : Bytes) (e : ProtocolError) : Prop :=
  ∃ sent written cut, List.Forall₂ Frame.IsSentAs sent written ∧
    (∀ f ∈ sent, f.header.size ≤ maxPayloadSize) ∧ s = written.flatten ++ cut ∧
    CutOff maxPayloadSize cut e

variable {limit : Nat} {s cut : Bytes} {e e' : ProtocolError} {part : FramePart} {n k : Nat}

namespace CutOff

theorem lt (h : CutOff limit cut (.incomplete part n k)) : k < n := by
  cases h <;> assumption

theorem of_unfound (h : (Parse.run limit cut).first? = none) :
    CutOff limit cut ((Parse.run limit cut).receiver limit).shortfall := by
  have hbegins := Parse.begins limit cut
  generalize Parse.run limit cut = p at h hbegins
  cases hbegins with
  | short hshort => exact .header hshort
  | cut hd hfit hshort => exact .payload hd hfit hshort
  | refused | frame => cases h

/-- What a receiver makes of a frame that is cut off. -/
theorem run_eq (h : CutOff limit cut e) : ∃ pending rest,
    Parse.run limit cut = ⟨[], none, pending, rest⟩ ∧
      (Receiver.mk ⟨limit, pending⟩ rest).shortfall = e := by
  cases h with
  | header hshort =>
    refine ⟨none, cut, ?_, rfl⟩
    rw [Parse.run_eq, if_pos ((Bytes.shorterThan_iff _ _).2 hshort)]
  | @payload h hd hfit hshort =>
    refine ⟨some h, cut.drop headerSize, ?_, rfl⟩
    have hlong : cut.shorterThan headerSize = false :=
      Bytes.shorterThan_false_iff.2 (Header.le_length_of_decode hd)
    rw [Parse.run_eq, hlong, hd]
    dsimp only
    rw [if_neg Bool.false_ne_true, if_neg (Nat.not_lt.2 hfit), Parse.payload,
      if_pos ((Bytes.shorterThan_iff _ _).2 hshort)]

end CutOff

/-- **A receiver that has taken all whole frames tells the truth** of what is missing, if none was
refused. -/
theorem endsShort_of_run (h : (Parse.run maxPayloadSize s).error = none) :
    EndsShort s ((Parse.run maxPayloadSize s).receiver maxPayloadSize).shortfall := by
  obtain ⟨written, cut, hsent, hfit, hs, hcut⟩ := Parse.exists_tail maxPayloadSize s
  have hunfound : (Parse.run maxPayloadSize cut).first? = none := by
    rw [hcut]
    unfold Parse.first?
    rw [h]
  have htrue := CutOff.of_unfound hunfound
  rw [hcut] at htrue
  exact ⟨_, written, cut, hsent, hfit, hs, htrue⟩

namespace EndsShort

theorem lt (h : EndsShort s (.incomplete part n k)) : k < n := by
  obtain ⟨_, _, _, -, -, -, hcut⟩ := h
  exact hcut.lt

theorem exists_lt (h : EndsShort s e) : ∃ part n k, e = .incomplete part n k ∧ k < n := by
  obtain ⟨_, _, _, -, -, -, hcut⟩ := h
  cases hcut with
  | header hshort => exact ⟨_, _, _, rfl, hshort⟩
  | payload _ _ hshort => exact ⟨_, _, _, rfl, hshort⟩

theorem eq_shortfall (h : EndsShort s e) :
    e = ((Parse.run maxPayloadSize s).receiver maxPayloadSize).shortfall := by
  obtain ⟨sent, written, cut, hsent, hfit, rfl, hcut⟩ := h
  obtain ⟨pending, rest, hrun, rfl⟩ := hcut.run_eq
  rw [Parse.run_sentAll hsent hfit, hrun]
  rfl

theorem unique (h : EndsShort s e) (h' : EndsShort s e') : e = e' :=
  h.eq_shortfall.trans h'.eq_shortfall.symm

theorem behind {f : Frame} {bs : Bytes} (h : EndsShort s e) (hf : f.IsSentAs bs)
    (hfit : f.header.size ≤ maxPayloadSize) : EndsShort (bs ++ s) e := by
  obtain ⟨sent, written, cut, hsent, hfits, rfl, hcut⟩ := h
  refine ⟨f :: sent, bs :: written, cut, .cons hf hsent, List.forall_mem_cons.2 ⟨hfit, hfits⟩, ?_,
    hcut⟩
  rw [List.flatten_cons, List.append_assoc]

theorem of_cutOff (h : CutOff maxPayloadSize s e) : EndsShort s e :=
  ⟨[], [], s, .nil, List.forall_mem_nil _, rfl, h⟩

theorem of_unfound (h : (Parse.run maxPayloadSize s).first? = none) :
    EndsShort s ((Parse.run maxPayloadSize s).receiver maxPayloadSize).shortfall :=
  of_cutOff (.of_unfound h)

end EndsShort

/-! ### Waits -/

theorem CallError.ofIo_ne_protocol (io : IoError) : CallError.ofIo io ≠ .protocol e := by
  unfold ofIo
  split <;> nofun

namespace Wait

variable {t : Terms} {reads : List ReadResult}

theorem read_eq_incomplete_iff {r : Receiver} {a : ReadResult} :
    read t r a = .failed (.protocol (.incomplete part n k)) ↔
      a = .closed ∧ r.shortfall = .incomplete part n k := by
  cases a with
  | bytes first more =>
    refine ⟨fun h => ?_, fun h => nomatch h.1⟩
    change look _ = _ at h
    unfold look at h
    split at h <;> cases h
  | closed =>
    refine ⟨fun h => ⟨rfl, ?_⟩, fun h => congrArg (failed ∘ CallError.protocol) h.2⟩
    injection h with h
    injection h
  | failed io =>
    refine ⟨fun h => ?_, fun h => nomatch h.1⟩
    injection h with h
    exact absurd h (CallError.ofIo_ne_protocol io)
  | timedOut => exact ⟨nofun, fun h => nomatch h.1⟩

theorem unfound_of_incomplete
    (h : ((look ⟨⟨limit, none⟩, s⟩).run t reads).1 = .error (.protocol (.incomplete part n k))) :
    (Parse.run limit s).first? = none := by
  cases hs : (Parse.run limit s).first? with
  | none => rfl
  | some v =>
    have hfound : ((look ⟨⟨limit, none⟩, s⟩).run t reads).1.map Prod.fst = _ := run_look_found hs
    rw [h] at hfound
    cases v <;> cases hfound

/-- A wait that reports the end of the stream has come to it, and it has looked at all that came
before. -/
theorem closed_of_incomplete
    (h : ((look ⟨⟨limit, none⟩, s⟩).run t reads).1 = .error (.protocol (.incomplete part n k))) :
    ∃ chunks later, reads = chunks.map Chunk.read ++ .closed :: later ∧
      (Parse.run limit (s ++ Chunk.stream chunks)).first? = none ∧
      ((Parse.run limit (s ++ Chunk.stream chunks)).receiver limit).shortfall =
        .incomplete part n k := by
  induction reads generalizing s with
  | nil =>
    have hs := unfound_of_incomplete h
    rw [look_start, hs, run] at h
    cases h
  | cons a reads ih =>
    have hs := unfound_of_incomplete h
    cases a with
    | bytes first more =>
      change ((look ⟨⟨limit, none⟩, s⟩).run t (Chunk.read ⟨first, more⟩ :: reads)).1 = _ at h
      rw [run_look_undecided hs] at h
      obtain ⟨chunks, later, rfl, hnone, hmissing⟩ := ih h
      rw [List.append_assoc] at hnone hmissing
      exact ⟨⟨first, more⟩ :: chunks, later, rfl, hnone, hmissing⟩
    | closed =>
      rw [look_start, hs, run, read, run] at h
      injection h with h
      injection h with h
      refine ⟨[], reads, rfl, ?_, ?_⟩
      · rwa [Chunk.stream_nil, List.append_nil]
      · rwa [Chunk.stream_nil, List.append_nil]
    | failed io =>
      rw [look_start, hs, run, read, run] at h
      injection h with h
      exact absurd h (CallError.ofIo_ne_protocol io)
    | timedOut =>
      rw [look_start, hs, run, read, run] at h
      cases h

/-- **A wait tells the truth of how a stream ends**, whatever its receiver held before. -/
theorem endsShort_of_incomplete
    (h : (receive t ⟨⟨maxPayloadSize, none⟩, s⟩ reads).1 =
      .error (.protocol (.incomplete part n k))) :
    ∃ chunks later, reads = chunks.map Chunk.read ++ .closed :: later ∧
      EndsShort (s ++ Chunk.stream chunks) (.incomplete part n k) := by
  obtain ⟨chunks, later, hreads, hunfound, hshortfall⟩ := closed_of_incomplete h
  refine ⟨chunks, later, hreads, ?_⟩
  rw [← hshortfall]
  exact .of_unfound hunfound

end Wait

/-! ### Requests -/

theorem replyPayload_ne_incomplete {expected : MessageType} {f : Frame} :
    replyPayload expected f ≠ .error (.protocol (.incomplete part n k)) := by
  unfold replyPayload
  split <;> nofun

theorem Terms.dialled_ne_protocol {t : Terms} {r : DialResult} :
    t.dialled r ≠ .error (.protocol e) := by
  cases r <;> nofun

theorem Terms.written_ne_protocol {t : Terms} {r : WriteResult} :
    t.written r ≠ .error (.protocol e) := by
  cases r with
  | done | timedOut => nofun
  | failed io => exact fun h => CallError.ofIo_ne_protocol io (Except.error.inj h)

theorem Client.receive_of_incomplete {c : Client} {timeout : Nat} {type : MessageType}
    {payload : Bytes} {peer : Peer}
    (h : (c.request timeout type payload peer).result = .error (.protocol (.incomplete part n k))) :
    ∃ frame, Frame.encode type payload = .ok frame ∧
      (receive ⟨c.address, timeout⟩ {} (peer.reads frame)).1 =
        .error (.protocol (.incomplete part n k)) := by
  unfold request at h
  split at h
  · cases h
  · dsimp only at h
    split at h
    · next hdial =>
      cases h
      exact absurd hdial Terms.dialled_ne_protocol
    · unfold exchange at h
      split at h
      · cases h
      · next frame hframe =>
        refine ⟨frame, hframe, ?_⟩
        dsimp only at h
        cases hwrite : Terms.written ⟨c.address, timeout⟩ (peer.write frame) with
        | error e =>
          rw [hwrite] at h
          cases h
          exact absurd hwrite Terms.written_ne_protocol
        | ok v =>
          rw [hwrite] at h
          cases hwait : (receive ⟨c.address, timeout⟩ {} (peer.reads frame)).1 with
          | error e =>
            rw [hwait] at h
            cases h
            rfl
          | ok found =>
            rw [hwait] at h
            exact absurd h replyPayload_ne_incomplete

end Corelink
