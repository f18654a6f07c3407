import Corelink.Proofs.Wire.First

/-!
# Refused headers

A parse ends behind the last whole frame, and what is left there begins with no whole one
(`Parse.exists_tail`). If that is a header that a reader must not accept, it stays in front: no look
takes it away, and no byte behind it is ever looked at (`Receiver.play_of_refused`). So a framing
error comes when all frames before it are out, changes nothing, and comes again at each later look
(`Receiver.framing_errors_are_final`).
-/

namespace Corelink.Wire

/-- Why the header in front of these bytes is not accepted. -/
inductive Header.Refused (limit : Nat) (bs : Bytes) : FramingError → Prop where
  | malformed {e : FramingError} : headerSize ≤ bs.length → Header.decode bs = .error e →
    Refused limit bs e
  | oversize {h : Header} : Header.decode bs = .ok h → limit < h.size →
    Refused limit bs (.payloadTooLarge h.size limit)

namespace Parse

variable {limit : Nat} {s : Bytes} {e : FramingError}

/-- **The frames of a parse stand in front of what is left**, and that begins with no whole
frame. -/
theorem exists_tail (limit : Nat) (s : Bytes) : ∃ written tail,
    List.Forall₂ Frame.IsSentAs (run limit s).frames written ∧
    (∀ f ∈ (run limit s).frames, f.header.size ≤ limit) ∧ s = written.flatten ++ tail ∧
    run limit tail = { run limit s with frames := [] } := by
  have hbegins := begins limit s
  generalize hrun : run limit s = p at hbegins
  cases hbegins with
  | short | refused | cut =>
    exact ⟨[], s, .nil, List.forall_mem_nil _, rfl, hrun⟩
  | @frame f bs rest hs hf hfit =>
    have hlt : rest.length < s.length := by
      have hpos : 0 < headerSize := by decide
      rw [hs, List.length_append, hf.length_eq]
      omega
    obtain ⟨written, tail, hsent, hfits, htail, hparse⟩ := exists_tail limit rest
    refine ⟨bs :: written, tail, .cons hf hsent, List.forall_mem_cons.2 ⟨hfit, hfits⟩, ?_, hparse⟩
    rw [hs, List.flatten_cons, List.append_assoc, ← htail]
termination_by s.length

/-- A refused header is where a parse ends, whatever comes behind it. -/
theorem run_of_refused (h : Header.Refused limit s e) (t : Bytes) :
    run limit (s ++ t) = ⟨[], some e, none, s ++ t⟩ := by
  have hlong : headerSize ≤ s.length := by
    cases h with
    | malformed hlong => exact hlong
    | oversize hd => exact Header.le_length_of_decode hd
  have hwhole : Bytes.shorterThan (s ++ t) headerSize = false :=
    Bytes.shorterThan_append t (Bytes.shorterThan_false_iff.2 hlong)
  rw [run_eq, hwhole, if_neg Bool.false_ne_true, Header.decode_append t hlong]
  cases h with
  | malformed _ hd => rw [hd]
  | oversize hd hsize =>
    rw [hd]
    exact if_pos hsize

theorem refused_of_run (hframes : (run limit s).frames = [])
    (herror : (run limit s).error = some e) :
    Header.Refused limit s e ∧ (run limit s).rest = s := by
  have hrefused : ∃ e', Header.Refused limit s e' := by
    have hbegins := begins limit s
    generalize run limit s = p at hframes herror hbegins
    cases hbegins with
    | short | cut => cases herror
    | frame => cases hframes
    | refused hlong hall =>
      cases hd : Header.decode s with
      | error e' => exact ⟨e', .malformed hlong hd⟩
      | ok h => exact ⟨_, .oversize hd (hall h hd)⟩
  obtain ⟨e', h⟩ := hrefused
  have hrun := run_of_refused h []
  rw [List.append_nil] at hrun
  rw [hrun] at herror ⊢
  cases herror
  exact ⟨h, rfl⟩

end Parse

namespace Receiver

variable {limit : Nat} {r : Receiver} {e : FramingError}

theorem next_eq_first? (r : Receiver) :
    r.next.1 = match (r.parse []).first? with
      | none => .ok none
      | some (.ok f) => .ok (some f)
      | some (.error e) => .error e := by
  have hp := r.decoder.parse_append_eq r.buffer []
  unfold next parse
  cases hl : r.decoder.look r.buffer with
  | frame f d rest =>
    rw [hp, hl]
    rfl
  | wait d rest =>
    rw [hp, hl, Look.parse, List.append_nil, Decoder.parse_of_look_wait hl]
    rfl
  | fail e =>
    rw [hp, hl]
    rfl

theorem next_of_error (h : r.next.1 = .error e) :
    r.next = (.error e, r) ∧ ∀ s, r.parse s = ⟨[], some e, none, r.buffer ++ s⟩ := by
  have hp := r.decoder.parse_append_eq r.buffer
  unfold next at h ⊢
  unfold parse
  cases hl : r.decoder.look r.buffer with
  | frame f d rest => simp only [hl, reduceCtorEq] at h
  | wait d rest => simp only [hl, reduceCtorEq] at h
  | fail e' =>
    simp only [hl, Except.error.injEq] at h
    subst h
    refine ⟨rfl, fun s => ?_⟩
    rw [hp, hl]
    rfl

theorem next_fill_of_error (h : r.next.1 = .error e) (s : Bytes) :
    (r.fill s).next.1 = .error e := by
  have hparse : (r.fill s).parse [] = r.parse s := by
    unfold parse fill
    rw [List.append_nil]
  rw [next_eq_first?, hparse, (next_of_error h).2]
  rfl

/-- **A refused header is refused for good**: whatever is done, no frame comes any more, nothing is
taken away, and the next look gives the same error. -/
theorem play_of_refused (h : r.next.1 = .error e) (later : List Act) :
    r.play later = ([], r.fill (received later)) ∧
      (r.play later).2.next = (.error e, (r.play later).2) := by
  induction later generalizing r with
  | nil =>
    have hnil : r.fill [] = r := by
      unfold fill
      rw [List.append_nil]
    refine ⟨?_, (next_of_error h).1⟩
    rw [play, received, hnil]
  | cons a later ih =>
    cases a with
    | fill s =>
      obtain ⟨hplay, hnext⟩ := ih (next_fill_of_error h s)
      refine ⟨?_, hnext⟩
      rw [play, hplay, received]
      unfold fill
      rw [List.append_assoc]
    | next =>
      have hsame : r.play (.next :: later) = r.play later := by
        rw [play, (next_of_error h).1]
      rw [hsame]
      exact ih h

theorem run_received (limit : Nat) (acts : List Act) :
    Parse.run limit (received acts) =
      (((fresh limit).play acts).2.parse []).behind ((fresh limit).play acts).1 := by
  have hplay := parse_play (fresh limit) acts []
  rwa [List.append_nil] at hplay

/-- Where a look fails, all that was received is the frames that have been given and the refused
header, with what has come behind it. -/
theorem received_of_error {acts : List Act} (h : ((fresh limit).play acts).2.next.1 = .error e) :
    (∃ written, List.Forall₂ Frame.IsSentAs ((fresh limit).play acts).1 written ∧
      received acts = written.flatten ++ ((fresh limit).play acts).2.buffer) ∧
    Header.Refused limit ((fresh limit).play acts).2.buffer e := by
  have hrun := run_received limit acts
  rw [(next_of_error h).2, List.append_nil] at hrun
  obtain ⟨written, tail, hsent, -, hwhole, htail⟩ := Parse.exists_tail limit (received acts)
  rw [hrun] at hsent htail
  obtain ⟨hrefused, hrest⟩ := Parse.refused_of_run (e := e) (congrArg Parse.frames htail)
    (congrArg Parse.error htail)
  have hbuffer : tail = ((fresh limit).play acts).2.buffer :=
    hrest.symm.trans (congrArg Parse.rest htail)
  rw [hbuffer] at hwhole hrefused
  simp only [Parse.behind, List.append_nil] at hsent
  exact ⟨⟨written, hsent, hwhole⟩, hrefused⟩

/-- Once a refused header has come in, no look waits: it gives the next of the frames before the
header or, when these are out, the error. -/
theorem next_of_refused {acts : List Act} {sent : List Frame} {written : List Bytes}
    {head more : Bytes}
    (hsent : List.Forall₂ Frame.IsSentAs sent written) (hfit : ∀ f ∈ sent, f.header.size ≤ limit)
    (hrefused : Header.Refused limit head e)
    (hreceived : received acts = written.flatten ++ (head ++ more)) :
    ((fresh limit).play acts).1 <+: sent ∧
    (((fresh limit).play acts).1 = sent →
      ((fresh limit).play acts).2.next = (.error e, ((fresh limit).play acts).2)) ∧
    (((fresh limit).play acts).1 ≠ sent →
      ∃ f, ((fresh limit).play acts).2.next.1 = .ok (some f)) := by
  have hrun := run_received limit acts
  rw [hreceived, Parse.run_sentAll hsent hfit, Parse.run_of_refused hrefused] at hrun
  have hframes : sent = ((fresh limit).play acts).1 ++
      (((fresh limit).play acts).2.parse []).frames := by
    have := congrArg Parse.frames hrun
    simpa only [Parse.behind, List.append_nil] using this
  have herror : (((fresh limit).play acts).2.parse []).error = some e :=
    (congrArg Parse.error hrun).symm
  have hnext := next_eq_first? ((fresh limit).play acts).2
  generalize (fresh limit).play acts = p at *
  generalize p.2.parse [] = q at *
  refine ⟨⟨_, hframes.symm⟩, fun hall => ?_, fun hsome => ?_⟩
  · rw [hall, List.self_eq_append_right] at hframes
    simp only [Parse.first?, hframes, herror] at hnext
    exact (next_of_error hnext).1
  · obtain ⟨f, fs, hfs⟩ : ∃ f fs, q.frames = f :: fs := by
      refine List.exists_cons_of_ne_nil fun hnil => hsome ?_
      rw [hframes, hnil, List.append_nil]
    simp only [Parse.first?, hfs] at hnext
    exact ⟨f, hnext⟩

/-- **Framing errors are final.** When a look fails, nothing has changed, all frames before the
refused header are out, and each later look fails with the same error, whatever comes in. A header
that announces too much is refused by its own twelve bytes, whatever has come behind them. -/
theorem framing_errors_are_final (limit : Nat) (acts : List Act) :
    let given := ((fresh limit).play acts).1
    let r := ((fresh limit).play acts).2
    (∀ e, r.next.1 = .error e →
      r.next.2 = r ∧
      (∃ written, List.Forall₂ Frame.IsSentAs given written ∧
        received acts = written.flatten ++ r.buffer) ∧
      Header.Refused limit r.buffer e ∧
      ∀ later, r.play later = ([], r.fill (received later)) ∧
        (r.play later).2.next = (.error e, (r.play later).2)) ∧
    ∀ sent written head h more, List.Forall₂ Frame.IsSentAs sent written →
      (∀ f ∈ sent, f.header.size ≤ limit) → head.length = headerSize →
      Header.decode head = .ok h → limit < h.size →
      received acts = written.flatten ++ (head ++ more) →
      given <+: sent ∧
      (given = sent → r.next = (.error (.payloadTooLarge h.size limit), r)) ∧
      (given ≠ sent → ∃ f, r.next.1 = .ok (some f)) := by
  intro given r
  constructor
  · intro e h
    obtain ⟨hwhole, hrefused⟩ := received_of_error h
    exact ⟨congrArg Prod.snd (next_of_error h).1, hwhole, hrefused, play_of_refused h⟩
  · intro sent written head h more hsent hfit _ hd hsize hreceived
    exact next_of_refused hsent hfit (.oversize hd hsize) hreceived

/-- A ping comes in, and the header of a pong that announces five bytes where four are allowed. The
look behind the ping refuses it at once, and so does a look behind the payload and another ping. -/
theorem oversize_header_is_refused :
    let acts : List Act := [.fill [0x46, 0x53, 0x58, 0x31, 1, 2, 0, 0, 0, 0, 0, 0, 0x46, 0x53],
      .next, .fill [0x58, 0x31, 1, 3, 0, 0, 0, 5, 0, 0]]
    let later : List Act := [.next, .fill [7, 7, 7, 7, 7], .next,
      .fill [0x46, 0x53, 0x58, 0x31, 1, 2, 0, 0, 0, 0, 0, 0], .next]
    let r := ((fresh 4).play acts).2
    ((fresh 4).play acts).1 = [⟨⟨2, 0⟩, []⟩] ∧ r.next = (.error (.payloadTooLarge 5 4), r) ∧
      r.play later = ([], r.fill (received later)) ∧
      (r.play later).2.next = (.error (.payloadTooLarge 5 4), (r.play later).2) := by
  intro acts later r
  have hgiven : ((fresh 4).play acts).1 = [⟨⟨2, 0⟩, []⟩] := by decide
  obtain ⟨hfinal, hoversize⟩ := framing_errors_are_final 4 acts
  have hping : Frame.IsSentAs ⟨⟨2, 0⟩, []⟩ [0x46, 0x53, 0x58, 0x31, 1, 2, 0, 0, 0, 0, 0, 0] :=
    ⟨rfl, rfl, rfl⟩
  obtain ⟨-, hrefused, -⟩ := hoversize _ _ [0x46, 0x53, 0x58, 0x31, 1, 3, 0, 0, 0, 5, 0, 0] ⟨3, 5⟩
    [] (.cons hping .nil) (by decide) rfl rfl (by decide) rfl
  have hnext : r.next = (.error (.payloadTooLarge 5 4), r) := hrefused hgiven
  obtain ⟨-, -, -, hlater⟩ := hfinal _ (congrArg Prod.fst hnext)
  exact ⟨hgiven, hnext, hlater later⟩

end Receiver

end Corelink.Wire
