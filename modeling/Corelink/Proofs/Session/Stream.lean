import Corelink.Proofs.Session.Served

/-!
# Streams of frames

Core may send frames of any type on a connection that a login was accepted on. However reads cut
them, and wherever the connection goes over from the login to the keep-alive, they are taken in
whole, in order and once (`StandsAt`), and the session stays as it is (`stream_is_lossless`).
-/

namespace Corelink

open Wire

namespace Manager

variable {m : Manager} {t : State} {es : List Event} {x : CallId} {trace : Trace} {a : Session}
  {f : Frame} {answer later bs : Bytes} {sent : List Frame} {written : List Bytes}

/-- On connection `x` the answer has come in, `k` whole frames, and `cut` of the next one. Before
the keep-alive has read, its receiver holds all that came behind the answer; since then, the frames
are taken in, and the receiver holds what there is of the next one. -/
structure StandsAt (x : CallId) (a : Session) (trace : Trace) (answer : Bytes) (sent : List Frame)
    (written : List Bytes) (k : Nat) (cut : Bytes) : Prop where
  received : trace.received x = answer ++ (written.take k).flatten ++ cut
  cutOff : cut = [] ∨ ∃ g whole, sent[k]? = some g ∧ written[k]? = some whole ∧ cut <+: whole ∧
    cut ≠ whole
  unread : trace.hasRead x = false →
    trace.taken x = [] ∧ a.receiver = ⟨{}, (written.take k).flatten ++ cut⟩
  read : trace.hasRead x = true → trace.taken x = sent.take k ∧ a.receiver =
    ⟨⟨maxPayloadSize, if cut.length < headerSize then none else sent[k]?.map Frame.header⟩,
      if cut.length < headerSize then cut else cut.drop headerSize⟩

namespace Handed

/-- The answer that a session was made on is the first frame that it was sent. -/
theorem eq_of_prefix {g : Frame} {front s : Bytes} (h : Handed x a trace f answer later)
    (hg : g.IsSentAs front) (hp : trace.received x <+: front ++ s) :
    f = g ∧ answer = front ∧ later <+: s := by
  obtain ⟨rest, hrest⟩ := hp
  rw [h.received, List.append_assoc] at hrest
  obtain ⟨hf, hanswer, hlater⟩ := h.sent.eq_of_append hg hrest
  exact ⟨hf, hanswer, rest, hlater⟩

theorem standsAt (h : Handed x a trace f answer later)
    (hsent : List.Forall₂ Frame.IsSentAs sent written)
    (hfit : ∀ g ∈ sent, g.header.size ≤ maxPayloadSize) (hlater : later <+: written.flatten) :
    ∃ k cut, StandsAt x a trace answer sent written k cut := by
  obtain ⟨k, cut, rfl, hcut, hrun⟩ := Parse.run_prefix hsent hfit hlater
  refine ⟨k, cut, ?_, hcut, fun hread => ?_, fun hread => ?_⟩
  · rw [h.received, List.append_assoc]
  · rw [h.taken, h.receiver, hread]
    exact ⟨rfl, rfl⟩
  · have hdigest : digest true ((written.take k).flatten ++ cut) = _ := hrun
    rw [h.taken, h.receiver, hread, hdigest]
    exact ⟨rfl, rfl⟩

theorem step_of_read (h : Handed x a trace f answer later) (ha : t.sessions x = some a)
    (hk : a.keepAlive = .waiting) (hs : a.signalled = false) {first : UInt8} {more : Bytes}
    (herror : (digest true (later ++ first :: more)).error = none) :
    ∃ r frames, m.step t (.inbound x (.bytes first more)) =
      some (t.setSession x { a with receiver := r }, [.took x frames]) := by
  obtain ⟨frames, -, htake⟩ := h.take_eq (first :: more)
  refine ⟨(digest true (later ++ first :: more)).receiver maxPayloadSize, frames, ?_⟩
  rw [step_inbound ha hk hs, htake, herror, KeepAlive.afterRead, ← hk]

end Handed

theorem digest_error_of_frames (hsent : List.Forall₂ Frame.IsSentAs sent written)
    (hfit : ∀ g ∈ sent, g.header.size ≤ maxPayloadSize) (hbs : bs <+: written.flatten)
    (read : Bool) : (digest read bs).error = none := by
  cases read with
  | false => rfl
  | true =>
    obtain ⟨k, cut, -, -, hrun⟩ := Parse.run_prefix hsent hfit hbs
    exact congrArg Parse.error hrun

/-- **Nothing of a stream of frames is lost**, whatever their types and wherever reads cut it. The
session is that of the login that Core has accepted. It has taken in all whole frames once it has
read, and what it holds is what there is of the next one. As long as it is kept and its connection
does not fail, it is live, and a read changes nothing but its receiver. -/
theorem stream_is_lossless (hr : m.run {} es = some (t, trace)) (ha : t.sessions x = some a)
    (hanswer : f.IsSentAs answer) (hsent : List.Forall₂ Frame.IsSentAs sent written)
    (hfit : ∀ g ∈ sent, g.header.size ≤ maxPayloadSize)
    (hreceived : trace.received x <+: answer ++ written.flatten) :
    (f.header.type = MessageType.loginResponse.code ∧
      ∃ login, LoginResponse.decode f.payload = .ok login ∧ login.ok = true ∧
        a.token = login.token ∧ a.userId = login.userId) ∧
    (∃ k cut, StandsAt x a trace answer sent written k cut) ∧
    (trace.Unbroken x → t.Keeps x → a.live = true ∧ a.keepAlive.isGoing = true) ∧
    ∀ first more, trace.received x ++ first :: more <+: answer ++ written.flatten →
      a.keepAlive = .waiting → a.signalled = false →
      ∃ r frames, m.step t (.inbound x (.bytes first more)) =
        some (t.setSession x { a with receiver := r }, [.took x frames]) := by
  obtain ⟨g, front, later, hh⟩ := (account_of_run x hr).handed ha
  obtain ⟨rfl, rfl, hlater⟩ := hh.eq_of_prefix hanswer hreceived
  refine ⟨hh.accepted, hh.standsAt hsent hfit hlater, fun hunbroken hkeeps => ?_,
    fun first more hmore hk hs => ?_⟩
  · obtain hpast | ⟨g', front', later', hh', hu⟩ := spared_of_run hr hunbroken ha
    · exact absurd hkeeps hpast.not_keeps
    obtain ⟨-, -, hlater'⟩ := hh'.eq_of_prefix hanswer hreceived
    have hfate := hu.fate
    rw [digest_error_of_frames hsent hfit hlater'] at hfate
    cases hfate with
    | going hl hk => exact ⟨hl, hk⟩
  · rw [hh.received, List.append_assoc, List.prefix_append_right_inj] at hmore
    exact hh.step_of_read ha hk hs (digest_error_of_frames hsent hfit hmore true)

/-- A frame of a type that nobody knows comes in, the first five bytes with the answer. -/
theorem unknown_frame_is_taken : ∃ es t a answer k cut, ∃ trace : Trace,
    run .loopback {} es = some (t, trace) ∧ t.sessions 0 = some a ∧
    trace.received 0 = answer ++ [70, 83, 88, 49, 1, 99, 0, 0, 0, 2, 0, 0, 7, 7] ∧
    trace.hasRead 0 = true ∧
    StandsAt 0 a trace answer [⟨⟨99, 2⟩, [7, 7]⟩]
      [[70, 83, 88, 49, 1, 99, 0, 0, 0, 2, 0, 0, 7, 7]] k cut ∧ a.live = true := by
  have hsent : List.Forall₂ Frame.IsSentAs [⟨⟨99, 2⟩, [7, 7]⟩]
      [[70, 83, 88, 49, 1, 99, 0, 0, 0, 2, 0, 0, 7, 7]] := .cons ⟨rfl, rfl, rfl⟩ .nil
  have hfit : ∀ g ∈ [Frame.mk ⟨99, 2⟩ [7, 7]], g.header.size ≤ maxPayloadSize := by decide
  obtain ⟨s, before, b, h, -, hread, hk⟩ := Served.of_handover [70, 83, 88, 49, 1]
  obtain ⟨es, hr⟩ := h.run
  obtain ⟨f, answer, hanswer, hreceived⟩ := h.received
  obtain ⟨_, _, -, hu⟩ := h.undisturbed
  have hfirst : before.received 0 <+:
      answer ++ List.flatten [[70, 83, 88, 49, 1, 99, 0, 0, 0, 2, 0, 0, 7, 7]] := by
    rw [hreceived, List.prefix_append_right_inj]
    decide
  have hall : before.received 0 ++ [99, 0, 0, 0, 2, 0, 0, 7, 7] =
      answer ++ List.flatten [[70, 83, 88, 49, 1, 99, 0, 0, 0, 2, 0, 0, 7, 7]] := by
    rw [hreceived, List.append_assoc]
    rfl
  obtain ⟨-, -, -, hstep⟩ := stream_is_lossless hr h.session hanswer hsent hfit hfirst
  obtain ⟨r, frames, he⟩ := hstep 99 _ ⟨[], (List.append_nil _).trans hall⟩ hk hu.signalled
  have hwhole : Trace.received 0 (before ++ [(.inbound 0 (.bytes 99 [0, 0, 0, 2, 0, 0, 7, 7]),
      [.took 0 frames])]) = _ := (Trace.received_concat _ _ _ _).trans hall
  have hb : (s.setSession 0 { b with receiver := r }).sessions 0 =
      some { b with receiver := r } := by simp
  obtain ⟨-, ⟨k, cut, hstands⟩, hlive, -⟩ :=
    stream_is_lossless (run_concat hr he) hb hanswer hsent hfit
      ⟨[], (List.append_nil _).trans hwhole⟩
  refine ⟨_, _, _, answer, k, cut, _, run_concat hr he, hb, hwhole, ?_, hstands,
    (hlive ?_ h.kept).1⟩
  · rw [Trace.hasRead_concat, hread]
    rfl
  · exact Trace.unbroken_concat.2 ⟨h.unbroken, rfl⟩

end Manager

end Corelink
