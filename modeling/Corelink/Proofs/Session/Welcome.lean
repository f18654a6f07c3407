import Corelink.Proofs.Session.Origin
import Corelink.Proofs.Session.Stream

/-!
# Connections that Core serves

On a connection that Core serves no operation fails, and what comes in is an answer that accepts the
login, with frames of any type behind it (`Welcomed`). There a login that can be encoded goes on,
step by step, until it is accepted (`Welcomed.attempt`), and its session is live as long as it is
kept (`Welcomed.isLive`).
-/

namespace Corelink

open Wire

/-- Bytes that accept a login: an answer that says so, and whole frames behind it. -/
def IsAcceptance (bs : Bytes) : Prop :=
  ∃ f answer login sent written, Frame.IsSentAs f answer ∧
    f.header.type = MessageType.loginResponse.code ∧
    LoginResponse.decode f.payload = .ok login ∧ login.ok = true ∧
    List.Forall₂ Frame.IsSentAs sent written ∧
    (∀ g ∈ f :: sent, g.header.size ≤ maxPayloadSize) ∧ bs = answer ++ written.flatten

/-- What has come in of an acceptance so far is nothing yet, or an answer that accepts the login. -/
theorem IsAcceptance.first? {bs s : Bytes} (h : IsAcceptance bs) (hs : s <+: bs) :
    (Parse.run maxPayloadSize s).first? = none ∨
      ∃ f login, (Parse.run maxPayloadSize s).first? = some (.ok f) ∧ login.ok = true ∧
        ∀ r, readLogin (.ok (f, r)) = .ok login := by
  obtain ⟨f, answer, login, sent, written, hsent, htype, hd, hok, -, hfit, rfl⟩ := h
  cases hfirst : (Parse.run maxPayloadSize s).first? with
  | none => exact .inl rfl
  | some v =>
    have hall := Parse.first?_of_prefix hfirst hs
    rw [Parse.first?_of_sent hsent (hfit f List.mem_cons_self)] at hall
    cases hall
    exact .inr ⟨f, login, rfl, hok, fun r => readLogin_eq_ok_iff.2 ⟨f, r, rfl, htype, hd⟩⟩

theorem ReadResult.given_bytes (first : UInt8) (more : Bytes) :
    given (.bytes first more) = first :: more := rfl

/-- Whether the call is on its way to a session of its own. -/
def CreatePhase.isLeading : CreatePhase → Bool
  | discarding .. | ready .. | dialling .. | sending .. | awaiting .. | established .. => true
  | _ => false

namespace Manager

/-- Whether the event is a failure of connection `x`, from the attempt to connect on. -/
def Event.fails (m : Manager) (x : CallId) : Event → Bool
  | .dial y r => y == x && m.handshakeTerms.attempt r != .opened
  | .write y r => y == x && r != .done
  | .read y r => y == x && r.given.isEmpty
  | e => e.breaks x

/-- Nothing fails on connection `x`, and Core accepts the login that it receives there. -/
structure Welcomed (m : Manager) (x : CallId) (trace : Trace) : Prop where
  sound : ∀ e ∈ trace, e.1.fails m x = false
  accepted : ∃ bs, IsAcceptance bs ∧ trace.received x <+: bs

variable {m : Manager} {s t : State} {e : Event} {es : List Event} {x g : CallId} {u p : String}
  {effects : List Effect} {trace more : Trace} {a : Session} {seen : Nat} {r : Receiver}
  {phase phase' : CreatePhase}

theorem Event.breaks_of_not_fails (h : e.fails m x = false) : e.breaks x = false := by
  cases e with
  | dial | write | read => rfl
  | _ => exact h

namespace Welcomed

theorem of_append (h : Welcomed m x (trace ++ more)) : Welcomed m x trace where
  sound e he := h.sound e (List.mem_append_left _ he)
  accepted := by
    obtain ⟨bs, hbs, hreceived⟩ := h.accepted
    rw [Trace.received, List.flatMap_append] at hreceived
    exact ⟨bs, hbs, (List.prefix_append _ _).trans hreceived⟩

theorem concat (h : Welcomed m x trace) (hfails : e.fails m x = false) (hgiven : e.given x = []) :
    Welcomed m x (trace ++ [(e, effects)]) where
  sound := by
    simpa only [List.forall_mem_append, List.forall_mem_singleton] using ⟨h.sound, hfails⟩
  accepted := by
    rw [Trace.received_concat, hgiven, List.append_nil]
    exact h.accepted

theorem unbroken (h : Welcomed m x trace) : trace.Unbroken x :=
  fun e he => Event.breaks_of_not_fails (h.sound e he)

theorem not_fails (h : Welcomed m x (trace ++ [(e, effects)])) : e.fails m x = false :=
  h.sound (e, effects) (List.mem_append_right _ (List.mem_singleton_self _))

/-- **A session that is served lives** as long as it is kept. -/
theorem isLive (h : Welcomed m x trace) (hr : m.run {} es = some (t, trace))
    (ha : t.sessions x = some a) (hk : t.Keeps x) : a.live = true := by
  obtain ⟨bs, ⟨f, answer, login, sent, written, hanswer, -, -, -, hsent, hfit, rfl⟩, hreceived⟩ :=
    h.accepted
  obtain hpast | ⟨g, front, later, hh, hu⟩ := spared_of_run hr h.unbroken ha
  · exact absurd hk hpast.not_keeps
  obtain ⟨-, -, hlater⟩ := hh.eq_of_prefix hanswer hreceived
  have hfate := hu.fate
  rw [digest_error_of_frames hsent (fun g hg => hfit g (List.mem_cons_of_mem _ hg)) hlater] at hfate
  cases hfate with
  | going hl => exact hl

/-! ### Logins -/

theorem heard {read : ReadResult} (h : Welcomed m x (trace ++ [(.read x read, effects)]))
    (hac : Account x s trace) (hc : s.calls x = some (.create u p (.awaiting g seen r)))
    (he : m.step s (.read x read) = some (t, effects)) :
    (∃ r', t.calls x = some (.create u p (.awaiting g seen r'))) ∨
      t.calls x = some (.create u p (.established g seen)) := by
  obtain ⟨hfirst, rfl⟩ := hac.awaiting hc
  obtain ⟨bs, hbs, hreceived⟩ := h.accepted
  rw [Trace.received_concat, Event.given_read] at hreceived
  cases read with
  | bytes first rest =>
    rw [ReadResult.given_bytes] at hreceived
    have hread : Wait.read m.handshakeTerms ((Parse.run maxPayloadSize (trace.received x)).receiver
        maxPayloadSize) (.bytes first rest) =
        Wait.look ⟨⟨maxPayloadSize, none⟩, trace.received x ++ first :: rest⟩ :=
      Wait.look_resume hfirst _
    rw [Wait.look_start] at hread
    obtain hnone | ⟨f, login, hfound, hok, hlogin⟩ := hbs.first? hreceived
    · rw [hnone] at hread
      simp only [step, hc, Manager.heard, hread] at he
      cases he
      exact .inl ⟨_, assign_same _ _ _⟩
    · rw [hfound] at hread
      rw [step_answered hc hread (hlogin _) hok] at he
      cases he
      exact .inr (assign_same _ _ _)
  | closed | failed | timedOut =>
    have hfails := h.not_fails
    simp [Event.fails, ReadResult.given] at hfails

/-- **A login that can be encoded goes on** on a connection that is served. -/
theorem attempt (h : Welcomed m x (trace ++ [(e, effects)])) (hs : m.Reachable s)
    (hsp : Spoken x s trace) (hac : Account x s trace) (he : m.step s e = some (t, effects))
    (hfit : ∃ payload, (LoginRequest.mk u p).encode = .ok payload ∧ payload.length < UInt32.size)
    (hc : s.calls x = some (.create u p phase)) (hc' : t.calls x = some (.create u p phase'))
    (ha : phase.Attempt phase') : phase'.isLeading = true := by
  obtain ⟨payload, hencode, hlength⟩ := hfit
  have hfails := h.not_fails
  cases ha with
  | prepared | dialled | written | heard => rfl
  | unprepared =>
    obtain rfl : e = .proceed x := expects_of_changed hs.custody he hc hc' (by rintro ⟨⟩)
    simp only [step, proceed, hc, proceedCreate, prepare, hencode] at he
    cases he
    simp [go] at hc'
  | @undialled g seen payload' =>
    obtain ⟨dialling, rfl⟩ : ∃ r, e = .dial x r := expects_of_changed hs.custody he hc hc' (by rintro ⟨⟩)
    obtain rfl : payload' = payload := Except.ok.inj ((hsp.prepared hc).symm.trans hencode)
    have hopened : m.handshakeTerms.attempt dialling = .opened := by
      simpa [Event.fails] using hfails
    simp only [step, hc, dialled, hopened, Terms.dialled, Frame.encode, if_pos hlength] at he
    cases he
    simp [go] at hc'
  | unwritten =>
    obtain ⟨writing, rfl⟩ : ∃ r, e = .write x r := expects_of_changed hs.custody he hc hc' (by rintro ⟨⟩)
    obtain rfl : writing = .done := by simpa [Event.fails] using hfails
    simp only [step, hc, written, Terms.written] at he
    cases he
    simp [go] at hc'
  | refused =>
    obtain ⟨read, rfl⟩ : ∃ r, e = .read x r := expects_of_changed hs.custody he hc hc' (by rintro ⟨⟩)
    obtain ⟨r', hr⟩ | hr := h.heard hac hc he
    · rw [hc'] at hr
      cases hr
    · rw [hc'] at hr
      cases hr

/-- What is missing of the answer can come in one read, and then the login is accepted. -/
theorem answer (h : Welcomed m x trace) (hr : Awaits r (trace.received x)) :
    ∃ first more f r' login, (∀ effects, Welcomed m x (trace ++
        [(.read x (.bytes first more), effects)])) ∧
      Wait.read m.handshakeTerms r (.bytes first more) = .frame f r' ∧
      readLogin (.ok (f, r')) = .ok login ∧ login.ok = true := by
  obtain ⟨hfirst, rfl⟩ := hr
  obtain ⟨_, hbs, hreceived⟩ := h.accepted
  obtain ⟨f, answer, login, sent, written, hsent, htype, hd, hok, -, hfit, rfl⟩ := id hbs
  have hfits : f.header.size ≤ maxPayloadSize := hfit f List.mem_cons_self
  have hshort : ¬ answer <+: trace.received x := by
    intro hprefix
    have hfound := Parse.first?_of_sent hsent hfits []
    rw [List.append_nil] at hfound
    rw [Parse.first?_of_prefix hfound hprefix] at hfirst
    cases hfirst
  obtain ⟨rest, hrest⟩ :=
    (List.prefix_or_prefix_of_prefix hreceived (List.prefix_append _ _)).resolve_right hshort
  cases rest with
  | nil =>
    rw [List.append_nil] at hrest
    exact absurd (hrest ▸ List.prefix_refl _) hshort
  | cons first more =>
    have hread : Wait.read m.handshakeTerms ((Parse.run maxPayloadSize (trace.received x)).receiver
        maxPayloadSize) (.bytes first more) =
        Wait.look ⟨⟨maxPayloadSize, none⟩, trace.received x ++ first :: more⟩ :=
      Wait.look_resume hfirst _
    rw [hrest, ← List.append_nil answer, Wait.look_sent hsent hfits] at hread
    refine ⟨first, more, f, _, login, fun effects => ⟨?_, _, hbs, ?_⟩, hread,
      readLogin_eq_ok_iff.2 ⟨f, _, rfl, htype, hd⟩, hok⟩
    · have hfails : Event.fails m x (.read x (.bytes first more)) = false := by
        simp [Event.fails, ReadResult.given]
      simpa only [List.forall_mem_append, List.forall_mem_singleton] using ⟨h.sound, hfails⟩
    · rw [Trace.received_concat, Event.given_read, ReadResult.given_bytes, hrest]
      exact List.prefix_append _ _

end Welcomed

end Manager

end Corelink
