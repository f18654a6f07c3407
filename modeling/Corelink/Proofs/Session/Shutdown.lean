import Corelink.Proofs.Session.Removal

/-!
# What a shutdown is final for

A `shutdown` takes all sessions out of the table at one look and then closes them one after
another. A session that has left the table never comes back (`Past`), and what a `shutdown` has
taken is in its hands until it is closed (`Taken`). That is all: unlike a removal, a shutdown
passes no gate, so a `create` that is on its way does not learn of it, and its session goes into
the table afterwards and stays open (`login_survives_shutdown`).
-/

namespace Corelink

namespace CreatePhase

variable {a : CreatePhase}

/-- Whether the call has had its last look at the table. -/
def isDecided : CreatePhase → Bool
  | undoing .. | leaving .. | returned _ => true
  | _ => false

end CreatePhase

namespace Session

/-- Nothing goes over the connection of the session any more. -/
structure IsShut (a : Session) : Prop where
  live : a.live = false
  writer : a.writer = false

theorem IsShut.aged {a b : Session} (h : a.IsShut) (hab : a.Aged b) : b.IsShut where
  live := by
    cases hl : b.live with
    | false => rfl
    | true => exact absurd (hab.live hl) (by rw [h.live]; decide)
  writer := by
    cases hw : b.writer with
    | false => rfl
    | true => exact absurd (hab.writer hw) (by rw [h.writer]; decide)

end Session

namespace Manager

variable {s t : State} {i x : CallId} {u p : String} {e : Event}

/-! ### Sessions that have left the table -/

theorem CreateMove.isDecided {a b : CreatePhase} (h : CreateMove s t i u a b)
    (ha : a.isDecided = true) : b.isDecided = true := by
  cases h with
  | same => exact ha
  | attempt hatt => cases hatt <;> cases ha
  | reuse | queue | turn | meet | discard | clear | discardOn | discarded | establish | cancel
  | yield | insert => cases ha
  | undoOn | undone | leave => rfl

theorem Custody.decided (h : Custody s) (ho : Orderly s) (hx : s.table.get? u = some x) :
    ∃ p b, s.calls x = some (.create u p b) ∧ b.isDecided = true := by
  obtain ⟨a, ha, rfl⟩ := h.listed hx
  obtain ⟨p, b, hb, hans⟩ := h.made ha
  refine ⟨p, b, hb, ?_⟩
  cases b with
  | established =>
    rw [ho.cleared hb rfl] at hx
    cases hx
  | undoing | leaving | returned => rfl
  | _ => cases hans

/-- Session `x` is out of the table, and its `create` has had its last look. -/
structure Past (x : CallId) (s : State) : Prop where
  decided : ∃ u p b, s.calls x = some (.create u p b) ∧ b.isDecided = true
  absent : ∀ u, s.table.get? u ≠ some x

theorem Past.shift (h : Past x s) (hst : Shift s e t) : Past x t where
  decided := by
    obtain ⟨u, p, a, ha, hdec⟩ := h.decided
    obtain ⟨b, hb, hm⟩ := hst.create_on ha
    exact ⟨u, p, b, hb, hm.isDecided hdec⟩
  absent u hx := by
    obtain same | gone | ⟨i, p, g, seen, hi, -, -, hput⟩ := hst.table_get? u
    · rw [same] at hx
      exact h.absent u hx
    · rw [gone] at hx
      cases hx
    · -- only a `create` before its last look puts its session in
      rw [hput] at hx
      cases hx
      obtain ⟨v, q, a, ha, hdec⟩ := h.decided
      rw [hi] at ha
      cases ha
      cases hdec

/-! ### Sessions that are being closed -/

/-- Who has begun to close a session has marked it dead. -/
def Marked (s : State) : Prop :=
  ∀ {i x : CallId} {c : Call} {next : Closing} {a : Session}, s.calls i = some c →
    c.closing? i = some (x, next) → next ≠ .mark → s.sessions x = some a → a.live = false

theorem Marked.shift (h : Marked s) (hcu : Custody s) (hst : Shift s e t) : Marked t := by
  intro i x d next b hi hx hne hb
  refine hcu.closing_shift hst (P := fun next a => next ≠ .mark → a.live = false)
    (fun _ hne => absurd rfl hne) ?_ ?_ (fun hc hx ha hne => h hc hx hne ha) hi hx hb hne
  · intro next a b ha hab hne
    exact Bool.eq_false_iff.2 fun hl => Bool.eq_false_iff.1 (ha hne) (hab.live hl)
  · intro y next next' a b effects ha hstep _
    cases next with
    | mark =>
      cases hstep
      rfl
    | signal | shut | join =>
      exact Bool.eq_false_iff.2 fun hl =>
        Bool.eq_false_iff.1 (ha nofun) ((Session.Aged.of_closing hstep).live hl)

theorem Reachable.marked {m : Manager} (h : m.Reachable s) : Marked s := by
  induction h with
  | start => exact fun hi => by cases hi
  | step hs he ih => exact ih.shift hs.custody (.of_step he)

/-- Session `x` is in the hands of shutdown `i`, or it is shut. -/
def Taken (i x : CallId) (s : State) : Prop :=
  (∃ c, s.calls i = some c ∧ c.request = .shutdown ∧ x ∈ c.owned i) ∨
    ∃ a, s.sessions x = some a ∧ a.IsShut

theorem Taken.shift (h : Taken i x s) (hcu : Custody s) (hm : Marked s) (hst : Shift s e t) :
    Taken i x t := by
  obtain ⟨c, hc, hreq, hxc⟩ | ⟨a, ha, hshut⟩ := h
  · obtain ⟨c', hc', hh⟩ := hst.handover hc
    obtain ⟨c'', hc'', hreq'⟩ := hst.request_kept hc
    rw [hc'] at hc''
    cases hc''
    cases hh with
    | hold hkeep => exact .inl ⟨c', hc', hreq'.trans hreq, hkeep ▸ hxc⟩
    | take hnil | make hnil =>
      rw [hnil] at hxc
      cases hxc
    | drop hcons hgone =>
      obtain ⟨a, ha, -⟩ := hcu.owned hc hxc
      rw [hcons, List.mem_cons] at hxc
      obtain rfl | hrest := hxc
      · obtain hnone | hjoin := hgone
        · rw [hnone] at ha
          cases ha
        · obtain ⟨b, hb, hab⟩ := hcu.session_on hst ha
          exact .inr ⟨b, hb, .aged ⟨hm hc hjoin nofun ha, hcu.shut hc hjoin ha⟩ hab⟩
      · exact .inl ⟨c', hc', hreq'.trans hreq, hrest⟩
    | place _ _ hu =>
      cases c with
      | shutdown => cases hu
      | create | remove => cases hreq
  · obtain ⟨b, hb, hab⟩ := hcu.session_on hst ha
    exact .inr ⟨b, hb, hshut.aged hab⟩

/-! ### Shutdown -/

/-- Whether `x` is a `create` that has yet to have its last look at the table. -/
def State.IsUndecided (s : State) (x : CallId) : Prop :=
  ∃ u p a, s.calls x = some (.create u p a) ∧ a.isDecided = false

section
variable {m : Manager} {s' : State} {es : List Event} {effects : List Effect}
  {trace : List (Event × List Effect)}

theorem Reachable.request_of_run (h : m.Reachable s) (hr : m.run s es = some (t, trace))
    {c c' : Call} (hc : s.calls x = some c) (hc' : t.calls x = some c') :
    c.request = c'.request := by
  have keep : ∀ {s t : State} {e : Event}, m.Reachable s → Shift s e t →
      (∃ d, s.calls x = some d ∧ d.request = c.request) →
      ∃ d, t.calls x = some d ∧ d.request = c.request := by
    rintro s t e - hst ⟨d, hd, hreq⟩
    obtain ⟨d', hd', hreq'⟩ := hst.request_kept hd
    exact ⟨d', hd', hreq'.trans hreq⟩
  obtain ⟨d, hd, hreq⟩ := h.keeps keep ⟨c, hc, rfl⟩ hr
  rw [hc'] at hd
  cases hd
  exact hreq.symm

/-- The look at the table of a shutdown. -/
theorem shutdown_look (hi : s.calls i = some (.shutdown .called))
    (he : m.step s (.proceed i) = some (s', effects)) :
    ∃ total, s' = { s with table := .empty }.setCall i
      (.shutdown (.closing total (s.table.entries.map Prod.snd) .mark)) := by
  simp only [Manager.step, proceed, hi, proceedShutdown] at he
  cases he
  exact ⟨_, rfl⟩

/-- **What a shutdown is final for.** Its look at the table leaves nothing there. The sessions
that were in it never come back, and each of them is shut when the shutdown has returned. What
is in the table later was put there by a `create` that had yet to have its last look at it; so
if there was none, and none is called, nobody has a session from then on. -/
theorem Reachable.shutdown_takes_all (h : m.Reachable s)
    (hi : s.calls i = some (.shutdown .called)) (he : m.step s (.proceed i) = some (s', effects))
    (hr : m.run s' es = some (t, trace)) :
    (∀ u, s'.LoggedOut u) ∧
    (∀ u x, s.table.get? u = some x → (∀ v, t.table.get? v ≠ some x) ∧
      (t.calls i = some (.shutdown .returned) → ∃ a, t.sessions x = some a ∧ a.IsShut)) ∧
    (∀ u x, t.table.get? u = some x → s'.IsUndecided x ∨ s'.calls x = none) ∧
    ((∀ x, ¬ s'.IsUndecided x) → (∀ j u p, .call j (.create u p) ∉ es) → ∀ u, t.LoggedOut u) := by
  have hs' : m.Reachable s' := .step h he
  have ht : m.Reachable t := hs'.run hr
  obtain ⟨total, hlook⟩ := shutdown_look hi he
  have hempty : ∀ u, s'.table.get? u = none := fun u => by rw [hlook]; rfl
  have past : ∀ {x}, Past x s' → ∀ u, t.table.get? u ≠ some x := fun hx =>
    (hs'.keeps (fun _ hst hx => hx.shift hst) hx hr).absent
  have late : ∀ u x, t.table.get? u = some x → s'.IsUndecided x ∨ s'.calls x = none := by
    intro u x hx
    cases hc : s'.calls x with
    | none => exact .inr rfl
    | some c =>
      obtain ⟨p, b, hb, -⟩ := ht.custody.decided ht.orderly hx
      obtain ⟨a, rfl⟩ := Call.create_of_request (hs'.request_of_run hr hc hb)
      cases ha : a.isDecided with
      | false => exact .inl ⟨u, p, a, hc, ha⟩
      | true => exact absurd hx (past ⟨⟨u, p, a, hc, ha⟩, fun v hv => by simp [hempty] at hv⟩ u)
  refine ⟨fun u => State.loggedOut_of_get?_none (hempty u), fun u x hx => ⟨?_, fun hret => ?_⟩,
    late, fun hnone hnew u => State.loggedOut_of_get?_none ?_⟩
  · obtain ⟨p, a, ha, hdec⟩ := h.custody.decided h.orderly hx
    obtain ⟨b, hb, hm⟩ := (Shift.of_step he).create_on ha
    exact past ⟨⟨u, p, b, hb, hm.isDecided hdec⟩, fun v hv => by simp [hempty] at hv⟩
  · have htaken : Taken i x s' := by
      refine .inl ⟨_, by rw [hlook]; exact assign_same _ _ _, rfl, ?_⟩
      exact List.mem_map.2 ⟨(u, x), Directory.mem_entries_iff.2 hx, rfl⟩
    obtain ⟨c, hc, -, hxc⟩ | hshut :=
      hs'.keeps (fun hs hst h => h.shift hs.custody hs.marked hst) htaken hr
    · rw [hret] at hc
      cases hc
      cases hxc
    · exact hshut
  · cases hx : t.table.get? u with
    | none => rfl
    | some x =>
      obtain hund | hcall := late u x hx
      · exact absurd hund (hnone x)
      · obtain ⟨p, b, hb, -⟩ := ht.custody.decided ht.orderly hx
        obtain ⟨a, ha⟩ := create_of_run hr (fun j p => hnew j u p) hb
        rw [hcall] at ha
        cases ha

/-- A shutdown that has been through has shut the session that it found. -/
theorem shutdown_shuts : ∃ s s' t effects trace, Reachable .loopback s ∧
    s.table.get? "u" = some 0 ∧ s.isLive 0 = true ∧
    step .loopback s (.proceed 1) = some (s', effects) ∧
    run .loopback s' [.proceed 1, .proceed 1, .proceed 1, .keepAlive 0, .proceed 1,
      .proceed 1] = some (t, trace) ∧
    (∃ a, t.sessions 0 = some a ∧ a.IsShut) ∧ ∀ u, t.LoggedOut u := by
  have hs : Reachable .loopback _ := .run .start (rfl : run _ {}
    [.call 0 (.create "u" "p"), .proceed 0, .proceed 0, .proceed 0, .proceed 0, .dial 0 .opened,
      .write 0 .done, .read 0 (.bytes 70 [83, 88, 49, 1, 13, 0, 0, 0, 15, 0, 0, 1, 0, 0, 0, 0, 0,
        0, 0, 0, 0, 0, 0, 0, 0, 0]), .proceed 0, .proceed 0, .call 1 .shutdown] = some (_, _))
  refine ⟨_, ?_, ?_, ?_, ?_, hs, rfl, rfl, ?looked, ?went,
    ((hs.shutdown_takes_all rfl ?looked ?went).2.1 "u" 0 rfl).2 ?returned,
    (hs.shutdown_takes_all rfl ?looked ?went).2.2.2 ?_ ?_⟩
  case looked => exact rfl
  case went => exact rfl
  case returned => exact rfl
  · rintro (_ | _ | x) ⟨u, p, a, ha, hdec⟩ <;> cases ha
    cases hdec
  · simp

/-- A login that awaits its answer while a shutdown goes from its beginning to its end is not
cancelled: its session goes into the emptied table, and stays live and open, when both calls
have returned. -/
theorem login_survives_shutdown : ∃ s s' t effects trace, Reachable .loopback s ∧
    s.calls 0 = some (.create "bob" "secret" (.awaiting 0 0 {})) ∧
    s.calls 1 = some (.shutdown .called) ∧
    step .loopback s (.proceed 1) = some (s', effects) ∧
    run .loopback s' [.proceed 1,
      .read 0 (.bytes 70 [83, 88, 49, 1, 13, 0, 0, 0, 15, 0, 0, 1, 0, 0, 0, 0, 0, 0, 0, 0, 0, 0, 0,
        0, 0, 0]), .proceed 0, .proceed 0] = some (t, trace) ∧
    t.calls 0 = some (.create "bob" "secret" (.returned (some 0))) ∧
    t.calls 1 = some (.shutdown .returned) ∧
    t.table.get? "bob" = some 0 ∧ t.hasSession "bob" = true ∧ t.online = ["bob"] ∧
    ∃ a, t.sessions 0 = some a ∧ a.live = true ∧ a.writer = true := by
  have hs : Reachable .loopback _ := .run .start (rfl : run _ {}
    [.call 0 (.create "bob" "secret"), .proceed 0, .proceed 0, .proceed 0, .proceed 0,
      .dial 0 .opened, .write 0 .done, .call 1 .shutdown] = some (_, _))
  exact ⟨_, _, _, _, _, hs, rfl, rfl, rfl, rfl, rfl, rfl, rfl, rfl, rfl, _, rfl, rfl, rfl⟩

end

end Manager

end Corelink
