import Corelink.Proofs.Session.Solo

/-!
# Every call returns

While a call owes something, the event that it waits for can happen, and it comes nearer to its
return by it (`Owes.progress`); so `Manager.complete` follows every call to its end. With what a
history leaves (`History.explained`) this makes the manager the ledger for whoever makes one call
at a time.
-/

namespace Corelink

open Wire

namespace Manager

variable {m : Manager} {peer : Peer} {s t : State} {e : Event} {i x : CallId} {c : Call}
  {next : Closing} {reads : List ReadResult} {M : Ledger} {result : Option CallId}
  {opened : List CallId} {a b : Session}

/-! ### Progress -/

/-- The next event of call `i` can happen. It is one of the call, or it brings the keep-alive that
the call waits for, and so the call, nearer to its end. -/
def Progresses (m : Manager) (peer : Peer) (s : State) (reads : List ReadResult) (i : CallId)
    (c : Call) : Prop :=
  ∃ e t effects, nextEvent peer s reads i = some e ∧ m.step s e = some (t, effects) ∧
    (e.session? = none ∨ ∃ x, e.session? = some x ∧ readsAfter peer reads s e = reads ∧
      t.calls = s.calls ∧ t.toReturn peer reads i c < s.toReturn peer reads i c)

theorem Progresses.own (hn : nextEvent peer s reads i = some e) (hx : e.session? = none)
    (he : (m.step s e).isSome = true) : Progresses m peer s reads i c := by
  obtain ⟨⟨t, effects⟩, ht⟩ := Option.isSome_iff_exists.1 he
  exact ⟨e, t, effects, hn, ht, .inl hx⟩

theorem Progresses.of_closing (hs : m.Reachable s) (hc : s.calls i = some c)
    (hx : c.closing? i = some (x, next)) : Progresses m peer s reads i c := by
  have hn : nextEvent peer s reads i = some (closingEvent s i x next) := nextEvent_of_closing hc hx
  obtain ⟨hown, he⟩ | ⟨b, effects, hkeep, he, hlt⟩ := closingEvent_happens hs hc hx
  · exact .own (hown ▸ hn) rfl he
  · exact ⟨_, _, effects, hkeep ▸ hn, he, .inr ⟨x, session?_keepAliveEvent s x,
      readsAfter_keepAliveEvent peer reads s x, rfl, hlt peer reads⟩⟩

/-- **A call that owes something gets on.** -/
theorem Owes.progress (hs : m.Reachable s) (hc : s.calls i = some c)
    (h : Owes m peer i s M reads c result opened) (hret : c.hasReturned = false) :
    Progresses m peer s reads i c := by
  cases h with
  | @create u p a g seen hcreate =>
    have hticket := hcreate.ticket
    cases a with
    | called | undoing | leaving | returned => cases hticket
    | discarding => exact .of_closing hs hc rfl
    | queued =>
      cases hticket
      refine .own (e := .proceed i) (by simp only [nextEvent, hc]) rfl ?_
      simp only [step, proceed, hc, proceedCreate, takeTurn, hcreate.free rfl, Option.isSome_some]
    | admitted | ready | established =>
      refine .own (e := .proceed i) (by simp only [nextEvent, hc]) rfl ?_
      simp only [step, proceed, hc, proceedCreate, Option.isSome_some]
    | dialling =>
      refine .own (e := .dial i peer.dial) (by simp only [nextEvent, hc]) rfl ?_
      simp only [step, hc, Option.isSome_some]
    | sending _ _ frame =>
      refine .own (e := .write i (peer.write frame)) (by simp only [nextEvent, hc]) rfl ?_
      simp only [step, hc, Option.isSome_some]
    | awaiting =>
      refine .own (e := .read i (reads.head?.getD .timedOut)) (by simp only [nextEvent, hc]) rfl ?_
      simp only [step, hc, Option.isSome_some]
  | leaving =>
    refine .own (e := .proceed i) (by simp only [nextEvent, hc]) rfl ?_
    simp only [step, proceed, hc, proceedCreate, Option.isSome_some]
  | returned => cases hret
  | @remove u phase hph =>
    cases phase with
    | called => cases hph
    | found =>
      refine .own (e := .proceed i) (by simp only [nextEvent, hc]) rfl ?_
      simp only [step, proceed, hc, proceedRemove, Option.isSome_some]
    | closing => exact .of_closing hs hc rfl
    | returned => cases hret
  | @shutdown phase hph =>
    cases phase with
    | called => cases hph
    | closing total xs next =>
      cases xs with
      | nil =>
        refine .own (e := .proceed i) (by simp only [nextEvent, hc]) rfl ?_
        simp only [step, proceed, hc, proceedShutdown, Option.isSome_some]
      | cons x rest => exact .of_closing hs hc rfl
    | returned => cases hret

/-! ### Completion -/

theorem nextEvent_of_hasReturned (hc : s.calls i = some c) (hret : c.hasReturned = true) :
    nextEvent peer s reads i = none := by
  unfold nextEvent
  rcases c with ⟨u, p, phase⟩ | ⟨u, phase⟩ | phase
  · cases phase with
    | returned => simp only [hc]
    | _ => cases hret
  · cases phase with
    | returned => simp only [hc]
    | _ => cases hret
  · cases phase with
    | returned => simp only [hc]
    | _ => cases hret

theorem advance_of_none {n : Nat} {p : Progress} (h : nextEvent peer p.state p.reads i = none) :
    m.advance peer false i n p = p := by
  cases n with
  | zero => rfl
  | succ n => rw [advance, h]

theorem advance_of_some {n : Nat} {p : Progress} {effects : List Effect}
    (h : nextEvent peer p.state p.reads i = some e) (he : m.step p.state e = some (t, effects)) :
    m.advance peer false i (n + 1) p = m.advance peer false i n
      ⟨t, readsAfter peer p.reads p.state e, p.effects ++ effects⟩ := by
  rw [advance]
  simp only [h, he, Bool.false_and, Bool.false_eq_true, if_false]

/-- **A call that owes something is followed to its return.** -/
theorem advance_lasts {n : Nat} {p : Progress} (hs : m.Reachable p.state)
    (hc : p.state.calls i = some c) (h : Owes m peer i p.state M p.reads c result opened)
    (hn : p.state.toReturn peer p.reads i c ≤ n) :
    ∃ failed opened', Lasts m peer i p.state p.reads failed opened'
      (m.advance peer false i n p).state := by
  induction n generalizing p c M opened with
  | zero =>
    exact ⟨[], [], .returned hc (State.hasReturned_of_toReturn (Nat.le_zero.1 hn))⟩
  | succ n ih =>
    cases hret : c.hasReturned with
    | true =>
      rw [advance_of_none (nextEvent_of_hasReturned hc hret)]
      exact ⟨[], [], .returned hc hret⟩
    | false =>
      obtain ⟨e, t, effects, hnext, he, hown | ⟨x, hx, hreads, hcalls, hlt⟩⟩ :=
        h.progress hs hc hret
      · obtain ⟨c', opened', hcalls, howes, -, hlt⟩ := h.own hs hc hnext hown he
        rw [advance_of_some hnext he]
        obtain ⟨failed, opened'', hlasts⟩ := ih (p := ⟨t, _, _⟩) (.step hs he)
          (by rw [hcalls, assign_same]) howes (Nat.le_of_lt_succ (Nat.lt_of_lt_of_le hlt hn))
        exact ⟨failed, _, .own hnext hown he hlasts⟩
      · obtain ⟨b, b', hb, rfl, hr⟩ := session_event hx he
        rw [advance_of_some hnext he, hreads]
        obtain ⟨failed, opened'', hlasts⟩ := ih (p := ⟨_, p.reads, _⟩) (.step hs he) hc
          (h.event hb hr) (Nat.le_of_lt_succ (Nat.lt_of_lt_of_le hlt hn))
        exact ⟨_, _, .event hx he hlasts⟩

theorem nextEvent_start {r : Request} (hc : s.calls i = some r.start) :
    nextEvent peer s reads i = some (.proceed i) := by
  unfold nextEvent
  cases r <;> rw [hc] <;> rfl

/-- The first look at the table is never put off. -/
theorem step_start {r : Request} (m : Manager) (hc : s.calls i = some r.start) :
    (m.step s (.proceed i)).isSome = true := by
  cases r <;> simp only [step, proceed, hc, Request.start] <;> rfl

theorem toReturn_start_le (s : State) (i : CallId) (r : Request) (peer : Peer) :
    s.toReturn peer [] i r.start ≤ enough s r peer := by
  cases r <;> simp only [Request.start, State.toReturn, enough] <;> omega

theorem complete_eq_advance {r : Request} {n : Nat} {effects : List Effect} (hi : s.calls i = none)
    (hlook : m.step (s.setCall i r.start) (.proceed i) = some (t, effects))
    (hn : enough s r peer = n + 1) :
    m.complete s i r peer = m.advance peer false i n ⟨t, [], effects⟩ := by
  have hcall : m.step s (.call i r) = some (s.setCall i r.start, []) := if_pos hi
  have henough : enough (s.setCall i r.start) r peer = n + 1 := hn
  rw [Manager.complete, hcall]
  simp only
  rw [henough, advance_of_some (nextEvent_start (assign_same _ _ _)) hlook]
  rfl

/-- **Every call returns**, whatever its connection meets with. -/
theorem History.complete {h : List Ledger.Entry} (hh : History m h s) (hi : s.calls i = none)
    (r : Request) (peer : Peer) :
    ∃ result opened, ∃ meanwhile : List CallId,
      History m (h ++ .call i r peer result opened :: meanwhile.map .failure)
        (m.complete s i r peer).state := by
  have hx := hh.explained
  have hcall : m.step s (.call i r) = some (s.setCall i r.start, []) := if_pos hi
  have hs : m.Reachable (s.setCall i r.start) := .step hx.reachable hcall
  have hc : (s.setCall i r.start).calls i = some r.start := assign_same _ _ _
  have honly := hx.idle.only_of_setCall i r.start
  obtain ⟨⟨t, effects⟩, hlook⟩ := Option.isSome_iff_exists.1 (step_start m hc)
  obtain ⟨c, opened', hcalls, howes, -, hlt⟩ := GoesOn.of_look peer hs honly hc hlook
  have hfuel := Nat.lt_of_lt_of_le hlt (toReturn_start_le _ i r peer)
  obtain ⟨n, hn⟩ := Nat.exists_eq_add_one_of_ne_zero (Nat.ne_of_gt (Nat.zero_lt_of_lt hfuel))
  obtain ⟨failed, opened, hlasts⟩ := advance_lasts (p := ⟨t, [], effects⟩) (.step hs hlook)
    (by rw [hcalls, assign_same]) howes (Nat.le_of_lt_succ (hn ▸ hfuel))
  have hhistory := History.call hh hcall .done hlook hlasts
  rw [List.map_nil, List.append_nil] at hhistory
  rw [complete_eq_advance hi hlook hn]
  exact ⟨_, _, failed, hhistory⟩

/-- **The manager is a ledger** for whoever makes one call at a time, whatever fails meanwhile and
whatever Core answers. Each call gives what the ledger says, opens the connections that it says,
and leaves the ledger that it says; a login is accepted just when Core does so on the wire; the
ledger's sessions are sessions of their users; queries tell who has a session alive, each user
once; a call of one user leaves all others alone, and a failure keeps the entry; and every call
returns. -/
theorem History.acts_as_ledger {h : List Ledger.Entry} (hh : History m h t) :
    Ledger.empty.Explains m h ∧
    t.ledger = Ledger.empty.after m h ∧
    (∀ u p peer, m.accepts u p peer = true ↔ m.LoginAccepted u p peer) ∧
    (∀ u x live, t.ledger u = some (x, live) →
      ∃ a, t.sessions x = some a ∧ a.username = u ∧ a.live = live) ∧
    (∀ u x, t.liveSession? u = some x ↔ t.ledger u = some (x, true)) ∧
    (∀ u, t.hasSession u = true ↔ ∃ x, t.ledger u = some (x, true)) ∧
    t.online.Nodup ∧ (∀ u, u ∈ t.online ↔ ∃ x, t.ledger u = some (x, true)) ∧
    (∀ i r peer u v, r.start.username? = some u → v ≠ u →
      (t.ledger.call m i peer r).ledger v = t.ledger v) ∧
    (∀ x u, t.ledger.fail x u =
      if (t.ledger u).map Prod.fst = some x then some (x, false) else t.ledger u) ∧
    ∀ i r peer, t.calls i = none → ∃ result opened, ∃ meanwhile : List CallId,
      History m (h ++ .call i r peer result opened :: meanwhile.map .failure)
        (m.complete t i r peer).state := by
  have hx := hh.explained
  refine ⟨hx.explains, hx.ledger, fun _ _ _ => accepts_iff, fun u x live hu => ?_, fun u x => ?_,
    fun u => ?_, t.online_nodup, fun u => ?_, fun i r peer u v hr hv => ?_, fun x u => ?_,
    fun i r peer hi => ?_⟩
  · obtain ⟨hlisted, hlive⟩ := State.ledger_eq_some_iff.1 hu
    obtain ⟨a, ha, hau⟩ := hx.reachable.custody.listed hlisted
    refine ⟨a, ha, hau, ?_⟩
    rw [← hlive, State.isLive, ha, Option.any_some]
  · rw [State.liveSession?_eq, Ledger.session?_eq_some_iff]
  · exact State.hasSession_iff
  · exact State.mem_online_iff
  · exact Ledger.call_other m _ i peer u hr hv
  · exact Ledger.fail_apply _ x u
  · exact hh.complete hi r peer

/-- A login is accepted, its connection fails, and the next login of the user, which cannot
connect, leaves no session. -/
theorem ledger_of_lost_session : ∃ peer peer' t,
    History .loopback [.call 0 (.create "u" "p") peer (some 0) [0], .failure 0,
      .call 1 (.create "u" "p") peer' none []] t ∧
    Ledger.empty.Explains .loopback [.call 0 (.create "u" "p") peer (some 0) [0],
      .failure 0, .call 1 (.create "u" "p") peer' none []] ∧
    t.ledger "u" = none ∧ "u" ∉ t.online := by
  let peer : Peer := ⟨.opened, fun _ => .done, fun _ => [.bytes 70 [83, 88, 49, 1, 13, 0, 0, 0, 15,
    0, 0, 1, 0, 0, 0, 0, 0, 0, 0, 0, 0, 0, 0, 0, 0, 0]]⟩
  let peer' : Peer := ⟨.failed .refused, fun _ => .done, fun _ => []⟩
  have accepted := @History.call .loopback [] 0 (.create "u" "p") peer {}
    _ _ _ _ _ _ _ _ _ .start rfl .done rfl <|
    .own rfl rfl rfl <| .own rfl rfl rfl <| .own rfl rfl rfl <| .own rfl rfl rfl <|
    .own rfl rfl rfl <| .own rfl rfl rfl <| .own rfl rfl rfl <| .own rfl rfl rfl <|
    .returned rfl rfl
  have failed := History.rest accepted <| .event (e := .inbound 0 .closed) rfl rfl <|
    .event (e := .keepAlive 0) rfl rfl .done
  have hh := @History.call .loopback _ 1 (.create "u" "p") peer' _
    _ _ _ _ _ _ _ _ _ failed rfl .done rfl <|
    .own rfl rfl rfl <| .own rfl rfl rfl <| .own rfl rfl rfl <| .own rfl rfl rfl <|
    .own rfl rfl rfl <| .own rfl rfl rfl <| .own rfl rfl rfl <| .own rfl rfl rfl <|
    .own rfl rfl rfl <| .returned rfl rfl
  refine ⟨peer, peer', _, hh, hh.acts_as_ledger.1, rfl, fun hu => ?_⟩
  obtain ⟨x, hx⟩ := (hh.acts_as_ledger.2.2.2.2.2.2.2.1 "u").1 hu
  cases hx

end Manager

end Corelink
