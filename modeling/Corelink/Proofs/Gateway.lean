import Corelink.Proofs.Connection.Footprint
import Corelink.Proofs.Session.Alone

/-!
# Logging in through the gateway

A login gives Core's answer to the probe, whatever becomes of the session behind it. If the probe is
not accepted, nothing is done for a session; if it is, one `create` of the user follows, whose
connection is treated on its own, and what the manager's `create` does is what the login does
(`Gateway.ReportsProbe`). So whether the user has a session afterwards is settled by whether there
was one before and by Core's second answer, and not by the probe
(`Gateway.login_reports_probe`).
-/

namespace Corelink

open Wire

/-- Whether the answer to a login is that it is accepted. -/
def Answer.accepted (a : Answer LoginResponse) : Bool :=
  match a.result with
  | .ok r => r.ok
  | .error _ => false

namespace Gateway

variable {g : Gateway} {probe : Answer LoginResponse} {timeout : Nat} {m : LoginRequest}
  {peer : Peer} {link : List Action → Peer} {s : Manager.State} {i : CallId}

/-! ### Behind the probe -/

theorem follow_of_refused (h : probe.accepted = false) :
    (g.follow probe m peer s i).state = s ∧ openings (g.follow probe m peer s i).effects = [] := by
  unfold Answer.accepted at h
  unfold follow
  split
  · exact ⟨rfl, rfl⟩
  · next r hr =>
    rw [hr] at h
    rw [if_neg (Bool.eq_false_iff.1 h)]
    exact ⟨rfl, rfl⟩

theorem follow_of_accepted (h : probe.accepted = true) :
    (g.follow probe m peer s i).state =
        (g.sessions.complete s i (.create m.username m.password) peer).state ∧
      openings (g.follow probe m peer s i).effects =
        openings (g.sessions.complete s i (.create m.username m.password) peer).effects := by
  unfold Answer.accepted at h
  unfold follow
  split
  · next e hr =>
    rw [hr] at h
    cases h
  · next r hr =>
    rw [hr] at h
    simp only at h
    simp only [h, if_true, noteMissing]
    split
    · exact ⟨rfl, rfl⟩
    · exact ⟨rfl, (openings_append _ _).trans (List.append_nil _)⟩

/-! ### Logins -/

/-- What a login in `s` comes to, if the call that it makes has the number `i`. -/
structure ReportsProbe (g : Gateway) (timeout : Nat) (m : LoginRequest) (peer : Peer)
    (link : List Action → Peer) (s : Manager.State) (i : CallId) (l : Login) : Prop where
  /-- It gives the answer to the probe. -/
  probe : l.probe = g.client.login timeout m peer
  /-- The probe makes one attempt on a connection of its own, unless a field is too long. -/
  once : OneShot ((overlong m.fields).map .validation)
    (Terms.attempt ⟨g.client.address, timeout⟩ peer.dial) l.probe
  reachable : g.sessions.Reachable l.progress.state
  /-- Without an accepted probe that is all. -/
  refused : l.probe.accepted = false →
    l.progress.state = s ∧ openings l.progress.effects = []
  /-- The sessions of other users stay as they are. -/
  elsewhere : ∀ v, v ≠ m.username → l.progress.state.table.get? v = s.table.get? v
  /-- At most one other connection is opened, and none for a user with a live session. -/
  opened : openings l.progress.effects = [] ∨ openings l.progress.effects = [i] ∧
    l.probe.accepted = true ∧ s.hasSession m.username = false
  /-- With no other call on its way, the login ends, and the user has a session if there was one
  before or Core has accepted the second login. -/
  settled : s.Idle → l.probe.accepted = true → l.progress.state.Idle ∧
    (l.progress.state.hasSession m.username = true ↔ s.hasSession m.username = true ∨
      g.sessions.LoginAccepted m.username m.password (link l.probe.actions))

end Gateway

namespace Manager

variable {m : Manager} {s t : State} {i : CallId} {u p : String} {peer : Peer}
  {result : Option CallId}

theorem Paid.hasSession_iff
    (h : Paid m i s t (s.ledger.call m i peer (.create u p)).ledger result) :
    t.hasSession u = true ↔ s.hasSession u = true ∨ m.LoginAccepted u p peer := by
  rw [State.hasSession_iff, State.hasSession_iff, h.ledger, ← accepts_iff]
  cases hlive : s.ledger.session? u with
  | some x =>
    have hx := Ledger.session?_eq_some_iff.1 hlive
    rw [Ledger.call_of_session _ _ _ _ _ hlive]
    exact ⟨.inl, fun _ => ⟨x, hx⟩⟩
  | none =>
    have hnone : ¬∃ x, s.ledger u = some (x, true) := by
      rintro ⟨x, hx⟩
      rw [Ledger.session?_eq_some_iff.2 hx] at hlive
      cases hlive
    rw [Ledger.call_of_none _ _ _ _ _ hlive]
    simp only [assign_same, hnone, false_or]
    split
    · next hyes => exact ⟨fun _ => hyes, fun _ => ⟨i, rfl⟩⟩
    · next hno =>
      constructor
      · rintro ⟨x, hx⟩
        cases hx
      · exact fun hyes => absurd hyes hno

theorem Reachable.pays_beside {s₀ s₁ s₂ : State} {effects₀ effects : List Effect}
    {opened : List CallId} (hs : m.Reachable s) (hidle : s.Idle)
    (hcall : m.step s (.call i (.create u p)) = some (s₀, effects₀)) (hwait : Rests m s₀ [] s₁)
    (hlook : m.step s₁ (.proceed i) = some (s₂, effects))
    (hlasts : Lasts m peer i s₂ [] [] opened t) :
    ∃ result, Paid m i s t (s.ledger.call m i peer (.create u p)).ledger result := by
  have hs₀ := Reachable.step hs hcall
  rw [eq_setCall_of_call hcall] at hs₀ hwait
  obtain ⟨hs₁, hcalls₁, hledger₁⟩ := hwait.keeps hs₀
  have hc : s₁.calls i = some (Request.create u p).start := by
    rw [hcalls₁, State.setCall_calls, assign_same]
  have honly : s₁.Only i := (hidle.only_of_setCall i _).of_calls_eq hcalls₁
  obtain ⟨c, opened', hcalls₂, howes, -, -⟩ := GoesOn.of_look peer hs₁ honly hc hlook
  obtain ⟨hpaid, -⟩ := hlasts.pays (.step hs₁ hlook) (by rw [hcalls₂, assign_same]) howes
  rw [hledger₁, Ledger.failAll_nil, Ledger.failAll_nil, State.ledger_setCall] at hpaid
  refine ⟨_, hpaid.after fun j hj => ?_⟩
  rw [hcalls₂, assign_ne _ _ hj, hcalls₁, State.setCall_calls, assign_ne _ _ hj]

end Manager

namespace Gateway

variable {g : Gateway} {s : Manager.State} {i : CallId}

open Manager (State Event Reachable Rests Lasts)

theorem ReportsProbe.of_login (timeout : Nat) (m : LoginRequest) (peer : Peer)
    (link : List Action → Peer) (hs : g.sessions.Reachable s) (hi : s.calls i = none) :
    ReportsProbe g timeout m peer link s i (g.login timeout m peer link s i) := by
  have honce : OneShot ((overlong m.fields).map .validation)
      (Terms.attempt ⟨g.client.address, timeout⟩ peer.dial) (g.client.login timeout m peer) :=
    g.client.oneShot_ask timeout .loginRequest peer LoginResponse.decode m.encodesFields rfl
  cases hprobe : (g.login timeout m peer link s i).probe.accepted with
  | false =>
    have hrefused : (g.login timeout m peer link s i).progress.state = s ∧
        openings (g.login timeout m peer link s i).progress.effects = [] :=
      follow_of_refused hprobe
    obtain ⟨hstate, hopened⟩ := hrefused
    refine ⟨rfl, honce, by rwa [hstate], fun _ => ⟨hstate, hopened⟩, fun v _ => by rw [hstate],
      .inl hopened, fun _ hyes => ?_⟩
    rw [hprobe] at hyes
    cases hyes
  | true =>
    let q := g.sessions.complete s i (.create m.username m.password)
      (link (g.login timeout m peer link s i).probe.actions)
    have hfollow : (g.login timeout m peer link s i).progress.state = q.state ∧
        openings (g.login timeout m peer link s i).progress.effects = openings q.effects :=
      follow_of_accepted hprobe
    obtain ⟨hstate, heffects⟩ := hfollow
    have honward := hs.complete_onward hi m.username m.password
      (link (g.login timeout m peer link s i).probe.actions)
    refine ⟨rfl, honce, hstate ▸ honward.reachable, fun hno => ?_,
      fun v hv => hstate ▸ honward.elsewhere v hv, ?_, fun hidle _ => ?_⟩
    · rw [hprobe] at hno
      cases hno
    · rw [heffects]
      cases hlive : s.hasSession m.username with
      | true => exact .inl (Manager.complete_of_hasSession hi hlive)
      | false => exact honward.opened.imp_right fun hopened => ⟨hopened, hprobe, rfl⟩
    · obtain ⟨hpaid, -⟩ := hs.complete_pays hidle hi (.create m.username m.password)
        (link (g.login timeout m peer link s i).probe.actions)
      rw [hstate]
      exact ⟨hpaid.idle fun j c _ => hidle j c, hpaid.hasSession_iff⟩

/-- **The gateway's login reports the probe and nothing else.** Whatever the state, the credentials,
the timeout and the ways in which Core treats both connections, its answer is the answer to the
probe (`ReportsProbe`). The login of the session, which follows an accepted probe, leaves other
users alone in each of its steps and connects only while its user has no session, whatever other
calls there are. Without other calls, and with keep-alives beside it of which none fails, the user
has a session in the end if and only if there was one or Core has accepted the second login. -/
theorem login_reports_probe (g : Gateway) :
    (∀ timeout m peer link s i, g.sessions.Reachable s → s.calls i = none →
      ReportsProbe g timeout m peer link s i (g.login timeout m peer link s i)) ∧
    (∀ i u p a s t e effects, g.sessions.Reachable s → s.calls i = some (.create u p a) →
      Event.call? e = some i → g.sessions.step s e = some (t, effects) →
      (∀ v, v ≠ u → t.table.get? v = s.table.get? v) ∧
      (openings effects = [] ∨ openings effects = [i] ∧ s.table.get? u = none)) ∧
    ∀ i u p peer s s₀ s₁ s₂ t effects₀ effects opened, g.sessions.Reachable s → State.Idle s →
      g.sessions.step s (.call i (.create u p)) = some (s₀, effects₀) →
      Rests g.sessions s₀ [] s₁ → g.sessions.step s₁ (.proceed i) = some (s₂, effects) →
      Lasts g.sessions peer i s₂ [] [] opened t →
      (t.hasSession u = true ↔ s.hasSession u = true ∨ g.sessions.LoginAccepted u p peer) := by
  refine ⟨fun timeout m peer link s i => .of_login timeout m peer link, ?_, ?_⟩
  · intro i u p a s t e effects hs hc hi he
    refine ⟨fun v => Manager.create_elsewhere hs hc hi he, ?_⟩
    exact (Manager.create_opens hs hc hi he).imp_right fun ⟨hopened, hnone, _⟩ => ⟨hopened, hnone⟩
  · intro i u p peer s s₀ s₁ s₂ t effects₀ effects opened hs hidle hcall hwait hlook hlasts
    obtain ⟨result, hpaid⟩ := hs.pays_beside hidle hcall hwait hlook hlasts
    exact hpaid.hasSession_iff

/-- Core accepts the probe and then the session, so the user has one; and so it is when the steps
of the second login are followed one by one from its first look. -/
theorem accepted_twice : ∃ (g : Gateway) (peer : Peer) (s s' t : State) (effects : List Effect)
    (opened : List CallId),
    (g.login 5000 ⟨"u", "p"⟩ peer (fun _ => peer) {} 0).probe.accepted = true ∧
    (g.login 5000 ⟨"u", "p"⟩ peer (fun _ => peer) {} 0).progress.state.hasSession "u" = true ∧
    g.sessions.step s (.proceed 0) = some (s', effects) ∧
    s'.table.get? "v" = s.table.get? "v" ∧
    Lasts g.sessions peer 0 s' [] [] opened t ∧ t.hasSession "u" = true := by
  let peer : Peer := ⟨.opened, fun _ => .done, fun _ => [.bytes 70 [83, 88, 49, 1, 13, 0, 0, 0, 15,
    0, 0, 1, 0, 0, 0, 0, 0, 0, 0, 0, 0, 0, 0, 0, 0, 0]]⟩
  have hidle : State.Idle {} := fun _ _ h => by cases h
  have hprobe : ((Client.mk "127.0.0.1:9000").login 5000 ⟨"u", "p"⟩ peer).accepted = true := by
    decide +kernel
  have haccepted : Manager.LoginAccepted .loopback "u" "p" peer :=
    Manager.accepts_iff.1 (by decide +kernel)
  have hcall := Reachable.step (m := .loopback) .start
    (e := .call 0 (.create "u" "p")) rfl
  obtain ⟨hlogin, hown, hbeside⟩ :=
    login_reports_probe ⟨⟨"127.0.0.1:9000"⟩, .loopback, 5000, 5000⟩
  have hreports := hlogin 5000 ⟨"u", "p"⟩ peer (fun _ => peer) {} 0 .start rfl
  have hlook := hown 0 "u" "p" .called _ _ (.proceed 0) _ hcall rfl rfl rfl
  have beside {opened t} (hlasts : Lasts .loopback peer 0 _ [] [] opened t) :=
    And.intro hlasts (hbeside 0 "u" "p" peer {} _ _ _ _ _ _ _ .start hidle rfl .done rfl hlasts)
  obtain ⟨hlasts, hsession⟩ := beside <|
    .own rfl rfl rfl <| .own rfl rfl rfl <| .own rfl rfl rfl <| .own rfl rfl rfl <|
    .own rfl rfl rfl <| .own rfl rfl rfl <| .own rfl rfl rfl <| .own rfl rfl rfl <|
    .returned rfl rfl
  exact ⟨⟨⟨"127.0.0.1:9000"⟩, .loopback, 5000, 5000⟩, peer, _, _, _, _, _, hprobe,
    (hreports.settled hidle hprobe).2.2 (.inr haccepted), rfl, hlook.1 "v" (by decide), hlasts,
    hsession.2 (.inr haccepted)⟩

end Gateway

end Corelink
