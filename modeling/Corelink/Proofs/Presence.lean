import Corelink.Proofs.Connection.Exchange
import Corelink.Proofs.OnlineUsers
import Corelink.Proofs.Session.Ledger
import Corelink.Rehearsal.World

/-!
# Everyone online

Presence is the canonical list of Core's names and of the users with a live session, or of the
latter alone where the query has failed (`Presence.shows_merge`). The query succeeds just when each
part of it does (`Client.onlineList_eq_ok_iff`), so whatever else happens on its connection, those
who have a live session are shown; and asking leaves the sessions alone
(`Rehearsal.World.state_actAll`).
-/

namespace Corelink

open Wire

/-! ### Presence -/

namespace Presence

/-- What is shown as online, given what came of asking Core and which sessions there are. -/
structure Shows (core : Except CallError (List String)) (s : Manager.State) (o : OnlineUsers) :
    Prop where
  ascending : o.usernames.Pairwise fun u v => Utf8.encode u < Utf8.encode v
  count : o.count = o.usernames.length
  union : ∀ users, core = .ok users → ∀ u, u ∈ o.usernames ↔ u ∈ users ∨ s.hasSession u = true
  alone : ∀ e, core = .error e → ∀ u, u ∈ o.usernames ↔ s.hasSession u = true
  /-- Nobody with a live session is hidden. -/
  live : ∀ u, s.hasSession u = true → u ∈ o.usernames
  /-- A session that has died shows nobody, unless Core does. -/
  dead : ∀ u x, s.table.get? u = some x → s.isLive x = false → u ∈ o.usernames →
    ∃ users, core = .ok users ∧ u ∈ users

theorem mem_online {s : Manager.State} {u : String} : u ∈ s.online ↔ s.hasSession u = true := by
  rw [Manager.State.mem_online_iff, Manager.State.hasSession_iff]

theorem shows_merge (core : Except CallError (List String)) (s : Manager.State) :
    Shows core s (merge core s.online).1 := by
  have hdead : ∀ u x, s.table.get? u = some x → s.isLive x = false → ¬ s.hasSession u = true := by
    intro u x hx hdead hu
    obtain ⟨y, hy⟩ := Manager.State.hasSession_iff.1 hu
    obtain ⟨hy, hlive⟩ := Manager.State.ledger_eq_some_iff.1 hy
    rw [hx] at hy
    cases hy
    rw [hdead] at hlive
    cases hlive
  cases core with
  | ok users =>
    have hmem : ∀ u, u ∈ (OnlineUsers.ofList (users ++ s.online)).usernames ↔
        u ∈ users ∨ s.hasSession u = true := by
      intro u
      show u ∈ OnlineUsers.canonical _ ↔ _
      rw [OnlineUsers.mem_canonical, List.mem_append, mem_online]
    exact {
      ascending := OnlineUsers.ascending_canonical _
      count := rfl
      union := fun _ h => Except.ok.inj h ▸ hmem
      alone := nofun
      live := fun u hu => (hmem u).2 (.inr hu)
      dead := fun u x hx hlive hu =>
        ⟨users, rfl, ((hmem u).1 hu).resolve_right (hdead u x hx hlive)⟩ }
  | error e =>
    have hmem : ∀ u, u ∈ (OnlineUsers.ofList s.online).usernames ↔ s.hasSession u = true := by
      intro u
      show u ∈ OnlineUsers.canonical _ ↔ _
      rw [OnlineUsers.mem_canonical, mem_online]
    exact {
      ascending := OnlineUsers.ascending_canonical _
      count := rfl
      union := nofun
      alone := fun _ _ => hmem
      live := fun u hu => (hmem u).2 hu
      dead := fun u x hx hlive hu => absurd ((hmem u).1 hu) (hdead u x hx hlive) }

end Presence

/-! ### The query -/

theorem Client.onlineList_eq_ok_iff {c : Client} {timeout : Nat} {peer : Peer}
    {users : List String} :
    (c.onlineList timeout peer).result = .ok users ↔
      ∃ reply,
        Terms.Gets ⟨c.address, timeout⟩ .onlineListRequest .onlineListResponse [] peer reply ∧
        OnlineListResponse.decode reply = .ok ⟨users⟩ := by
  show (c.ask _ _ _ OnlineListResponse.decode _).result >>= (fun m => .ok m.usernames) = _ ↔ _
  simp only [bind_eq_ok_iff, ask_eq_ok_iff]
  constructor
  · rintro ⟨m, ⟨_, _, reply, ⟨⟩, ⟨⟩, hgets, hd⟩, ⟨⟩⟩
    exact ⟨reply, hgets, hd⟩
  · rintro ⟨reply, hgets, hd⟩
    exact ⟨⟨users⟩, ⟨[], .onlineListResponse, reply, rfl, rfl, hgets, hd⟩, rfl⟩

namespace Rehearsal.World

@[simp] theorem state_note (w : World) (ns : List Notice) : (w.note ns).state = w.state := by
  funext side
  cases side <;> rfl

@[simp] theorem state_act (w : World) (a : Action) : (w.act a).state = w.state := by
  funext side
  unfold act
  split <;> cases side <;> rfl

@[simp] theorem state_actAll (w : World) (as : List Action) : (w.actAll as).state = w.state := by
  induction as generalizing w with
  | nil => rfl
  | cons a as ih => exact (ih (w.act a)).trans (state_act w a)

end Rehearsal.World

open Presence in
/-- **Presence never fails and never hides anybody who has a live session.** -/
theorem everyone_online_shown :
    (∀ (g : Gateway) (peer : Peer) (s : Manager.State),
      Shows (g.client.onlineList g.presenceTimeout peer).result s (g.getOnline peer s).1) ∧
    (∀ (c : Client) (timeout : Nat) (peer : Peer) (users : List String),
      (c.onlineList timeout peer).result = .ok users ↔ ∃ reply,
        Terms.Gets ⟨c.address, timeout⟩ .onlineListRequest .onlineListResponse [] peer reply ∧
          OnlineListResponse.decode reply = .ok ⟨users⟩) ∧
    ∀ w : Rehearsal.World,
      (Shows (w.gateway.client.onlineList w.gateway.presenceTimeout
          (w.peer w.gateway.presenceTimeout)).result w.gatewaySessions w.getOnline.1 ∧
        w.getOnline.2.state = w.state) ∧
      ∀ (source : Option (Except CallError (List String))) (timeout : Nat),
        Shows (source.getD (w.settings.client.onlineList timeout (w.peer timeout)).result)
          w.sessions (w.presence source timeout).1 ∧
        (w.presence source timeout).2.state = w.state := by
  refine ⟨fun g peer s => shows_merge _ s, fun _ _ _ _ => Client.onlineList_eq_ok_iff,
    fun w => ⟨⟨shows_merge _ _, ?_⟩, fun source timeout => ?_⟩⟩
  · show ((w.actAll _).note _).state = _
    rw [Rehearsal.World.state_note, Rehearsal.World.state_actAll]
  · cases source with
    | some core => exact ⟨shows_merge core _, Rehearsal.World.state_note _ _⟩
    | none =>
      have hstate := w.state_actAll (w.settings.client.onlineList timeout (w.peer timeout)).actions
      have hsessions : (w.actAll _).sessions = w.sessions := congrFun hstate .manager
      refine ⟨?_, (Rehearsal.World.state_note _ _).trans hstate⟩
      rw [← hsessions]
      exact shows_merge _ _

end Corelink
