import Corelink.Proofs.Session.Custody
import Corelink.Proofs.Session.Gates
import Corelink.Proofs.Session.Intake

/-!
# What the manager has of one user

`State.view` leaves of a state what belongs to one user: the entry of the table, the gate, and the
calls and sessions whose numbers are the user's. Where the numbers of calls are those of their users
(`Numbered`), all that a call has to do with bears a number of its user (`Reachable.owned`), so it
is there in the view. Only the sizes of the table that are told to the operator look at other
users; in a view they are those of a table without them (`Effect.alone`).
-/

namespace Corelink

namespace Directory

variable {α : Type} (d : Directory α) {u v : String} (a : α)

/-- The entry of `u`, if there is one, and no other. -/
def only (d : Directory α) (u : String) : Directory α :=
  { entries := d.entries.filter (·.1 = u)
    nodup := d.nodup.sublist (List.filter_sublist.map _) }

theorem get?_only (u v : String) : (d.only u).get? v = if v = u then d.get? v else none := by
  unfold get? only
  rw [List.find?_filter]
  split
  · next h =>
    subst h
    congr 2
    funext e
    simp
  · next h =>
    rw [List.find?_eq_none.2]
    · rfl
    · simp +contextual [Ne.symm h]

theorem only_erase_self : (d.erase u).only u = (d.only u).erase u := by
  simp only [only, erase, List.filter_filter, Bool.and_comm]

theorem only_erase_of_ne (h : v ≠ u) : (d.erase v).only u = d.only u := by
  simp only [only, erase, mk.injEq, List.filter_filter]
  refine List.filter_congr fun e _ => ?_
  by_cases he : e.1 = u
  · simp [he, h.symm]
  · simp [he]

theorem only_insert_self : (d.insert u a).only u = (d.only u).insert u a := by
  have herase := congrArg entries (d.only_erase_self (u := u))
  simp only [only] at herase
  simp [only, insert, herase]

theorem only_insert_of_ne (h : v ≠ u) : (d.insert v a).only u = d.only u := by
  have herase := congrArg entries (d.only_erase_of_ne h)
  simp only [only] at herase
  simp [only, insert, herase, h]

theorem entries_erase_only : ((d.only u).erase u).entries = [] := by
  simp [only, erase, List.filter_filter]

theorem size_erase_only : ((d.only u).erase u).size = 0 := by
  rw [size, entries_erase_only, List.length_nil]

theorem size_insert_only : ((d.only u).insert u a).size = 1 := by
  show (((d.only u).erase u).entries ++ [(u, a)]).length = 1
  rw [entries_erase_only]
  rfl

end Directory

/-! ### One user alone -/

/-- The notice, where no other user has a session. -/
def Notice.alone : Notice → Notice
  | sessionCreated u id _ => sessionCreated u id 1
  | sessionRemoved u wasLive _ => sessionRemoved u wasLive 0
  | n => n

/-- The effect, where no other user has a session. -/
def Effect.alone : Effect → Effect
  | noted n => noted n.alone
  | f => f

/-- The call, where no other user has a session. -/
def Call.alone : Call → Call
  | remove u (.found x _) => remove u (.found x 0)
  | remove u (.closing x next wasLive _) => remove u (.closing x next wasLive 0)
  | c => c

namespace Call

@[simp] theorem alone_start (r : Request) : r.start.alone = r.start := by
  cases r <;> rfl

@[simp] theorem result?_alone (c : Call) : c.alone.result? = c.result? := by
  rcases c with _ | ⟨u, phase⟩ | _
  · rfl
  · cases phase <;> rfl
  · rfl

@[simp] theorem hasReturned_alone (c : Call) : c.alone.hasReturned = c.hasReturned := by
  rcases c with _ | ⟨u, phase⟩ | _
  · rfl
  · cases phase <;> rfl
  · rfl

theorem username?_of_standing {u : String} (c : Call) (h : c.standing.user = some u) :
    c.username? = some u := by
  rcases c with ⟨v, p, phase⟩ | ⟨v, phase⟩ | phase
  · cases phase <;> cases h <;> rfl
  · cases h
  · cases h

end Call

/-! Nothing but a notice tells of other users. -/

theorem Closing.alone_effects {x : CallId} {next : Closing} {a : Session} {r : Closing.Progress}
    (h : next.step x a = some r) : r.effects.map Effect.alone = r.effects := by
  obtain ⟨b, next', effects⟩ := r
  cases does h <;> rfl

namespace Session

variable {a b : Session} {effects : List Effect}

theorem alone_of_proceed (h : a.proceed = some (b, effects)) :
    effects.map Effect.alone = effects := by
  cases proceeds h <;> rfl

theorem alone_of_tick (h : a.tick = some (b, effects)) : effects.map Effect.alone = effects := by
  cases ticks h
  rfl

theorem alone_of_ping {terms : Terms} {x : CallId} {r : WriteResult}
    (h : a.ping terms x r = some (b, effects)) : effects.map Effect.alone = effects := by
  cases pings h
  rfl

theorem alone_of_inbound {x : CallId} {r : ReadResult} (h : a.inbound x r = some (b, effects)) :
    effects.map Effect.alone = effects := by
  cases hears h <;> rfl

end Session

namespace Manager

/-- The number of the call or the session whose event it is. -/
def Event.number : Event → CallId
  | .call i _ | .proceed i | .dial i _ | .write i _ | .read i _ => i
  | .keepAlive x | .tick x | .ping x _ | .inbound x _ => x

/-- Whose number it is. Calls, their sessions and their gates share one numbering. -/
abbrev Owners := CallId → Option String

/-- What a map has at the numbers of user `u`. -/
def mine {α : Type} (o : Owners) (u : String) (f : CallId → α) (other : α) : CallId → α :=
  fun i => if o i = some u then f i else other

/-- What belongs to user `u`, where `o` tells whose numbers they are. -/
def State.view (o : Owners) (u : String) (s : State) : State where
  table := s.table.only u
  logins := s.logins.only u
  gates := mine o u s.gates {}
  sessions := mine o u s.sessions none
  calls := mine o u (fun i => (s.calls i).map Call.alone) none

/-- A state and what led there, as user `u` has it alone. -/
def viewed (o : Owners) (u : String) (r : State × List Effect) : State × List Effect :=
  (r.1.view o u, r.2.map Effect.alone)

/-- The numbers that calls go by are those of their users, and no call is a `shutdown`. -/
def Numbered (o : Owners) (s : State) : Prop :=
  ∀ {i : CallId} {c : Call}, s.calls i = some c → ∃ u, c.username? = some u ∧ o i = some u

/-- All that a user's calls have to do with bears a number of the user. -/
structure Owned (o : Owners) (s : State) : Prop where
  call : Numbered o s
  session : ∀ {x : CallId} {a : Session}, s.sessions x = some a → o x = some a.username
  entry : ∀ {u : String} {x : CallId}, s.table.get? u = some x → o x = some u
  gate : ∀ {u : String} {g : CallId}, s.logins.get? u = some g → o g = some u
  /-- The gate that a `create` holds on to. -/
  held : ∀ {i g : CallId} {c : Call}, s.calls i = some c → c.standing.gate = some g → o g = o i
  /-- The sessions that a call has in its hands. -/
  hands : ∀ {i x : CallId} {c : Call}, s.calls i = some c → x ∈ c.owned i → o x = o i

variable {m : Manager} {s t : State} {o : Owners} {u v p : String} {i x g : CallId}
  {c : Call}

/-- **Numbers stay with their users.** A gate bears the number of a call that has made it, and a
session that of its login. -/
theorem Reachable.owned (hs : m.Reachable s) (h : Numbered o s) : Owned o s := by
  have hcu := hs.custody
  have hg := hs.gated
  have session : ∀ {x : CallId} {a : Session}, s.sessions x = some a → o x = some a.username := by
    intro x a ha
    obtain ⟨p, b, hc, -⟩ := hcu.made ha
    obtain ⟨u, hu, ho⟩ := h hc
    cases hu
    exact ho
  have standing : ∀ {i : CallId} {u : String}, (s.standing i).user = some u → o i = some u := by
    intro i u hu
    cases hc : s.calls i with
    | none =>
      rw [State.standing, hc] at hu
      cases hu
    | some c =>
      rw [State.standing_of_calls hc] at hu
      obtain ⟨v, hv, ho⟩ := h hc
      rw [ho, ← hv, c.username?_of_standing hu]
  have gate : ∀ {u : String} {g : CallId}, s.logins.get? u = some g → o g = some u :=
    fun hu => standing (hg.made hu)
  refine ⟨h, session, ?_, gate, ?_, ?_⟩
  · intro u x hx
    obtain ⟨a, ha, rfl⟩ := hcu.listed hx
    exact session ha
  · intro i g c hc hgate
    rw [← State.standing_of_calls hc] at hgate
    obtain ⟨u, hu, hl⟩ := hg.held hgate
    rw [gate hl, standing hu]
  · intro i x c hc hx
    obtain ⟨a, ha, hu⟩ := hcu.owned hc hx
    obtain ⟨u, hcu, ho⟩ := h hc
    rw [session ha, ho, hu u hcu]

/-! ### The parts of a view -/

theorem mine_assign {α : Type} {f : CallId → α} {other a : α} (hi : o i = some u) :
    mine o u (assign f i a) other = assign (mine o u f other) i a := by
  funext j
  by_cases hj : j = i
  · simp [mine, hj, hi]
  · simp [mine, assign_ne _ _ hj]

theorem mine_assign_of_ne {α : Type} {f : CallId → α} {other a : α} (hi : o i ≠ some u) :
    mine o u (assign f i a) other = mine o u f other := by
  funext j
  by_cases hj : j = i
  · simp [mine, hj, hi]
  · simp [mine, assign_ne _ _ hj]

section Setters

variable (s : State)

theorem map_assign_calls (i : CallId) (c : Call) :
    (fun j => (assign s.calls i (some c) j).map Call.alone) =
      assign (fun j => (s.calls j).map Call.alone) i (some c.alone) := by
  funext j
  simp only [assign_apply]
  split <;> rfl

theorem view_setCall (hi : o i = some u) (c : Call) :
    (s.setCall i c).view o u = (s.view o u).setCall i c.alone := by
  simp only [State.view, State.setCall, map_assign_calls, mine_assign hi]

theorem view_setCall_of_ne (hi : o i ≠ some u) (c : Call) :
    (s.setCall i c).view o u = s.view o u := by
  simp only [State.view, State.setCall, map_assign_calls, mine_assign_of_ne hi]

theorem view_setSession (hx : o x = some u) (a : Session) :
    (s.setSession x a).view o u = (s.view o u).setSession x a := by
  simp only [State.view, State.setSession, mine_assign hx]

theorem view_setSession_of_ne (hx : o x ≠ some u) (a : Session) :
    (s.setSession x a).view o u = s.view o u := by
  simp only [State.view, State.setSession, mine_assign_of_ne hx]

theorem view_setGate (hg : o g = some u) (gate : Gate) :
    (s.setGate g gate).view o u = (s.view o u).setGate g gate := by
  simp only [State.view, State.setGate, mine_assign hg]

theorem view_setGate_of_ne (hg : o g ≠ some u) (gate : Gate) :
    (s.setGate g gate).view o u = s.view o u := by
  simp only [State.view, State.setGate, mine_assign_of_ne hg]

theorem view_erase (u : String) : { s with table := s.table.erase u }.view o u =
    { s.view o u with table := (s.view o u).table.erase u } := by
  simp only [State.view, Directory.only_erase_self]

theorem view_erase_of_ne (hv : v ≠ u) :
    { s with table := s.table.erase v }.view o u = s.view o u := by
  simp only [State.view, Directory.only_erase_of_ne _ hv]

theorem view_insert (u : String) (x : CallId) : { s with table := s.table.insert u x }.view o u =
    { s.view o u with table := (s.view o u).table.insert u x } := by
  simp only [State.view, Directory.only_insert_self]

theorem view_insert_of_ne (hv : v ≠ u) (x : CallId) :
    { s with table := s.table.insert v x }.view o u = s.view o u := by
  simp only [State.view, Directory.only_insert_of_ne _ _ hv]

end Setters

section Looks

theorem view_calls (s : State) (hi : o i = some u) :
    (s.view o u).calls i = (s.calls i).map Call.alone :=
  if_pos hi

theorem view_sessions (s : State) (hx : o x = some u) : (s.view o u).sessions x = s.sessions x :=
  if_pos hx

theorem view_gates (s : State) (hg : o g = some u) : (s.view o u).gates g = s.gates g :=
  if_pos hg

theorem view_table_get? (s : State) (u : String) :
    (s.view o u).table.get? u = s.table.get? u := by
  rw [State.view, Directory.get?_only, if_pos rfl]

theorem view_logins_get? (s : State) (u : String) :
    (s.view o u).logins.get? u = s.logins.get? u := by
  rw [State.view, Directory.get?_only, if_pos rfl]

theorem view_isLive (s : State) (hx : o x = some u) : (s.view o u).isLive x = s.isLive x := by
  rw [State.isLive, State.isLive, view_sessions s hx]

theorem Owned.liveSession?_view (h : Owned o s) (u : String) :
    (s.view o u).liveSession? u = s.liveSession? u := by
  unfold State.liveSession?
  rw [view_table_get?]
  cases hx : s.table.get? u with
  | none => rfl
  | some x => simp only [Option.filter, view_isLive s (h.entry hx)]

end Looks

end Manager

end Corelink
