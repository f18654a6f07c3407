import Corelink.Proofs.Session.Shift
import Corelink.Session.Alone

/-!
# The ledger

What the manager comes to for somebody who makes one call at a time: under each username at most
one session, alive or not. `Ledger.call` says what a call does to the ledger, what it gives and
which connections it opens; whether Core accepts a login is what a one-shot login with the same
`Peer` comes to. `State.ledger` reads the ledger off a state, and the queries of a state are
questions to its ledger.
-/

namespace Corelink

open Wire

/-- The connection that was opened. -/
def Effect.opened? : Effect → Option CallId
  | .opened i => some i
  | _ => none

/-- The connections that were opened. -/
def openings (effects : List Effect) : List CallId :=
  effects.filterMap Effect.opened?

@[simp] theorem openings_nil : openings [] = [] := rfl

@[simp] theorem openings_append (xs ys : List Effect) :
    openings (xs ++ ys) = openings xs ++ openings ys :=
  List.filterMap_append

/-- The session of each user, and whether it is alive. -/
abbrev Ledger := String → Option (CallId × Bool)

namespace Manager

/-- A login with these credentials on a connection of its own, which is closed afterwards. -/
def trial (m : Manager) (u p : String) (peer : Peer) : Answer LoginResponse :=
  (Client.mk m.address).login m.settings.handshakeTimeout.toNat ⟨u, p⟩ peer

/-- Whether the exchange gives an answer that can be decoded, and that accepts the login. -/
def accepts (m : Manager) (u p : String) (peer : Peer) : Bool :=
  match (m.trial u p peer).result with
  | .ok login => login.ok
  | .error _ => false

/-- The same on the wire: the login is sent on an open connection, and the first frame that comes
back is a LOGIN_RESP that can be decoded and says so (`accepts_iff`). -/
def LoginAccepted (m : Manager) (u p : String) (peer : Peer) : Prop :=
  ∃ payload frame f rest login, (LoginRequest.mk u p).encode = .ok payload ∧
    m.handshakeTerms.attempt peer.dial = .opened ∧
    Frame.encode .loginRequest payload = .ok frame ∧ peer.write frame = .done ∧
    (receive m.handshakeTerms {} (peer.reads frame)).1 = .ok (f, rest) ∧
    f.header.type = MessageType.loginResponse.code ∧
    LoginResponse.decode f.payload = .ok login ∧ login.ok = true

/-- Whether the exchange gets as far as an open connection. -/
def opens (m : Manager) (u p : String) (peer : Peer) : Bool :=
  (m.trial u p peer).actions.contains (.dialled .opened)

end Manager

namespace Ledger

def empty : Ledger := fun _ => none

/-- The session of a user, if it is alive. -/
def session? (M : Ledger) (u : String) : Option CallId :=
  match M u with
  | some (x, true) => some x
  | _ => none

/-- The connection of session `x` fails. -/
def fail (M : Ledger) (x : CallId) : Ledger :=
  fun u => (M u).map fun e => if e.1 = x then (x, false) else e

/-- Sessions fail one after another. -/
def failAll (M : Ledger) (xs : List CallId) : Ledger :=
  xs.foldl fail M

/-- The ledger after a call, what the call gives, and the connections that it opens. -/
structure Outcome where
  ledger : Ledger
  result : Option CallId := none
  opened : List CallId := []

/-- Call `i`, with its connection treated as `peer` says. A session bears the number of the call
that made it, and so does a connection. -/
def call (m : Manager) (M : Ledger) (i : CallId) (peer : Peer) : Request → Outcome
  | .create u p =>
    match M.session? u with
    | some x => { ledger := M, result := some x }
    | none =>
      let opened := if m.opens u p peer then [i] else []
      if m.accepts u p peer then ⟨assign M u (some (i, true)), some i, opened⟩
      else ⟨assign M u none, none, opened⟩
  | .remove u => { ledger := assign M u none }
  | .shutdown => { ledger := .empty }

section
variable (m : Manager) (M : Ledger) (i x : CallId) (peer : Peer) (u p : String)

@[simp] theorem failAll_nil : M.failAll [] = M := rfl

@[simp] theorem failAll_cons (xs : List CallId) : M.failAll (x :: xs) = (M.fail x).failAll xs := rfl

@[simp] theorem failAll_append (xs ys : List CallId) :
    M.failAll (xs ++ ys) = (M.failAll xs).failAll ys :=
  List.foldl_append

theorem fail_apply :
    M.fail x u = if (M u).map Prod.fst = some x then some (x, false) else M u := by
  unfold fail
  cases M u with
  | none => simp
  | some e => by_cases h : e.1 = x <;> simp [h]

@[simp] theorem fail_empty : empty.fail x = empty := rfl

@[simp] theorem failAll_empty (xs : List CallId) : empty.failAll xs = empty := by
  induction xs with
  | nil => rfl
  | cons x xs ih => rw [failAll_cons, fail_empty, ih]

theorem session?_eq_some_iff {M : Ledger} {u : String} {x : CallId} :
    M.session? u = some x ↔ M u = some (x, true) := by
  unfold session?
  split
  · next h => simp [h]
  · next h => exact ⟨nofun, fun hx => absurd hx (h x)⟩

theorem failAll_congr {M N : Ledger} {u : String} (h : M u = N u) (xs : List CallId) :
    M.failAll xs u = N.failAll xs u := by
  induction xs generalizing M N with
  | nil => exact h
  | cons x xs ih => exact ih (by simp only [fail, h])

theorem session?_failAll {M : Ledger} {u : String} (h : M.session? u = none) (xs : List CallId) :
    (M.failAll xs).session? u = none := by
  induction xs generalizing M with
  | nil => exact h
  | cons x xs ih =>
    refine ih ?_
    rw [Option.eq_none_iff_forall_ne_some] at h ⊢
    intro y hy
    rw [session?_eq_some_iff, fail, Option.map_eq_some_iff] at hy
    obtain ⟨⟨z, live⟩, hz, hy⟩ := hy
    split at hy
    · cases hy
    · cases hy
      exact h y (session?_eq_some_iff.2 hz)

/-- **A call of one user leaves all others alone.** -/
theorem call_other {r : Request} {v : String} (hr : r.start.username? = some u) (hv : v ≠ u) :
    (M.call m i peer r).ledger v = M v := by
  cases r with
  | create w p =>
    cases hr
    simp only [call]
    split
    · rfl
    · split
      · exact assign_ne _ _ hv
      · exact assign_ne _ _ hv
  | remove w =>
    cases hr
    exact assign_ne _ _ hv
  | shutdown => cases hr

/-- A `create` that finds a session alive gives it. -/
theorem call_of_session {u : String} {x : CallId} (h : M.session? u = some x) :
    M.call m i peer (.create u p) = { ledger := M, result := some x } := by
  simp only [call, h]

/-- A `create` that finds none alive gives what Core makes of its login. -/
theorem call_of_none {u : String} (h : M.session? u = none) :
    M.call m i peer (.create u p) =
      { ledger := assign M u (if m.accepts u p peer then some (i, true) else none)
        result := if m.accepts u p peer then some i else none
        opened := if m.opens u p peer then [i] else [] } := by
  simp only [call, h]
  split <;> rfl

end

end Ledger

/-! ### Entries of a history -/

namespace Ledger

/-- What somebody notices who makes one call at a time. -/
inductive Entry where
  /-- The connection of a session has failed. -/
  | failure (x : CallId)
  /-- A call has returned: what it was asked, how its connection was treated, what it gave,
  and which connections it opened. -/
  | call (i : CallId) (r : Request) (peer : Peer) (result : Option CallId) (opened : List CallId)

variable (m : Manager) (M : Ledger)

/-- The ledger after an entry. -/
def next : Entry → Ledger
  | .failure x => M.fail x
  | .call i r peer _ _ => (M.call m i peer r).ledger

/-- The ledger after a history. -/
def after (h : List Entry) : Ledger :=
  h.foldl (next m) M

/-- Whether a call gave what the ledger says, opened what the ledger says, and has a number that
no session in the ledger bears. -/
def Fits : Entry → Prop
  | .failure _ => True
  | .call i r peer result opened =>
    result = (M.call m i peer r).result ∧ opened = (M.call m i peer r).opened ∧
      ∀ u live, M u ≠ some (i, live)

/-- Whether a history is as the ledger says from its first entry to its last. -/
def Explains (M : Ledger) : List Entry → Prop
  | [] => True
  | e :: h => M.Fits m e ∧ Explains (M.next m e) h

@[simp] theorem after_nil : M.after m [] = M := rfl

@[simp] theorem after_cons (e : Entry) (h : List Entry) :
    M.after m (e :: h) = (M.next m e).after m h := rfl

@[simp] theorem after_append (h h' : List Entry) :
    M.after m (h ++ h') = (M.after m h).after m h' :=
  List.foldl_append

@[simp] theorem after_failures (xs : List CallId) :
    M.after m (xs.map .failure) = M.failAll xs := by
  simp only [after, List.foldl_map, failAll, next]

variable {m} in
theorem explains_append {M : Ledger} {h h' : List Entry} :
    M.Explains m (h ++ h') ↔ M.Explains m h ∧ (M.after m h).Explains m h' := by
  induction h generalizing M with
  | nil => simp [Explains]
  | cons e h ih => simp only [List.cons_append, Explains, ih, after_cons, and_assoc]

theorem explains_failures (xs : List CallId) : M.Explains m (xs.map .failure) := by
  induction xs generalizing M with
  | nil => trivial
  | cons x xs ih => exact ⟨trivial, ih _⟩

end Ledger

/-! ### The ledger of a state -/

namespace Manager

namespace State

def ledger (s : State) : Ledger :=
  fun u => (s.table.get? u).map fun x => (x, s.isLive x)

variable {s t : State} {u : String} {x : CallId}

theorem ledger_eq_some_iff {live : Bool} :
    s.ledger u = some (x, live) ↔ s.table.get? u = some x ∧ s.isLive x = live := by
  simp only [ledger, Option.map_eq_some_iff, Prod.mk.injEq]
  constructor
  · rintro ⟨y, hy, rfl, rfl⟩
    exact ⟨hy, rfl⟩
  · rintro ⟨hx, rfl⟩
    exact ⟨x, hx, rfl, rfl⟩

theorem ledger_congr (ht : t.table = s.table) (hs : t.sessions = s.sessions) :
    t.ledger = s.ledger := by
  funext u
  simp only [ledger, isLive, ht, hs]

@[simp] theorem ledger_setCall (s : State) (i : CallId) (c : Call) :
    (s.setCall i c).ledger = s.ledger :=
  ledger_congr rfl rfl

theorem ledger_of_table_empty (h : s.table = .empty) : s.ledger = .empty := by
  funext u
  simp only [ledger, h, Directory.get?_empty, Option.map_none, Ledger.empty]

theorem ledger_erase (s : State) (u : String) (h : t.table = s.table.erase u)
    (hs : t.sessions = s.sessions) : t.ledger = assign s.ledger u none := by
  funext v
  simp only [ledger, isLive, h, hs, Directory.get?_erase, assign_apply]
  split <;> rfl

theorem ledger_insert (s : State) (u : String) (h : t.table = s.table.insert u x)
    (hs : t.sessions = s.sessions) : t.ledger = assign s.ledger u (some (x, s.isLive x)) := by
  funext v
  simp only [ledger, isLive, h, hs, Directory.get?_insert, assign_apply]
  split <;> rfl

/-- What becomes of a session that is not in the table does not show in the ledger. -/
theorem ledger_of_not_listed (ht : t.table = s.table)
    (hs : ∀ y, y ≠ x → t.sessions y = s.sessions y) (h : ∀ v, s.table.get? v ≠ some x) :
    t.ledger = s.ledger := by
  funext v
  simp only [ledger, ht]
  cases hv : s.table.get? v with
  | none => rfl
  | some y =>
    have hne : y ≠ x := by
      rintro rfl
      exact h v hv
    simp only [isLive, Option.map_some, hs y hne]

/-! ### Queries -/

theorem liveSession?_eq (s : State) (u : String) : s.liveSession? u = s.ledger.session? u := by
  simp only [liveSession?, ledger, Ledger.session?]
  cases s.table.get? u with
  | none => rfl
  | some x => cases hx : s.isLive x <;> simp [hx]

theorem hasSession_iff : s.hasSession u = true ↔ ∃ x, s.ledger u = some (x, true) := by
  simp only [hasSession, liveSession?_eq, Option.isSome_iff_exists, Ledger.session?_eq_some_iff]

theorem mem_online_iff : u ∈ s.online ↔ ∃ x, s.ledger u = some (x, true) := by
  simp only [online, List.mem_map, List.mem_filter, Prod.exists, ledger_eq_some_iff]
  constructor
  · rintro ⟨v, x, ⟨hx, hlive⟩, rfl⟩
    exact ⟨x, Directory.mem_entries_iff.1 hx, hlive⟩
  · rintro ⟨x, hx, hlive⟩
    exact ⟨u, x, ⟨Directory.mem_entries_iff.2 hx, hlive⟩, rfl⟩

theorem online_nodup (s : State) : s.online.Nodup :=
  s.table.nodup.sublist (List.filter_sublist.map _)

end State

end Manager

end Corelink
