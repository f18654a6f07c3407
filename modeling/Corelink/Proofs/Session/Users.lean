import Corelink.Proofs.Session.Separate
import Corelink.Proofs.Session.Sending
import Corelink.Proofs.Session.Sharing
import Corelink.Proofs.Session.Served

/-!
# Users do not interfere

A schedule says whose turn it is (`Turn`), and a `Core` says how what is done on the network ends,
from what it has had to do with that user so far; `play` is the run that comes of both. The turns of
one user played alone lead to the user's view of the whole run (`play_only`), and turns that can be
played for each user alone can be played together, in whatever order (`play_of_parts`). So no user
can tell which others there are (`users_do_not_interfere`).
-/

namespace Corelink.Manager

/-! ### Playing a schedule -/

/-- What is to happen next, but for how it ends on the network. -/
inductive Turn where
  | call (i : CallId) (r : Request)
  | proceed (i : CallId)
  | dial (i : CallId)
  | write (i : CallId)
  | read (i : CallId)
  | keepAlive (x : CallId)
  | tick (x : CallId)
  | ping (x : CallId)
  | inbound (x : CallId)
  deriving DecidableEq, Repr

/-- The number of the call or the session whose turn it is. -/
def Turn.number : Turn → CallId
  | call i _ | proceed i | dial i | write i | read i => i
  | keepAlive x | tick x | ping x | inbound x => x

/-- How Core and the network treat the connections of one user. All they go by is what has happened
to this user, even where Core could not see it. -/
structure Core where
  dial : Trace → CallId → DialResult
  write : Trace → CallId → WriteResult
  read : Trace → CallId → ReadResult
  ping : Trace → CallId → WriteResult
  inbound : Trace → CallId → ReadResult

/-- The turn with its end, where this has happened to the user. -/
def Core.event (core : Core) (past : Trace) : Turn → Event
  | .call i r => .call i r
  | .proceed i => .proceed i
  | .dial i => .dial i (core.dial past i)
  | .write i => .write i (core.write past i)
  | .read i => .read i (core.read past i)
  | .keepAlive x => .keepAlive x
  | .tick x => .tick x
  | .ping x => .ping x (core.ping past x)
  | .inbound x => .inbound x (core.inbound past x)

/-- What happens to one user, with what is done on the network for this user: frames and their ends,
but no notices. -/
def Trace.heard (o : Owners) (user : Option String) (trace : Trace) : Trace :=
  (trace.filter fun e => o e.1.number = user).map fun e => (e.1, e.2.filter fun f => !f.isNote)

/-- Turns one after another, if they can be taken, behind what has happened before. -/
def play (m : Manager) (core : Core) (o : Owners) (s : State) (past : Trace) :
    List Turn → Option (State × Trace)
  | [] => some (s, past)
  | turn :: turns => do
    let e := core.event (past.heard o (o turn.number)) turn
    let (s, effects) ← m.step s e
    play m core o s (past ++ [(e, effects)]) turns

/-- Whose numbers the calls of a schedule have. -/
def owner : List Turn → Owners
  | .call j r :: turns, i => if i = j then r.start.username? else owner turns i
  | _ :: turns, i => owner turns i
  | [], _ => none

/-- The turns of user `u`, with the turns of all others left out. -/
def only (o : Owners) (u : String) (turns : List Turn) : List Turn :=
  turns.filter fun turn => o turn.number = some u

/-- All that user `u` can tell is the same. -/
structure SameFor (o : Owners) (u : String) (t t' : State) (trace trace' : Trace) : Prop where
  results : ∀ {i : CallId}, o i = some u →
    (t'.calls i).map Call.result? = (t.calls i).map Call.result? ∧
      (t'.calls i).map Call.hasReturned = (t.calls i).map Call.hasReturned
  entry : t'.table.get? u = t.table.get? u
  live : t'.liveSession? u = t.liveSession? u
  /-- What Core receives for this user, and what it answers. -/
  heard : trace'.heard o (some u) = trace.heard o (some u)

variable {m : Manager} {core : Core} {o : Owners} {s t t' : State} {past trace trace' : Trace}
  {turn : Turn} {turns turns' : List Turn} {u v : String} {i : CallId} {e : Event}
  {effects : List Effect}

@[simp] theorem Core.number_event (core : Core) (past : Trace) (turn : Turn) :
    (core.event past turn).number = turn.number := by
  cases turn <;> rfl

theorem play_cons (h : m.play core o s past (turn :: turns) = some (t, trace)) :
    ∃ s' effects, m.step s (core.event (past.heard o (o turn.number)) turn) = some (s', effects) ∧
      m.play core o s' (past ++ [(core.event (past.heard o (o turn.number)) turn, effects)]) turns =
        some (t, trace) := by
  simp only [play, bind, Option.bind_eq_some_iff] at h
  obtain ⟨⟨s', effects⟩, he, h⟩ := h
  exact ⟨s', effects, he, h⟩

theorem run_of_play (h : m.play core o s past turns = some (t, trace)) :
    ∃ es rest, m.run s es = some (t, rest) ∧ trace = past ++ rest := by
  induction turns generalizing s past with
  | nil =>
    cases h
    exact ⟨[], [], rfl, (List.append_nil _).symm⟩
  | cons turn turns ih =>
    obtain ⟨s', effects, he, hplay⟩ := play_cons h
    obtain ⟨es, rest, hr, rfl⟩ := ih hplay
    exact ⟨_, _, run_of_step he hr, by rw [List.append_assoc, List.singleton_append]⟩

theorem reachable_of_play (h : m.play core o {} [] turns = some (t, trace)) : m.Reachable t := by
  obtain ⟨es, rest, hr, -⟩ := run_of_play h
  exact .run .start hr

/-! ### Whose numbers they are -/

/-- The calls that are still to come have numbers of their users, and none is a `shutdown`. -/
def Assigned (o : Owners) (turns : List Turn) : Prop :=
  ∀ {i : CallId} {r : Request}, .call i r ∈ turns → ∃ u, r.start.username? = some u ∧ o i = some u

theorem Assigned.tail (h : Assigned o (turn :: turns)) : Assigned o turns :=
  fun hi => h (List.mem_cons_of_mem turn hi)

theorem Numbered.step (h : Numbered o s) (hst : m.step s e = some (t, effects))
    (hcall : ∀ {i r}, e = .call i r → ∃ u, r.start.username? = some u ∧ o i = some u) :
    Numbered o t := by
  intro i c hc
  obtain ⟨r, rfl, rfl⟩ | ⟨d, hd⟩ := (Shift.of_step hst).call_from hc
  · exact hcall rfl
  · obtain ⟨d', hd', hreq⟩ := (Shift.of_step hst).request_kept hd
    obtain rfl := Option.some.inj (hd'.symm.trans hc)
    rw [Call.username?_of_request hreq]
    exact h hd

theorem Numbered.start : Numbered o {} := by
  intro i c hc
  cases hc

theorem Numbered.play_step (h : Numbered o s) (ht : Assigned o (turn :: turns)) {past : Trace}
    (hst : m.step s (core.event past turn) = some (t, effects)) : Numbered o t := by
  refine h.step hst fun {i r} he => ?_
  cases turn <;> cases he
  exact ht List.mem_cons_self

theorem called_of_step (hs : m.Reachable s) (hst : m.step s e = some (t, effects)) :
    ∃ c, t.calls e.number = some c := by
  have stays : ∀ {c : Call}, s.calls e.number = some c → ∃ c, t.calls e.number = some c :=
    fun hc => ((Shift.of_step hst).request_kept hc).imp fun _ h => h.1
  have ofSession : ∀ {f : Session → Session.Step}, onSession s e.number f = some (t, effects) →
      ∃ c, t.calls e.number = some c := by
    intro f hf
    obtain ⟨a, b, ha, -, -⟩ := onSession_spec hf
    obtain ⟨p, b, hc, -⟩ := hs.custody.made ha
    exact stays hc
  cases e with
  | call i r =>
    simp only [step] at hst
    split at hst <;> cases hst
    exact ⟨_, assign_same _ _ _⟩
  | proceed i =>
    cases hc : s.calls i with
    | none => simp [step, proceed, hc] at hst
    | some c => exact stays hc
  | dial i | write i | read i =>
    cases hc : s.calls i with
    | none => simp [step, hc] at hst
    | some c => exact stays hc
  | keepAlive | tick | ping | inbound => exact ofSession hst

/-! ### One user's part of a run -/

/-- The user's part of a trace, as it is where no other user has a session. -/
def Trace.of (o : Owners) (u : String) (trace : Trace) : Trace :=
  (trace.filter fun e => o e.1.number = some u).map fun e => (e.1, e.2.map Effect.alone)

theorem filter_map_alone (effects : List Effect) :
    (effects.map Effect.alone).filter (fun f => !f.isNote) = effects.filter fun f => !f.isNote := by
  induction effects with
  | nil => rfl
  | cons f effects ih =>
    cases f with
    | noted n => exact ih
    | _ => exact congrArg (List.cons _) ih

namespace Trace

theorem of_concat (he : o e.number = some u) (past : Trace) (effects : List Effect) :
    Trace.of o u (past ++ [(e, effects)]) =
      Trace.of o u past ++ [(e, effects.map Effect.alone)] := by
  simp [Trace.of, he]

theorem of_concat_of_ne (he : o e.number ≠ some u) (past : Trace) (effects : List Effect) :
    Trace.of o u (past ++ [(e, effects)]) = Trace.of o u past := by
  simp [Trace.of, he]

theorem heard_of (trace : Trace) : (Trace.of o u trace).heard o (some u) =
    Trace.heard o (some u) trace := by
  unfold Trace.heard Trace.of
  rw [List.filter_map, List.filter_filter, List.map_map]
  simp only [Function.comp_def, filter_map_alone, Bool.and_self]

end Trace

/-- **The turns of one user, played alone,** lead to the view that the user has of the whole run. -/
theorem play_only (hs : m.Reachable s) (hn : Numbered o s) (ha : Assigned o turns)
    (h : m.play core o s past turns = some (t, trace)) (u : String) :
    m.play core o (s.view o u) (Trace.of o u past) (only o u turns) =
      some (t.view o u, Trace.of o u trace) := by
  induction turns generalizing s past with
  | nil =>
    cases h
    rfl
  | cons turn turns ih =>
    obtain ⟨s', effects, he, hplay⟩ := play_cons h
    have hrest := ih (.step hs he) (hn.play_step ha he) ha.tail hplay
    have howned := hs.owned hn
    by_cases hu : o turn.number = some u
    · have hstep := howned.step_view (m := m) (e := core.event (past.heard o (some u)) turn)
        (by rwa [Core.number_event])
      rw [hu] at he hrest
      rw [he, Option.map_some] at hstep
      rw [Trace.of_concat (by rwa [Core.number_event])] at hrest
      rw [only, List.filter_cons_of_pos (by simpa using hu), play, hu, Trace.heard_of, hstep]
      exact hrest
    · rw [howned.step_other (by rwa [Core.number_event]) he,
        Trace.of_concat_of_ne (by rwa [Core.number_event])] at hrest
      rwa [only, List.filter_cons_of_neg (by simpa using hu)]

/-- **What can be played for each user alone can be played for all together.** -/
theorem play_of_parts (hs : m.Reachable s) (hn : Numbered o s) (ha : Assigned o turns)
    (howner : ∀ turn ∈ turns, ∃ u, o turn.number = some u)
    (hparts : ∀ u, ∃ r, m.play core o (s.view o u) (Trace.of o u past) (only o u turns) = some r) :
    ∃ t trace, m.play core o s past turns = some (t, trace) := by
  induction turns generalizing s past with
  | nil => exact ⟨s, past, rfl⟩
  | cons turn turns ih =>
    obtain ⟨u, hu⟩ := howner turn List.mem_cons_self
    have howned := hs.owned hn
    -- the user's own part begins with this turn, so the turn can be taken
    obtain ⟨r, hr⟩ := hparts u
    rw [only, List.filter_cons_of_pos (by simpa using hu)] at hr
    obtain ⟨w, effects', hw, hrest⟩ := play_cons hr
    rw [hu, Trace.heard_of] at hw hrest
    have hnumber : o (core.event (past.heard o (some u)) turn).number = some u := by
      rwa [Core.number_event]
    have hstep := hw
    rw [howned.step_view hnumber, Option.map_eq_some_iff] at hstep
    obtain ⟨⟨s', effects⟩, he, heq⟩ := hstep
    cases heq
    have hlater : ∀ v, ∃ r, m.play core o (s'.view o v)
        (Trace.of o v (past ++ [(core.event (past.heard o (some u)) turn, effects)]))
        (only o v turns) = some r := by
      intro v
      by_cases hv : v = u
      · subst hv
        rw [Trace.of_concat hnumber]
        exact ⟨r, hrest⟩
      · have hne : o (core.event (past.heard o (some u)) turn).number ≠ some v := by
          rw [hnumber]
          exact fun h => hv (Option.some.inj h).symm
        obtain ⟨r', hr'⟩ := hparts v
        rw [only, List.filter_cons_of_neg (by simpa [hu] using Ne.symm hv)] at hr'
        rw [howned.step_other hne he, Trace.of_concat_of_ne hne]
        exact ⟨r', hr'⟩
    obtain ⟨t, trace, hplay⟩ := ih (.step hs he) (hn.play_step ha he) ha.tail
      (fun turn' ht => howner turn' (List.mem_cons_of_mem turn ht)) hlater
    refine ⟨t, trace, ?_⟩
    rw [play, hu, he]
    exact hplay

/-! ### The owners of a schedule -/

theorem Numbered.play (hn : Numbered o s) (ha : Assigned o turns)
    (h : m.play core o s past turns = some (t, trace)) : Numbered o t := by
  induction turns generalizing s past with
  | nil =>
    cases h
    exact hn
  | cons turn turns ih =>
    obtain ⟨s', effects, he, hplay⟩ := play_cons h
    exact ih (hn.play_step ha he) ha.tail hplay

/-- A number is used for one call, so the first one tells whose it is. -/
theorem owner_of_play {o' : Owners} (h : m.play core o' s past turns = some (t, trace))
    {r : Request} (hi : .call i r ∈ turns) :
    s.calls i = none ∧ owner turns i = r.start.username? := by
  induction turns generalizing s past with
  | nil => cases hi
  | cons turn turns ih =>
    obtain ⟨s', effects, he, hplay⟩ := play_cons h
    obtain rfl | hi := List.mem_cons.1 hi
    · simp only [Core.event, step] at he
      split at he
      · next hnone => exact ⟨hnone, if_pos rfl⟩
      · cases he
    · obtain ⟨hnone, howner⟩ := ih hplay hi
      have hbefore : s.calls i = none := by
        by_contra hne
        obtain ⟨c, hc⟩ := Option.ne_none_iff_exists'.1 hne
        obtain ⟨c', hc', -⟩ := (Shift.of_step he).request_kept hc
        rw [hnone] at hc'
        cases hc'
      refine ⟨hbefore, ?_⟩
      cases turn with
      | call j r' =>
        have hj : i ≠ j := by
          rintro rfl
          simp only [Core.event, step, if_pos hbefore] at he
          cases he
          rw [State.setCall_calls, assign_same] at hnone
          cases hnone
        rw [owner, if_neg hj, howner]
      | _ => exact howner

theorem assigned_of_play {o' : Owners} (hno : ∀ i, .call i .shutdown ∉ turns)
    (h : m.play core o' {} [] turns = some (t, trace)) : Assigned (owner turns) turns := by
  intro i r hi
  have howner := (owner_of_play h hi).2
  cases r with
  | create u p => exact ⟨u, rfl, howner⟩
  | remove u => exact ⟨u, rfl, howner⟩
  | shutdown => exact absurd hi (hno i)

theorem owned_of_play (hs : m.Reachable s) (hn : Numbered o s) (ha : Assigned o turns)
    (h : m.play core o s past turns = some (t, trace)) (hturn : turn ∈ turns) :
    ∃ u, o turn.number = some u := by
  induction turns generalizing s past with
  | nil => cases hturn
  | cons turn' turns ih =>
    obtain ⟨s', effects, he, hplay⟩ := play_cons h
    have hn' : Numbered o s' := hn.play_step ha he
    obtain rfl | hturn := List.mem_cons.1 hturn
    · obtain ⟨c, hc⟩ := called_of_step hs he
      rw [Core.number_event] at hc
      obtain ⟨u, -, hu⟩ := hn' hc
      exact ⟨u, hu⟩
    · exact ih (.step hs he) hn' ha.tail hplay hturn

/-! ### No interference -/

theorem SameFor.symm (h : SameFor o u t t' trace trace') : SameFor o u t' t trace' trace :=
  ⟨fun hi => ⟨(h.results hi).1.symm, (h.results hi).2.symm⟩, h.entry.symm, h.live.symm,
    h.heard.symm⟩

theorem SameFor.trans {t'' : State} {trace'' : Trace} (h : SameFor o u t t' trace trace')
    (h' : SameFor o u t' t'' trace' trace'') : SameFor o u t t'' trace trace'' :=
  ⟨fun hi => ⟨(h'.results hi).1.trans (h.results hi).1, (h'.results hi).2.trans (h.results hi).2⟩,
    h'.entry.trans h.entry, h'.live.trans h.live, h'.heard.trans h.heard⟩

theorem Owned.sameFor (h : Owned o t) (u : String) (trace : Trace) :
    SameFor o u t (t.view o u) trace (Trace.of o u trace) where
  results hi := by
    simp only [view_calls t hi, Option.map_map, Function.comp_def, Call.result?_alone,
      Call.hasReturned_alone, and_self]
  entry := view_table_get? t u
  live := h.liveSession?_view u
  heard := Trace.heard_of trace

theorem view_start (o : Owners) (u : String) : ({} : State).view o u = {} := by
  have hmine : ∀ {α : Type} (a : α), mine o u (fun _ => a) a = fun _ => a := by
    intro α a
    funext i
    simp [mine]
  simp only [State.view, Option.map_none, hmine]
  rfl

/-- **Users do not interfere.** What the turns of all users come to is, for each user, what the
user's own turns come to with the turns of all others left out: the results of the calls, the entry
in the table and whether it is live, and all that Core has to do with the user. So it is the same in
whatever order the turns of different users are taken. -/
theorem users_do_not_interfere (hno : ∀ i, .call i .shutdown ∉ turns)
    (h : m.play core (owner turns) {} [] turns = some (t, trace)) :
    (∀ u, ∃ t' trace', m.play core (owner turns) {} [] (only (owner turns) u turns) =
        some (t', trace') ∧ SameFor (owner turns) u t t' trace trace') ∧
    ∀ turns', turns'.Perm turns →
      (∀ u, only (owner turns) u turns' = only (owner turns) u turns) →
      ∃ t' trace', m.play core (owner turns) {} [] turns' = some (t', trace') ∧
        ∀ u, SameFor (owner turns) u t t' trace trace' := by
  generalize ho : owner turns = o at h ⊢
  have ha : Assigned o turns := ho ▸ assigned_of_play hno h
  have howned : Owned o t := (reachable_of_play h).owned (Numbered.start.play ha h)
  have hview : ∀ u, m.play core o {} [] (only o u turns) =
      some (t.view o u, Trace.of o u trace) := by
    intro u
    have hplay := play_only .start Numbered.start ha h u
    rwa [view_start] at hplay
  refine ⟨fun u => ⟨_, _, hview u, howned.sameFor u trace⟩, fun turns' hperm hsame => ?_⟩
  have ha' : Assigned o turns' := fun hi => ha (hperm.mem_iff.1 hi)
  have howner : ∀ turn ∈ turns', ∃ u, o turn.number = some u :=
    fun turn ht => owned_of_play .start Numbered.start ha h (hperm.mem_iff.1 ht)
  have hparts : ∀ u, ∃ r, m.play core o (({} : State).view o u) (Trace.of o u [])
      (only o u turns') = some r := by
    intro u
    rw [view_start, hsame]
    exact ⟨_, hview u⟩
  obtain ⟨t', trace', h'⟩ := play_of_parts .start Numbered.start ha' howner hparts
  have howned' : Owned o t' := (reachable_of_play h').owned (Numbered.start.play ha' h')
  refine ⟨t', trace', h', fun u => ?_⟩
  have hview' := play_only .start Numbered.start ha' h' u
  rw [view_start, hsame] at hview'
  obtain ⟨hstate, htrace⟩ := Prod.mk.inj (Option.some.inj ((hview u).symm.trans hview'))
  have hback := howned'.sameFor u trace'
  rw [← hstate, ← htrace] at hback
  exact (howned.sameFor u trace).trans hback.symm

/-- Two users log in at once, and one of them logs out again. Core accepts whoever has written a
login, as the seventh thing that has happened to this user. -/
theorem two_logins_at_once : ∃ core turns t t' trace trace',
    Manager.play .loopback core (owner turns) {} [] turns = some (t, trace) ∧
    t.liveSession? "a" = none ∧ t.liveSession? "b" = some 1 ∧
    Manager.play .loopback core (owner turns) {} [] (only (owner turns) "b" turns) =
      some (t', trace') ∧
    SameFor (owner turns) "b" t t' trace trace' := by
  let core : Core :=
    { dial := fun _ _ => .opened
      write := fun _ _ => .done
      read := fun past _ =>
        if past.length = 7 then .bytes 70 [83, 88, 49, 1, 13, 0, 0, 0, 15, 0, 0, 1, 0, 0, 0, 0, 0,
          0, 0, 0, 0, 0, 0, 0, 0, 0]
        else .closed
      ping := fun _ _ => .done
      inbound := fun _ _ => .timedOut }
  let turns : List Turn :=
    [.call 0 (.create "a" "p"), .call 1 (.create "b" "q"), .proceed 0, .proceed 1, .proceed 0,
      .proceed 0, .proceed 1, .proceed 1, .proceed 1, .proceed 0, .dial 1, .dial 0, .write 0,
      .write 1, .read 1, .read 0, .proceed 0, .proceed 0, .proceed 1, .proceed 1,
      .call 2 (.remove "a"), .proceed 2]
  have hlive : (Manager.play .loopback core (owner turns) {} [] turns).map
      (fun r => (r.1.liveSession? "a", r.1.liveSession? "b")) = some (none, some 1) := by
    decide +kernel
  obtain ⟨⟨t, trace⟩, hplay, hlive⟩ := Option.map_eq_some_iff.1 hlive
  obtain ⟨hparts, -⟩ := users_do_not_interfere (by simp [turns]) hplay
  obtain ⟨t', trace', h', hsame⟩ := hparts "b"
  obtain ⟨ha, hb⟩ := Prod.mk.inj hlive
  exact ⟨core, turns, t, t', trace, trace', hplay, ha, hb, h', hsame⟩

end Corelink.Manager
