import Corelink.Proofs.Session.Return
import Corelink.Proofs.Session.Sharing

/-!
# Concurrent logins share one connection

Logins of one user come in and overlap as they may, between calls of other users; Core accepts every
login of the user, and no connection of the user fails (`Concurrent`). Then whoever has returned
gives the one session that there is, and as long as somebody has not, there is somebody whose turn
it is and who gets on (`Concurrent.advance`). So the logins can always be brought to their return
(`Concurrent.all_return`), and they share one connection, with one login on it.
-/

namespace Corelink

open Wire

namespace Manager

variable {m : Manager} {s t t' : State} {e : Event} {es es' : List Event} {i j g x : CallId}
  {u p : String} {c : Call} {a b : CreatePhase} {seen : Nat} {effects : List Effect}
  {before after after' trace : Trace} {r : Request}

/-! ### Calls of a run -/

theorem call_of_mem (hr : m.run s es = some (t, trace)) (he : .call i r ∈ es) :
    s.calls i = none ∧ ∃ c, t.calls i = some c ∧ c.request = r := by
  induction es generalizing s trace with
  | nil => cases he
  | cons e es ih =>
    obtain ⟨s', effects, rest, hstep, hes, -⟩ := run_cons hr
    rcases List.mem_cons.1 he with rfl | he
    · simp only [step] at hstep
      split at hstep
      · next hnone =>
        cases hstep
        obtain ⟨c, hc, hreq⟩ := call_kept hes (assign_same _ _ _)
        exact ⟨hnone, c, hc, hreq.trans (Call.request_start r)⟩
      · cases hstep
    · obtain ⟨hnone, hc⟩ := ih hes he
      refine ⟨?_, hc⟩
      cases hi : s.calls i with
      | none => rfl
      | some d =>
        obtain ⟨d', hd', -⟩ := (Shift.of_step hstep).request_kept hi
        rw [hnone] at hd'
        cases hd'

theorem mem_of_call (hr : m.run s es = some (t, trace)) (hnone : s.calls i = none)
    (hc : t.calls i = some c) : .call i c.request ∈ es := by
  induction es generalizing s trace with
  | nil =>
    cases hr
    rw [hnone] at hc
    cases hc
  | cons e es ih =>
    obtain ⟨s', effects, rest, he, hes, -⟩ := run_cons hr
    cases hi : s'.calls i with
    | none => exact List.mem_cons_of_mem _ (ih hes hi)
    | some d =>
      obtain ⟨r, rfl, rfl⟩ | ⟨d', hd'⟩ := (Shift.of_step he).call_from hi
      · obtain ⟨d', hd', hreq⟩ := call_kept hes hi
        rw [hc] at hd'
        cases hd'
        rw [hreq, Call.request_start]
        exact List.mem_cons_self
      · rw [hnone] at hd'
        cases hd'

/-! ### Favourable runs -/

/-- The user is neither removed nor shut down, the logins fit into their fields, and Core serves the
connections of the user. -/
structure Favourable (m : Manager) (u : String) (s : State) (es : List Event) (trace : Trace) :
    Prop where
  stays : ∀ i, .call i (.remove u) ∉ es ∧ .call i .shutdown ∉ es
  fits : ∀ i p, .call i (.create u p) ∈ es → Utf8.size u ≤ maxFieldSize ∧ Utf8.size p ≤ maxFieldSize
  welcome : ∀ x, s.liveSession? u = some x ∨ (∃ p, .call x (.create u p) ∈ es) →
    Welcomed m x trace

/-- A favourable run from a state in which every call of `u`, and every shutdown, has returned. -/
structure Concurrent (m : Manager) (u : String) (s : State) (before : Trace) (es : List Event)
    (t : State) (after : Trace) : Prop where
  begun : ∃ es₀, m.run {} es₀ = some (s, before)
  quiet : ∀ i c, s.calls i = some c → c.hasReturned = true ∨ ∃ v, c.username? = some v ∧ v ≠ u
  address : Address.fault? m.address = none
  run : m.run s es = some (t, after)
  favourable : Favourable m u s es (before ++ after)

theorem Favourable.of_concat (h : Favourable m u s (es ++ [e]) (trace ++ after)) :
    Favourable m u s es trace where
  stays i := (h.stays i).imp (fun hno hi => hno (List.mem_append_left _ hi)) fun hno hi =>
    hno (List.mem_append_left _ hi)
  fits i p hi := h.fits i p (List.mem_append_left _ hi)
  welcome x hx := by
    have hw := h.welcome x (hx.imp_right fun ⟨p, hp⟩ => ⟨p, List.mem_append_left _ hp⟩)
    exact hw.of_append

theorem Favourable.liveSession? (h : Favourable m u s es (before ++ after))
    (hb : m.run {} es' = some (s, before)) (hr : m.run s es = some (t, after))
    (hx : s.liveSession? u = some x ∨ s.calls x = none) (hlisted : t.table.get? u = some x) :
    t.liveSession? u = some x := by
  have ht : m.Reachable t := (Reachable.run .start hb).run hr
  obtain ⟨a, ha, hau⟩ := ht.custody.listed hlisted
  obtain ⟨p, b, hc, -⟩ := ht.custody.made ha
  rw [hau] at hc
  have hw : Welcomed m x (before ++ after) :=
    h.welcome x (hx.imp_right fun hnone => ⟨p, mem_of_call hr hnone hc⟩)
  have hlive := hw.isLive (run_append hb hr) ha (.inl ⟨u, hlisted⟩)
  rw [State.liveSession?, hlisted, Option.filter_some, if_pos]
  rw [State.isLive, ha, Option.any_some, hlive]

/-- **At the end of a favourable run the logins are at one of their stages.** -/
theorem Concurrent.stage (h : Concurrent m u s before es t after) :
    Calm s u t ∧ Stage s u t (openedFor m u s es) := by
  obtain ⟨es₀, hb⟩ := h.begun
  have key : Favourable m u s es (before ++ after) →
      Calm s u t ∧ Stage s u t (openedFor m u s es) := by
    refine run_induction (P := fun es t after => Favourable m u s es (before ++ after) →
      Calm s u t ∧ Stage s u t (openedFor m u s es)) (fun _ => ⟨.start h.quiet, ?_⟩) ?_ h.run
    · cases hlive : s.liveSession? u with
      | none =>
        refine .waiting hlive hlive fun i p a hnone hi => ?_
        rw [hnone] at hi
        cases hi
      | some x =>
        have hlisted := State.get?_of_liveSession? hlive
        refine .settled hlisted (.inl ⟨hlive, rfl⟩) fun i p a hnone hi => ?_
        rw [hnone] at hi
        cases hi
    · intro es t t' e effects after hr ih he hf
      rw [← List.append_assoc] at hf
      obtain ⟨hcalm, hstage⟩ := ih hf.of_concat
      have ht : m.Reachable t := (Reachable.run .start hb).run hr
      have hall := run_append hb hr
      refine ⟨hcalm.step ht ?_ he fun i => ?_, ?_⟩
      · intro i hi
        cases hc : s.calls i with
        | none => rfl
        | some c =>
          obtain ⟨d, hd, -⟩ := call_kept hr hc
          rw [hi] at hd
          cases hd
      · obtain ⟨hremove, hshutdown⟩ := hf.stays i
        exact ⟨fun h => hremove (h ▸ List.mem_append_right _ (List.mem_singleton_self _)),
          fun h => hshutdown (h ▸ List.mem_append_right _ (List.mem_singleton_self _))⟩
      · rw [openedFor_concat hr he]
        refine hstage.step ht hcalm he (fun i p a b hnew hi hi' ha => ?_) fun x hx hlisted => ?_
        · have hmem : Event.call i (.create u p) ∈ es := mem_of_call hr hnew hi
          obtain ⟨hu, hp⟩ := hf.of_concat.fits i p hmem
          have hw := hf.welcome i (.inr ⟨p, List.mem_append_left _ hmem⟩)
          exact hw.attempt ht (spoken_of_run i hall) (account_of_run i hall) he
            (LoginRequest.encode_of_fits hu hp) hi hi' ha
        · exact hf.of_concat.liveSession? hb hr hx hlisted
  exact key h.favourable

/-- Whether the event is no failure of any connection, and brings nothing in. -/
def Event.IsHarmless (m : Manager) (e : Event) : Prop :=
  ∀ x, e.fails m x = false ∧ e.given x = []

theorem isHarmless_keepAliveEvent (m : Manager) (s : State) (x : CallId) :
    (keepAliveEvent s x).IsHarmless m := by
  intro y
  unfold keepAliveEvent
  split
  · split
    · exact ⟨by simp [Event.fails, Event.breaks], rfl⟩
    · exact ⟨rfl, rfl⟩
  · exact ⟨rfl, rfl⟩

namespace Concurrent

theorem reachable (h : Concurrent m u s before es t after) : m.Reachable t := by
  obtain ⟨es₀, hb⟩ := h.begun
  exact (Reachable.run .start hb).run h.run

theorem run_all (h : Concurrent m u s before es t after) :
    ∃ es₀, m.run {} es₀ = some (t, before ++ after) := by
  obtain ⟨es₀, hb⟩ := h.begun
  exact ⟨_, run_append hb h.run⟩

/-- The run goes on with an event that is no new call and after which Core still serves the
connections of the user. -/
theorem concat (h : Concurrent m u s before es t after) (he : m.step t e = some (t', effects))
    (hnot : ∀ j r, e ≠ .call j r)
    (hw : ∀ x, Welcomed m x (before ++ after) →
      Welcomed m x (before ++ after ++ [(e, effects)])) :
    Concurrent m u s before (es ++ [e]) t' (after ++ [(e, effects)]) where
  begun := h.begun
  quiet := h.quiet
  address := h.address
  run := run_concat h.run he
  favourable := by
    have old : ∀ {j : CallId} {r : Request}, .call j r ∈ es ++ [e] → .call j r ∈ es := by
      intro j r hj
      obtain hj | hj := List.mem_append.1 hj
      · exact hj
      · exact absurd (List.mem_singleton.1 hj).symm (hnot j r)
    refine ⟨fun j => ?_, fun j q hj => h.favourable.fits j q (old hj), fun x hx => ?_⟩
    · exact (h.favourable.stays j).imp (fun hno hj => hno (old hj)) fun hno hj => hno (old hj)
    · rw [← List.append_assoc]
      exact hw x (h.favourable.welcome x (hx.imp_right fun ⟨q, hq⟩ => ⟨q, old hq⟩))

/-- **Whose turn it is gets on.** -/
theorem advance (h : Concurrent m u s before es t after)
    (hi : t.calls i = some (.create u p a)) (hret : (Call.create u p a).hasReturned = false)
    (hturn : t.HasTurn u i) :
    ∃ e t' effects b, Advances m t i u p a e t' effects b ∧
      Concurrent m u s before (es ++ [e]) t' (after ++ [(e, effects)]) := by
  have ht := h.reachable
  have hcu := ht.custody
  obtain ⟨hcalm, -⟩ := h.stage
  have hmem : .call i (.create u p) ∈ es := mem_of_call h.run (hcalm.new hi hret) hi
  obtain ⟨hu, hp⟩ := h.favourable.fits i p hmem
  have hfit := LoginRequest.encode_of_fits hu hp
  -- all events but reads are harmless
  have harmless : ∀ {e : Event}, e.IsHarmless m →
      (∃ t' effects b, Advances m t i u p a e t' effects b) →
      ∃ e t' effects b, Advances m t i u p a e t' effects b ∧
        Concurrent m u s before (es ++ [e]) t' (after ++ [(e, effects)]) := by
    rintro e he ⟨t', effects, b, hadv⟩
    exact ⟨e, t', effects, b, hadv, h.concat hadv.step hadv.not_call fun x hx =>
      hx.concat (he x).1 (he x).2⟩
  have proceeds : ∀ j, Event.IsHarmless m (.proceed j) := fun _ _ => ⟨rfl, rfl⟩
  have closes : ∀ {x : CallId} {next : Closing},
      (Call.create u p a).closing? i = some (x, next) →
      ∃ e t' effects b, Advances m t i u p a e t' effects b ∧
        Concurrent m u s before (es ++ [e]) t' (after ++ [(e, effects)]) := by
    intro x next hx
    obtain ⟨e, t', effects, b, hadv, rfl | rfl⟩ := Advances.of_closing ht hi hx
    · exact harmless (proceeds i) ⟨t', effects, b, hadv⟩
    · exact harmless (isHarmless_keepAliveEvent m t x) ⟨t', effects, b, hadv⟩
  cases a with
  | called => exact harmless (proceeds i) (Advances.of_called hcu hi)
  | queued => exact harmless (proceeds i) (Advances.of_queued ht hi hturn)
  | admitted => exact harmless (proceeds i) (Advances.of_admitted hcu hi)
  | discarding | undoing => exact closes rfl
  | ready => exact harmless (proceeds i) (Advances.of_ready hcu hi)
  | dialling =>
    refine harmless (e := .dial i .opened) (fun x => ⟨?_, rfl⟩) (Advances.of_dialling hcu hi)
    simp [Event.fails, Terms.attempt, handshakeTerms, h.address]
  | sending =>
    refine harmless (e := .write i .done) (fun x => ⟨?_, rfl⟩) (Advances.of_sending hcu hfit hi)
    simp [Event.fails]
  | awaiting g seen r =>
    obtain ⟨es₀, hall⟩ := h.run_all
    have hawaits := (account_of_run i hall).awaiting hi
    have hw := h.favourable.welcome i (.inr ⟨p, hmem⟩)
    obtain ⟨first, more, f, r', login, hw', hread, hlogin, hok⟩ := hw.answer hawaits
    obtain ⟨t', effects, b, hadv⟩ := Advances.of_awaiting hcu hi hread hlogin hok
    refine ⟨_, t', effects, b, hadv, h.concat hadv.step hadv.not_call fun x hx => ?_⟩
    by_cases hxi : i = x
    · subst hxi
      exact hw' effects
    · exact hx.concat (by simp [Event.fails, hxi]) (if_neg hxi)
  | established =>
    exact harmless (proceeds i) (Advances.of_established ht hi (hcalm.uncounted hi rfl))
  | leaving => exact harmless (proceeds i) (Advances.of_leaving hcu hi)
  | returned => cases hret

/-! ### What the logins share -/

/-- Session `x` is there for all: it is the live one of before, or that of the one connection opened
for `u`, on which one login has been sent, and pings. -/
structure Shared (m : Manager) (u : String) (s : State) (before : Trace) (es : List Event)
    (t : State) (after : Trace) (x : CallId) : Prop where
  live : t.liveSession? u = some x
  reused : ∀ y, s.liveSession? u = some y → x = y ∧ openedFor m u s es = []
  opened : s.liveSession? u = none → openedFor m u s es = [x] ∧ ∃ p frame pings,
    .call x (.create u p) ∈ es ∧ IsLogin u p frame ∧
      Trace.sent x (before ++ after) = (frame, .done) :: pings ∧ ∀ w ∈ pings, w.1 = pingFrame

theorem shared {result : Option CallId} (h : Concurrent m u s before es t after)
    (hmem : .call i (.create u p) ∈ es) (hi : t.calls i = some (.create u p (.returned result))) :
    ∃ x, result = some x ∧ Shared m u s before es t after x := by
  obtain ⟨es₀, hb⟩ := h.begun
  obtain ⟨hnew, -⟩ := call_of_mem h.run hmem
  obtain ⟨-, hstage⟩ := h.stage
  generalize hopened : openedFor m u s es = opened at hstage
  cases hstage with
  | waiting _ _ hwait => cases hwait i p _ hnew hi
  | @led k q a _ _ _ hk ha hwait =>
    by_cases hik : i = k
    · subst hik
      rw [hi] at hk
      cases hk
      cases ha
    · cases hwait i p _ hik hnew hi
  | @settled x _ hlisted hx hshares =>
    have hlive := h.favourable.liveSession? hb h.run (hx.imp And.left fun h => h.2.1) hlisted
    refine ⟨x, hshares i p _ hnew hi, hlive, fun y hy => ?_, fun hs => ?_⟩
    · obtain ⟨hs, rfl⟩ | ⟨hs, -⟩ := hx
      · rw [hs] at hy
        exact ⟨Option.some.inj hy, hopened⟩
      · rw [hs] at hy
        cases hy
    · obtain ⟨hs', -⟩ | ⟨-, hxnew, rfl⟩ := hx
      · rw [hs] at hs'
        cases hs'
      · obtain ⟨a, ha, rfl⟩ := h.reachable.custody.listed hlisted
        obtain ⟨q, b, frame, pings, hc, hlogin, hsent, hpings⟩ :=
          (spoken_of_run x (run_append hb h.run)).session ha
        exact ⟨hopened, q, frame, pings, mem_of_call h.run hxnew hc, hlogin, hsent, hpings⟩

theorem openedFor_length_le (h : Concurrent m u s before es t after) :
    (openedFor m u s es).length ≤ 1 := by
  obtain ⟨-, hstage⟩ := h.stage
  generalize openedFor m u s es = opened at hstage
  cases hstage with
  | waiting => exact Nat.zero_le 1
  | led =>
    split
    · exact Nat.le_refl 1
    · exact Nat.zero_le 1
  | settled _ hx =>
    obtain ⟨-, rfl⟩ | ⟨-, -, rfl⟩ := hx
    · exact Nat.zero_le 1
    · exact Nat.le_refl 1

/-! ### Bringing the logins to their return -/

theorem getsOn : GetsOn m u (Concurrent m u s before) where
  reachable h := h.reachable
  advance h hi hret hturn := h.advance hi hret hturn

/-- **All of the logins can be brought to their return.** -/
theorem all_return (h : Concurrent m u s before es t after) :
    Leads (Concurrent m u s before) es after fun t' => ∀ i p, .call i (.create u p) ∈ es →
      ∃ result, t'.calls i = some (.create u p (.returned result)) := by
  -- one after the other, in the order in which they have come in
  have key : ∀ l, l ⊆ es → Leads (Concurrent m u s before) es after fun t' =>
      ∀ i p, .call i (.create u p) ∈ l →
        ∃ result, t'.calls i = some (.create u p (.returned result)) := by
    intro l
    induction l with
    | nil => exact fun _ => .here h fun i p hi => by cases hi
    | cons e l ih =>
      intro hl
      obtain ⟨he, hl⟩ := List.cons_subset.1 hl
      refine (ih hl).bind fun es' t' after' hes' h' hall => ?_
      by_cases hcall : ∃ i p, e = .call i (.create u p)
      · obtain ⟨i, p, rfl⟩ := hcall
        obtain ⟨-, c, hi, hreq⟩ := call_of_mem h'.run (hes' he)
        obtain ⟨a, rfl⟩ := Call.create_of_request (hreq.trans rfl)
        refine (getsOn.can_return h' hi).mono fun t'' ⟨hreturned, hkept⟩ j q hj => ?_
        obtain hj | hj := List.mem_cons.1 hj
        · cases hj
          exact hreturned
        · obtain ⟨result, hresult⟩ := hall j q hj
          exact ⟨result, hkept j _ hresult rfl⟩
      · refine .here h' fun j q hj => ?_
        obtain hj | hj := List.mem_cons.1 hj
        · exact absurd ⟨j, q, hj.symm⟩ hcall
        · exact hall j q hj
  exact key es (List.Subset.refl es)

end Concurrent

/-- **Concurrent logins share one connection.** Logins of `u` come in and overlap as they may, while
`u` is neither removed nor shut down, Core accepts every login of `u` and no connection of `u`
fails. Whoever has returned gives the one session of `u`: that of before, without a new connection,
or that of the one connection opened for `u`, on which one login is sent. There is never a second
connection, and all the logins can be brought to their return. -/
theorem logins_share_connection (h : Concurrent m u s before es t after) :
    (∀ i p result, .call i (.create u p) ∈ es →
      t.calls i = some (.create u p (.returned result)) →
      ∃ x, result = some x ∧ Concurrent.Shared m u s before es t after x) ∧
    (openedFor m u s es).length ≤ 1 ∧
    ∀ i p, .call i (.create u p) ∈ es → ∃ es' t' after' x, (∀ j r, .call j r ∉ es') ∧
      Concurrent m u s before (es ++ es') t' (after ++ after') ∧
      Concurrent.Shared m u s before (es ++ es') t' (after ++ after') x ∧
      ∀ j q, .call j (.create u q) ∈ es →
        t'.calls j = some (.create u q (.returned (some x))) := by
  refine ⟨fun i p result => h.shared, h.openedFor_length_le, fun i p hi => ?_⟩
  obtain ⟨es', t', after', hno, h', hall⟩ := h.all_return
  have given : ∀ {j : CallId} {q : String}, .call j (.create u q) ∈ es → ∃ x,
      t'.calls j = some (.create u q (.returned (some x))) ∧
      Concurrent.Shared m u s before (es ++ es') t' (after ++ after') x := by
    intro j q hj
    obtain ⟨_, hreturned⟩ := hall j q hj
    obtain ⟨x, rfl, hx⟩ := h'.shared (List.mem_append_left _ hj) hreturned
    exact ⟨x, hreturned, hx⟩
  obtain ⟨x, -, hx⟩ := given hi
  refine ⟨es', t', after', x, hno, h', hx, fun j q hj => ?_⟩
  obtain ⟨y, hreturned, hy⟩ := given hj
  obtain rfl : x = y := Option.some.inj (hx.live.symm.trans hy.live)
  exact hreturned

/-- Two logins, the second of which comes to the gate while the first waits for its answer. -/
theorem two_logins_share_connection : ∃ es t trace x,
    run .loopback {} es = some (t, trace) ∧
    openedFor .loopback "u" {} es = [x] ∧
    t.calls 0 = some (.create "u" "p" (.returned (some x))) ∧
    t.calls 1 = some (.create "u" "q" (.returned (some x))) := by
  have hacceptance : IsAcceptance Served.acceptance :=
    ⟨⟨⟨13, 15⟩, 1 :: List.replicate 14 0⟩, Served.acceptance, _, [], [], ⟨rfl, rfl, rfl⟩, rfl, rfl,
      rfl, .nil, by decide, rfl⟩
  have h : Concurrent .loopback "u" {} [] [.call 0 (.create "u" "p"),
      .call 1 (.create "u" "q"), .proceed 0, .proceed 1, .proceed 0, .proceed 0, .proceed 0,
      .dial 0 .opened, .write 0 .done, .read 0 (.bytes 70 [83])] _ _ :=
    { begun := ⟨[], rfl⟩
      quiet := nofun
      address := rfl
      run := rfl
      favourable := {
        stays := by simp
        fits := by
          intro i p hi
          have hi : i = 0 ∧ p = "p" ∨ i = 1 ∧ p = "q" := by simpa using hi
          obtain ⟨-, rfl⟩ | ⟨-, rfl⟩ := hi <;> decide
        welcome := by
          intro x hx
          have hx : x = 0 ∨ x = 1 := by
            obtain hx | ⟨p, hp⟩ := hx
            · cases hx
            · have hp : x = 0 ∧ p = "p" ∨ x = 1 ∧ p = "q" := by simpa using hp
              exact hp.imp And.left And.left
          obtain rfl | rfl := hx
          · exact ⟨by decide, _, hacceptance, by decide⟩
          · exact ⟨by decide, _, hacceptance, by decide⟩ } }
  obtain ⟨-, -, hall⟩ := logins_share_connection h
  obtain ⟨es', t', trace', x, -, h', hx, hreturned⟩ := hall 0 "p" (by simp)
  exact ⟨_, t', _, x, h'.run, (hx.opened rfl).1, hreturned 0 "p" (by simp),
    hreturned 1 "q" (by simp)⟩

end Manager

end Corelink
