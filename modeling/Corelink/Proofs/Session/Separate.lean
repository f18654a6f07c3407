import Corelink.Proofs.Session.View

/-!
# A step and the users

Each step is a step of one user. For this user it is the step of the user's view, function by
function (`Owned.step_view`): all that the step looks at is there, and is the same. In the views of
all other users nothing changes (`Owned.step_other`).
-/

namespace Corelink.Manager

variable {m : Manager} {s t : State} {o : Owners} {u v p : String} {i x g : CallId}
  {c : Call}

/-! ### Steps of the user -/

section Own

theorem Owned.holdGate_view (h : Owned o s) (hi : o i = some u) :
    holdGate (s.view o u) i u =
      ((holdGate s i u).1, (holdGate s i u).2.1, (holdGate s i u).2.2.view o u) := by
  unfold holdGate
  rw [view_logins_get?]
  cases hg : s.logins.get? u with
  | none =>
    simp only [view_setGate _ hi]
    simp only [State.view, Directory.only_insert_self]
  | some g =>
    have ho : o g = some u := h.gate hg
    simp only [view_gates s ho, view_setGate _ ho]

theorem view_releaseGate (hg : o g = some u) :
    (releaseGate s u g).view o u = releaseGate (s.view o u) u g := by
  unfold releaseGate
  dsimp only
  rw [view_logins_get?, view_gates s hg]
  split
  · rw [view_setGate _ hg]
    simp only [State.view, Directory.only_erase_self]
  · rw [view_setGate _ hg]

theorem Owned.view_passGate (h : Owned o s) (u : String) :
    (passGate s u).view o u = passGate (s.view o u) u := by
  unfold passGate
  rw [view_logins_get?]
  cases hg : s.logins.get? u with
  | none => rfl
  | some g =>
    have ho : o g = some u := h.gate hg
    simp only [view_gates s ho, view_setGate _ ho]

theorem view_go (hi : o i = some u) (phase : CreatePhase) :
    (go s i u p phase).view o u = go (s.view o u) i u p phase :=
  view_setCall s hi _

theorem Owned.enter_view (h : Owned o s) (hi : o i = some u) :
    enter (s.view o u) i u p = (enter s i u p).view o u := by
  unfold enter
  rw [h.liveSession?_view, h.holdGate_view hi]
  cases s.liveSession? u with
  | none => exact (view_go hi _).symm
  | some x => exact (view_go hi _).symm

theorem takeTurn_view (hi : o i = some u) (hg : o g = some u) (seen : Nat) :
    takeTurn (s.view o u) i u p g seen = (takeTurn s i u p g seen).map (viewed o u) := by
  unfold takeTurn
  rw [view_gates s hg]
  cases (s.gates g).owner with
  | some _ => rfl
  | none =>
    simp only [Option.map_some, viewed, view_go hi, view_setGate s hg, List.map_nil]

theorem Owned.reconcile_view (h : Owned o s) (hi : o i = some u) (seen : Nat) :
    reconcile (s.view o u) i u p g seen = viewed o u (reconcile s i u p g seen) := by
  unfold reconcile
  rw [h.liveSession?_view, view_table_get?]
  cases s.liveSession? u with
  | some x => simp only [viewed, view_go hi, List.map_nil]
  | none =>
    cases s.table.get? u with
    | some x => simp only [viewed, view_go hi, view_erase]; rfl
    | none => simp only [viewed, view_go hi, view_erase, List.map_nil]

theorem giveUp_view (hi : o i = some u) (e : CallError) :
    giveUp (s.view o u) i u p g e = viewed o u (giveUp s i u p g e) := by
  simp only [giveUp, viewed, view_go hi]
  rfl

theorem prepare_view (hi : o i = some u) (seen : Nat) :
    prepare (s.view o u) i u p g seen = viewed o u (prepare s i u p g seen) := by
  unfold prepare
  split
  · exact giveUp_view hi _
  · simp only [viewed, view_go hi, List.map_nil]

theorem dialled_view (hi : o i = some u) (seen : Nat) (payload : Bytes) (r : DialResult) :
    dialled (s.view o u) i u p m g seen payload r =
      viewed o u (dialled s i u p m g seen payload r) := by
  unfold dialled
  split
  · exact giveUp_view hi _
  · split
    · rw [giveUp_view hi]
      rfl
    · simp only [viewed, view_go hi]
      rfl

theorem written_view (hi : o i = some u) (seen : Nat) (frame : Bytes) (r : WriteResult) :
    written (s.view o u) i u p m g seen frame r =
      viewed o u (written s i u p m g seen frame r) := by
  unfold written
  split
  · rw [giveUp_view hi]
    rfl
  · simp only [viewed, view_go hi]
    rfl

theorem answered_view (hi : o i = some u) (seen : Nat) (f : Wire.Frame) (r : Wire.Receiver) :
    answered (s.view o u) i u p m g seen f r = viewed o u (answered s i u p m g seen f r) := by
  unfold answered
  split
  · rw [giveUp_view hi]
    rfl
  · split
    · simp only [viewed, view_go hi, view_setSession s hi, List.map_nil]
    · simp only [viewed, view_go hi]
      rfl

theorem heard_view (hi : o i = some u) (seen : Nat) (r : Wire.Receiver) (read : ReadResult) :
    heard (s.view o u) i u p m g seen r read = viewed o u (heard s i u p m g seen r read) := by
  unfold heard
  split
  · simp only [viewed, view_go hi, List.map_nil]
  · rw [giveUp_view hi]
    rfl
  · exact answered_view hi seen _ _

theorem Owned.settle_view (h : Owned o s) (hi : o i = some u) (hg : o g = some u) (seen : Nat) :
    settle (s.view o u) i u p g seen = viewed o u (settle s i u p g seen) := by
  unfold settle
  rw [view_gates s hg]
  split
  · simp only [viewed, view_go hi]
    rfl
  · rw [h.liveSession?_view]
    cases s.liveSession? u with
    | some x => simp only [viewed, view_go hi, List.map_nil]
    | none =>
      have hsize : ((s.view o u).table.insert u i).size = 1 := Directory.size_insert_only _ _
      simp only [viewed, view_go hi, view_insert, hsize, view_sessions s hi]
      rfl

theorem close_view (hx : o x = some u) (next : Closing) {goOn goOn' : Closing → State → State}
    {done done' : State → State × List Effect}
    (hgoOn : ∀ next s, goOn' next (s.view o u) = (goOn next s).view o u)
    (hdone : ∀ s, done' (s.view o u) = viewed o u (done s)) :
    close (s.view o u) x next goOn' done' = (close s x next goOn done).map (viewed o u) := by
  unfold close
  rw [view_sessions s hx]
  cases s.sessions x with
  | none => simp only [hdone, Option.map_some]
  | some a =>
    simp only [Option.map_map]
    refine Option.map_congr fun r hr => ?_
    have halone := Closing.alone_effects hr
    obtain ⟨b, next', effects⟩ := r
    dsimp only at halone
    cases next' with
    | some next' =>
      simp only [Function.comp_apply, viewed, ← view_setSession s hx, hgoOn, halone]
    | none =>
      simp only [Function.comp_apply, ← view_setSession s hx, hdone]
      simp only [viewed, List.map_append, halone]

/-- **The steps of a user's `create` are those of the view.** -/
theorem Owned.proceedCreate_view (h : Owned o s) {phase : CreatePhase}
    (hc : s.calls i = some (.create u p phase)) :
    proceedCreate (s.view o u) i u p phase = (proceedCreate s i u p phase).map (viewed o u) := by
  obtain ⟨_, ⟨⟩, hi⟩ := h.call hc
  have held : ∀ {g : CallId}, phase.gate? = some g → o g = some u := by
    intro g hg
    have hstanding : (Call.create u p phase).standing.gate = some g := by
      cases phase with
      | called => cases hg
      | _ => exact hg
    exact (h.held hc hstanding).trans hi
  cases phase with
  | called => simp only [proceedCreate, h.enter_view hi, Option.map_some, viewed, List.map_nil]
  | queued g seen => exact takeTurn_view hi (held rfl) seen
  | admitted g seen => simp only [proceedCreate, h.reconcile_view hi, Option.map_some]
  | discarding g seen x next =>
    have hx : o x = some u := (h.hands hc (List.mem_singleton_self x)).trans hi
    simp only [proceedCreate]
    refine close_view hx next ?_ ?_
    · intro next s
      exact (view_go hi _).symm
    · intro s
      simp only [viewed, view_go hi, List.map_nil]
  | ready g seen => simp only [proceedCreate, prepare_view hi, Option.map_some]
  | established g seen =>
    simp only [proceedCreate, h.settle_view hi (held rfl), Option.map_some]
  | undoing g next result =>
    simp only [proceedCreate]
    refine close_view hi next ?_ ?_
    · intro next s
      exact (view_go hi _).symm
    · intro s
      simp only [viewed, view_go hi, List.map_nil]
  | leaving g result =>
    simp only [proceedCreate, Option.map_some, viewed, view_go hi, view_releaseGate (held rfl),
      List.map_nil]
  | dialling | sending | awaiting | returned => rfl

theorem Owned.takeOut_view (h : Owned o s) (hi : o i = some u) :
    takeOut (s.view o u) i u = viewed o u (takeOut s i u) := by
  unfold takeOut
  rw [view_table_get?, view_logins_get?, ← h.view_passGate]
  cases s.table.get? u with
  | some x =>
    have hsize : (((passGate s u).view o u).table.erase u).size = 0 := Directory.size_erase_only _
    simp only [viewed, view_setCall _ hi, view_erase, hsize, List.map_nil]
    rfl
  | none =>
    simp only [viewed, view_setCall _ hi, view_erase]
    split <;> rfl

/-- **The steps of a user's `remove` are those of the view.** -/
theorem Owned.proceedRemove_view (h : Owned o s) {phase phase' : RemovePhase}
    (hc : s.calls i = some (.remove u phase))
    (hphase : (Call.remove u phase).alone = .remove u phase') :
    proceedRemove (s.view o u) i u phase' = (proceedRemove s i u phase).map (viewed o u) := by
  obtain ⟨_, ⟨⟩, hi⟩ := h.call hc
  cases phase with
  | called =>
    cases hphase
    simp only [proceedRemove, h.takeOut_view hi, Option.map_some]
  | found x remaining =>
    cases hphase
    have hx : o x = some u := (h.hands hc (List.mem_singleton_self x)).trans hi
    simp only [proceedRemove, Option.map_some, viewed, view_setCall _ hi, view_isLive s hx,
      List.map_nil]
    rfl
  | closing x next wasLive remaining =>
    cases hphase
    have hx : o x = some u := (h.hands hc (List.mem_singleton_self x)).trans hi
    simp only [proceedRemove]
    refine close_view hx next ?_ ?_
    · intro next s
      rw [view_setCall s hi]
      rfl
    · intro s
      simp only [viewed, view_setCall _ hi]
      rfl
  | returned =>
    cases hphase
    rfl

theorem onSession_view (hx : o x = some u) {f : Session → Session.Step}
    (hf : ∀ {a b effects}, f a = some (b, effects) → effects.map Effect.alone = effects) :
    onSession (s.view o u) x f = (onSession s x f).map (viewed o u) := by
  simp only [onSession, bind, pure, view_sessions s hx]
  cases s.sessions x with
  | none => rfl
  | some a =>
    simp only [Option.bind_some]
    cases hfa : f a with
    | none => rfl
    | some r =>
      simp only [Option.bind_some, Option.map_some, viewed, view_setSession s hx, hf hfa]

/-- **A step of one of the user's numbers is a step of the view**, and can be taken there just when
it can be taken here. -/
theorem Owned.step_view (h : Owned o s) {e : Event} (he : o e.number = some u) :
    m.step (s.view o u) e = (m.step s e).map (viewed o u) := by
  cases e with
  | call i r =>
    have hi : o i = some u := he
    simp only [step, view_calls s hi, Option.map_eq_none_iff]
    split
    · simp only [Option.map_some, viewed, view_setCall s hi, Call.alone_start, List.map_nil]
    · rfl
  | proceed i =>
    have hi : o i = some u := he
    simp only [step, proceed, view_calls s hi]
    cases hc : s.calls i with
    | none => rfl
    | some c =>
      obtain ⟨v, hv, ho⟩ := h.call hc
      obtain rfl : u = v := Option.some.inj (hi.symm.trans ho)
      cases c with
      | create w p phase =>
        cases hv
        exact h.proceedCreate_view hc
      | remove w phase =>
        cases hv
        cases phase <;> exact h.proceedRemove_view hc rfl
      | shutdown => cases hv
  | dial i r =>
    have hi : o i = some u := he
    simp only [step, view_calls s hi]
    cases hc : s.calls i with
    | none => rfl
    | some c =>
      cases c with
      | create v p phase =>
        obtain ⟨_, ⟨⟩, ho⟩ := h.call hc
        obtain rfl : u = v := Option.some.inj (hi.symm.trans ho)
        cases phase with
        | dialling g seen payload => exact congrArg some (dialled_view hi seen payload r)
        | _ => rfl
      | remove v phase => cases phase <;> rfl
      | shutdown => rfl
  | write i r =>
    have hi : o i = some u := he
    simp only [step, view_calls s hi]
    cases hc : s.calls i with
    | none => rfl
    | some c =>
      cases c with
      | create v p phase =>
        obtain ⟨_, ⟨⟩, ho⟩ := h.call hc
        obtain rfl : u = v := Option.some.inj (hi.symm.trans ho)
        cases phase with
        | sending g seen frame => exact congrArg some (written_view hi seen frame r)
        | _ => rfl
      | remove v phase => cases phase <;> rfl
      | shutdown => rfl
  | read i r =>
    have hi : o i = some u := he
    simp only [step, view_calls s hi]
    cases hc : s.calls i with
    | none => rfl
    | some c =>
      cases c with
      | create v p phase =>
        obtain ⟨_, ⟨⟩, ho⟩ := h.call hc
        obtain rfl : u = v := Option.some.inj (hi.symm.trans ho)
        cases phase with
        | awaiting g seen receiver => exact congrArg some (heard_view hi seen receiver r)
        | _ => rfl
      | remove v phase => cases phase <;> rfl
      | shutdown => rfl
  | keepAlive x => exact onSession_view he Session.alone_of_proceed
  | tick x => exact onSession_view he Session.alone_of_tick
  | ping x r => exact onSession_view he Session.alone_of_ping
  | inbound x r => exact onSession_view he Session.alone_of_inbound

end Own

/-! ### Steps of other users -/

section Others

variable (hi : o i = some v) (hv : v ≠ u)

theorem other_of_ne (hi : o i ≠ some u) (hv : o i = some v) : v ≠ u := by
  rintro rfl
  exact hi hv

include hv

theorem ne_of_other (hx : o x = some v) : o x ≠ some u :=
  fun h => hv (Option.some.inj (hx.symm.trans h))

include hi

theorem go_other (phase : CreatePhase) : (go s i v p phase).view o u = s.view o u :=
  view_setCall_of_ne s (ne_of_other hv hi) _

theorem Owned.holdGate_other (h : Owned o s) :
    (holdGate s i v).2.2.view o u = s.view o u := by
  unfold holdGate
  cases hg : s.logins.get? v with
  | none =>
    rw [view_setGate_of_ne _ (ne_of_other hv hi)]
    simp only [State.view, Directory.only_insert_of_ne _ _ hv]
  | some g => rw [view_setGate_of_ne _ (ne_of_other hv (h.gate hg))]

theorem Owned.enter_other (h : Owned o s) : (enter s i v p).view o u = s.view o u := by
  unfold enter
  split
  · exact go_other hi hv _
  · exact (go_other hi hv _).trans (h.holdGate_other hi hv)

theorem reconcile_other (seen : Nat) :
    (reconcile s i v p g seen).1.view o u = s.view o u := by
  unfold reconcile
  split
  · exact go_other hi hv _
  · split <;> exact (go_other hi hv _).trans (view_erase_of_ne s hv)

theorem prepare_other (seen : Nat) : (prepare s i v p g seen).1.view o u = s.view o u := by
  unfold prepare
  split <;> exact go_other hi hv _

theorem dialled_other (seen : Nat) (payload : Bytes) (r : DialResult) :
    (dialled s i v p m g seen payload r).1.view o u = s.view o u := by
  unfold dialled
  split
  · exact go_other hi hv _
  · split <;> exact go_other hi hv _

theorem written_other (seen : Nat) (frame : Bytes) (r : WriteResult) :
    (written s i v p m g seen frame r).1.view o u = s.view o u := by
  unfold written
  split <;> exact go_other hi hv _

theorem heard_other (seen : Nat) (r : Wire.Receiver) (read : ReadResult) :
    (heard s i v p m g seen r read).1.view o u = s.view o u := by
  unfold heard answered
  split
  · exact go_other hi hv _
  · exact go_other hi hv _
  · split
    · exact go_other hi hv _
    · split
      · exact (go_other hi hv _).trans (view_setSession_of_ne s (ne_of_other hv hi) _)
      · exact go_other hi hv _

theorem settle_other (seen : Nat) : (settle s i v p g seen).1.view o u = s.view o u := by
  unfold settle
  split
  · exact go_other hi hv _
  · split
    · exact go_other hi hv _
    · exact (go_other hi hv _).trans (view_insert_of_ne s hv i)

omit hi

theorem releaseGate_other (hg : o g = some v) :
    (releaseGate s v g).view o u = s.view o u := by
  unfold releaseGate
  dsimp only
  split
  · rw [view_setGate_of_ne _ (ne_of_other hv hg)]
    simp only [State.view, Directory.only_erase_of_ne _ hv]
  · rw [view_setGate_of_ne _ (ne_of_other hv hg)]

theorem Owned.passGate_other (h : Owned o s) : (passGate s v).view o u = s.view o u := by
  unfold passGate
  cases hg : s.logins.get? v with
  | none => rfl
  | some g => exact view_setGate_of_ne s (ne_of_other hv (h.gate hg)) _

theorem close_other (hx : o x = some v) {next : Closing} {goOn : Closing → State → State}
    {done : State → State × List Effect} {r : State × List Effect}
    (hgoOn : ∀ next s, (goOn next s).view o u = s.view o u)
    (hdone : ∀ s, (done s).1.view o u = s.view o u) (hr : close s x next goOn done = some r) :
    r.1.view o u = s.view o u := by
  unfold close at hr
  cases ha : s.sessions x with
  | none =>
    simp only [ha, Option.some.injEq] at hr
    rw [← hr, hdone]
  | some a =>
    simp only [ha, Option.map_eq_some_iff] at hr
    obtain ⟨⟨b, next', effects⟩, -, rfl⟩ := hr
    cases next' with
    | some next' => exact (hgoOn _ _).trans (view_setSession_of_ne s (ne_of_other hv hx) _)
    | none => exact (hdone _).trans (view_setSession_of_ne s (ne_of_other hv hx) _)

theorem Owned.proceedCreate_other (h : Owned o s) {phase : CreatePhase} {r : State × List Effect}
    (hc : s.calls i = some (.create v p phase)) (hr : proceedCreate s i v p phase = some r) :
    r.1.view o u = s.view o u := by
  obtain ⟨_, ⟨⟩, hi⟩ := h.call hc
  cases phase with
  | called =>
    cases hr
    exact h.enter_other hi hv
  | queued g seen =>
    have hg : o g = some v := (h.held hc rfl).trans hi
    simp only [proceedCreate, takeTurn] at hr
    split at hr <;> cases hr
    exact (go_other hi hv _).trans (view_setGate_of_ne s (ne_of_other hv hg) _)
  | admitted g seen =>
    cases hr
    exact reconcile_other hi hv seen
  | discarding g seen x next =>
    have hx : o x = some v := (h.hands hc (List.mem_singleton_self x)).trans hi
    simp only [proceedCreate] at hr
    refine close_other hv hx ?_ ?_ hr
    · exact fun _ _ => go_other hi hv _
    · exact fun _ => go_other hi hv _
  | ready g seen =>
    cases hr
    exact prepare_other hi hv seen
  | established g seen =>
    cases hr
    exact settle_other hi hv seen
  | undoing g next result =>
    simp only [proceedCreate] at hr
    refine close_other hv hi ?_ ?_ hr
    · exact fun _ _ => go_other hi hv _
    · exact fun _ => go_other hi hv _
  | leaving g result =>
    cases hr
    have hg : o g = some v := (h.held hc rfl).trans hi
    exact (go_other hi hv _).trans (releaseGate_other hv hg)
  | dialling | sending | awaiting | returned => cases hr

theorem Owned.proceedRemove_other (h : Owned o s) {phase : RemovePhase} {r : State × List Effect}
    (hc : s.calls i = some (.remove v phase)) (hr : proceedRemove s i v phase = some r) :
    r.1.view o u = s.view o u := by
  obtain ⟨_, ⟨⟩, hi⟩ := h.call hc
  have hcall : ∀ (s : State) (c : Call), (s.setCall i c).view o u = s.view o u :=
    fun s c => view_setCall_of_ne s (ne_of_other hv hi) c
  cases phase with
  | called =>
    simp only [proceedRemove, takeOut] at hr
    split at hr <;> cases hr <;>
      exact (hcall _ _).trans ((view_erase_of_ne _ hv).trans (h.passGate_other hv))
  | found x remaining =>
    cases hr
    exact hcall _ _
  | closing x next wasLive remaining =>
    have hx : o x = some v := (h.hands hc (List.mem_singleton_self x)).trans hi
    simp only [proceedRemove] at hr
    refine close_other hv hx ?_ ?_ hr
    · exact fun _ _ => hcall _ _
    · exact fun _ => hcall _ _
  | returned => cases hr

omit hv

theorem onSession_other (hx : o x ≠ some u) {f : Session → Session.Step} {r : State × List Effect}
    (hr : onSession s x f = some r) : r.1.view o u = s.view o u := by
  obtain ⟨t, effects⟩ := r
  obtain ⟨a, b, -, -, rfl⟩ := onSession_spec hr
  exact view_setSession_of_ne s hx b

/-- **A step of another user's number leaves the view as it is.** -/
theorem Owned.step_other (h : Owned o s) {e : Event} (he : o e.number ≠ some u)
    {r : State × List Effect} (hr : m.step s e = some r) : r.1.view o u = s.view o u := by
  cases e with
  | call i req =>
    simp only [step] at hr
    split at hr <;> cases hr
    exact view_setCall_of_ne s he _
  | proceed i =>
    simp only [step, proceed] at hr
    split at hr
    · next v p phase hc =>
      obtain ⟨_, ⟨⟩, hi⟩ := h.call hc
      exact h.proceedCreate_other (other_of_ne he hi) hc hr
    · next v phase hc =>
      obtain ⟨_, ⟨⟩, hi⟩ := h.call hc
      exact h.proceedRemove_other (other_of_ne he hi) hc hr
    · next hc =>
      obtain ⟨_, hnone, -⟩ := h.call hc
      cases hnone
    · cases hr
  | dial i d =>
    simp only [step] at hr
    split at hr <;> cases hr
    next v p g seen payload hc =>
      obtain ⟨_, ⟨⟩, hi⟩ := h.call hc
      exact dialled_other hi (other_of_ne he hi) seen payload d
  | write i w =>
    simp only [step] at hr
    split at hr <;> cases hr
    next v p g seen frame hc =>
      obtain ⟨_, ⟨⟩, hi⟩ := h.call hc
      exact written_other hi (other_of_ne he hi) seen frame w
  | read i read =>
    simp only [step] at hr
    split at hr <;> cases hr
    next v p g seen receiver hc =>
      obtain ⟨_, ⟨⟩, hi⟩ := h.call hc
      exact heard_other hi (other_of_ne he hi) seen receiver read
  | keepAlive x | tick x | ping x | inbound x => exact onSession_other he hr

end Others

end Corelink.Manager
