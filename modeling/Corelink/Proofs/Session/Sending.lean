import Corelink.Proofs.Session.Intake

/-!
# What goes out on a connection

A call writes on a connection of its own, and only while it sends its login; a keep-alive writes on
the connection of its session, and nothing but pings (`Sends`). No other event writes anything: what
a call does on its own is to give notices and to take steps of closing (`Tells`).
-/

namespace Corelink

open Wire

/-- What was written on connection `x`, if that is what was done. -/
def Effect.sent (x : CallId) : Effect → List (Bytes × WriteResult)
  | .wrote y frame r => if y = x then [(frame, r)] else []
  | _ => []

/-- What was written on connection `x`, with the ends of the writes. -/
def sendings (x : CallId) (effects : List Effect) : List (Bytes × WriteResult) :=
  effects.flatMap (Effect.sent x)

@[simp] theorem sendings_nil (x : CallId) : sendings x [] = [] := rfl

@[simp] theorem sendings_cons (x : CallId) (e : Effect) (effects : List Effect) :
    sendings x (e :: effects) = e.sent x ++ sendings x effects := rfl

/-- Whether it opens no connection, and brings nothing in or out. -/
def Effect.isQuiet : Effect → Bool
  | .closed _ | .noted _ => true
  | .opened _ | .wrote .. | .took .. => false

/-- Whether it is a notice and nothing else. -/
def Effect.isNote : Effect → Bool
  | .noted _ => true
  | .opened _ | .wrote .. | .took .. | .closed _ => false

theorem Effect.quiet_of_notes {effects : List Effect} (h : ∀ f ∈ effects, f.isNote = true) :
    ∀ f ∈ effects, f.isQuiet = true := by
  intro f hf
  have hnote := h f hf
  cases f with
  | noted => rfl
  | _ => cases hnote

theorem sendings_of_quiet {x : CallId} {effects : List Effect}
    (h : ∀ f ∈ effects, f.isQuiet = true) : sendings x effects = [] := by
  refine List.flatMap_eq_nil_iff.2 fun f hf => ?_
  have hquiet := h f hf
  cases f with
  | wrote => cases hquiet
  | _ => rfl

theorem openings_of_quiet {effects : List Effect} (h : ∀ f ∈ effects, f.isQuiet = true) :
    openings effects = [] := by
  refine List.filterMap_eq_nil_iff.2 fun f hf => ?_
  have hquiet := h f hf
  cases f with
  | opened => cases hquiet
  | _ => rfl

theorem Closing.quiet {x : CallId} {a b : Session} {next : Closing} {next' : Option Closing}
    {effects : List Effect} (h : next.step x a = some ⟨b, next', effects⟩) :
    ∀ f ∈ effects, f.isQuiet = true := by
  cases does h with
  | shut => exact List.forall_mem_singleton.2 rfl
  | shutFails => exact List.forall_mem_cons.2 ⟨rfl, List.forall_mem_singleton.2 rfl⟩
  | mark | signal | gone | join => exact List.forall_mem_nil _

theorem Session.notes_of_proceed {a b : Session} {effects : List Effect}
    (h : a.proceed = some (b, effects)) : ∀ f ∈ effects, f.isNote = true := by
  cases Session.proceeds h with
  | stopped => exact List.forall_mem_singleton.2 rfl
  | cancelled | foundLive | foundDead | writes | overtaken => exact List.forall_mem_nil _

namespace Manager

/-- All that has been written on connection `x`, with the ends of the writes. -/
def Trace.sent (x : CallId) (trace : Trace) : List (Bytes × WriteResult) :=
  trace.flatMap fun e => sendings x e.2

@[simp] theorem Trace.sent_concat (x : CallId) (trace : Trace) (e : Event)
    (effects : List Effect) :
    Trace.sent x (trace ++ [(e, effects)]) = trace.sent x ++ sendings x effects := by
  simp [sent]

variable {m : Manager} {s t : State} {e : Event} {i x : CallId} {effects : List Effect}

/-! ### Steps -/

/-- The ways of writing on connection `x`. -/
inductive Sends (s : State) (x : CallId) : Event → List (Bytes × WriteResult) → Prop where
  | nothing {e : Event} : Sends s x e []
  | login {u p : String} {g : CallId} {seen : Nat} {frame : Bytes} {r : WriteResult} :
    s.calls x = some (.create u p (.sending g seen frame)) → Sends s x (.write x r) [(frame, r)]
  | ping {a : Session} {r : WriteResult} : s.sessions x = some a → a.keepAlive = .writing →
    Sends s x (.ping x r) [(pingFrame, r)]

/-- What a step that a call takes on its own does: it gives notices, and before that, if it is a step
of closing, it does what that does. -/
inductive Tells (s : State) (i : CallId) : List Effect → Prop where
  | notes {effects : List Effect} :
    (∀ c y next, s.calls i = some c → c.closing? i = some (y, next) → s.sessions y = none) →
    (∀ f ∈ effects, f.isNote = true) → Tells s i effects
  | closing {c : Call} {y : CallId} {next : Closing} {a : Session} {p : Closing.Progress}
      {notes : List Effect} : s.calls i = some c → c.closing? i = some (y, next) →
    s.sessions y = some a → next.step y a = some p → (∀ f ∈ notes, f.isNote = true) →
    Tells s i (p.effects ++ notes)

namespace Tells

theorem of_plain {c : Call} (hc : s.calls i = some c) (hplain : c.closing? i = none)
    (h : ∀ f ∈ effects, f.isNote = true) : Tells s i effects := by
  refine .notes (fun c' y next hc' hy => ?_) h
  rw [hc] at hc'
  cases hc'
  rw [hplain] at hy
  cases hy

theorem of_close {c : Call} {y : CallId} {next : Closing} {goOn : Closing → State → State}
    {done : State → State × List Effect} (hc : s.calls i = some c)
    (hy : c.closing? i = some (y, next)) (hdone : ∀ r, ∀ f ∈ (done r).2, f.isNote = true)
    (h : close s y next goOn done = some (t, effects)) : Tells s i effects := by
  unfold close at h
  split at h
  · next hnone =>
    have hs := hdone s
    rw [Option.some.inj h] at hs
    refine .notes (fun c' z next' hc' hz => ?_) hs
    rw [hc] at hc'
    cases hc'
    rw [hy] at hz
    cases hz
    exact hnone
  · next a ha =>
    rw [Option.map_eq_some_iff] at h
    obtain ⟨⟨b, next', effects'⟩, hstep, h⟩ := h
    cases next' with
    | some next' =>
      cases h
      have hnil := Tells.closing hc hy ha hstep (List.forall_mem_nil _)
      rwa [List.append_nil] at hnil
    | none =>
      cases h
      exact .closing hc hy ha hstep (hdone _)

/-- **There are no other ways.** -/
theorem of_proceed (h : proceed s i = some (t, effects)) : Tells s i effects := by
  have nothing : ∀ f ∈ ([] : List Effect), f.isNote = true := List.forall_mem_nil _
  have noted : ∀ {n : Notice}, ∀ f ∈ [Effect.noted n], f.isNote = true :=
    List.forall_mem_singleton.2 rfl
  unfold proceed at h
  split at h
  · rename_i u p phase hc
    cases phase with
    | discarding | undoing =>
      simp only [proceedCreate] at h
      refine of_close hc rfl ?_ h
      exact fun _ => nothing
    | queued =>
      simp only [proceedCreate, takeTurn] at h
      split at h <;> cases h
      exact of_plain hc rfl nothing
    | admitted =>
      simp only [proceedCreate, reconcile] at h
      split at h
      · cases h
        exact of_plain hc rfl nothing
      · split at h <;> cases h
        · exact of_plain hc rfl noted
        · exact of_plain hc rfl nothing
    | ready =>
      simp only [proceedCreate, prepare] at h
      split at h <;> cases h
      · exact of_plain hc rfl noted
      · exact of_plain hc rfl nothing
    | established =>
      simp only [proceedCreate, settle] at h
      split at h
      · cases h
        exact of_plain hc rfl noted
      · split at h <;> cases h
        · exact of_plain hc rfl nothing
        · exact of_plain hc rfl noted
    | called | leaving =>
      cases h
      exact of_plain hc rfl nothing
    | dialling | sending | awaiting | returned => cases h
  · rename_i u phase hc
    cases phase with
    | called =>
      simp only [proceedRemove, takeOut] at h
      split at h <;> cases h
      · exact of_plain hc rfl nothing
      · exact of_plain hc rfl noted
    | found =>
      cases h
      exact of_plain hc rfl nothing
    | closing =>
      simp only [proceedRemove] at h
      refine of_close hc rfl ?_ h
      exact fun _ => noted
    | returned => cases h
  · rename_i phase hc
    rcases phase with _ | ⟨total, _ | _, next⟩ | _
    · cases h
      exact of_plain hc rfl nothing
    · cases h
      exact of_plain hc rfl noted
    · simp only [proceedShutdown] at h
      refine of_close hc rfl ?_ h
      exact fun _ => nothing
    · cases h
  · cases h

end Tells

theorem quiet_of_proceed (h : proceed s i = some (t, effects)) :
    ∀ f ∈ effects, f.isQuiet = true := by
  cases Tells.of_proceed h with
  | notes _ hnotes => exact Effect.quiet_of_notes hnotes
  | closing _ _ _ hstep hnotes =>
    exact List.forall_mem_append.2 ⟨Closing.quiet hstep, Effect.quiet_of_notes hnotes⟩

/-- **There are no other ways.** -/
theorem Sends.of_step (h : m.step s e = some (t, effects)) : Sends s x e (sendings x effects) := by
  cases e with
  | call i r =>
    simp only [step] at h
    split at h <;> cases h
    exact .nothing
  | proceed i =>
    rw [sendings_of_quiet (quiet_of_proceed h)]
    exact .nothing
  | dial i r =>
    simp only [step] at h
    split at h
    · simp only [dialled, giveUp] at h
      split at h
      · cases h
        exact .nothing
      · split at h <;> cases h <;> exact .nothing
    · cases h
  | write i r =>
    simp only [step] at h
    split at h
    · rename_i u p g seen frame hc
      -- the frame goes out, however the write ends
      have hsent : sendings x effects = if i = x then [(frame, r)] else [] := by
        simp only [written, giveUp] at h
        split at h <;> cases h <;> simp [Effect.sent]
      rw [hsent]
      split
      · next e =>
        subst e
        exact .login hc
      · exact .nothing
    · cases h
  | read i r =>
    simp only [step] at h
    split at h
    · simp only [heard, answered, giveUp] at h
      split at h
      · cases h
        exact .nothing
      · cases h
        exact .nothing
      · split at h
        · cases h
          exact .nothing
        · split at h <;> cases h <;> exact .nothing
    · cases h
  | keepAlive y =>
    obtain ⟨_, _, -, hf, -⟩ := onSession_spec h
    rw [sendings_of_quiet (Effect.quiet_of_notes (Session.notes_of_proceed hf))]
    exact .nothing
  | tick y =>
    obtain ⟨_, _, -, hf, -⟩ := onSession_spec h
    cases Session.ticks hf
    exact .nothing
  | ping y r =>
    obtain ⟨a, _, ha, hf, -⟩ := onSession_spec h
    cases Session.pings hf with
    | wrote hk =>
      simp only [sendings_cons, sendings_nil, Effect.sent, List.append_nil]
      split
      · next e =>
        subst e
        exact .ping ha hk
      · exact .nothing
  | inbound y r =>
    obtain ⟨a, _, -, hf, -⟩ := onSession_spec h
    cases Session.hears hf with
    | bytes _ _ first more =>
      obtain ⟨frames, htook⟩ := a.take_effects y (first :: more)
      rw [htook]
      exact .nothing
    | closed | failed => exact .nothing

end Manager

end Corelink
