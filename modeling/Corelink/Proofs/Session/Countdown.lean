import Corelink.Proofs.Session.Shift
import Corelink.Session.Alone

/-!
# How far a call is from its return

`State.toReturn` bounds the events that a call has still before it when no other is on its way:
its own, and those of a keep-alive whose end it awaits. Closing a session takes four steps, and two
events of its keep-alive at most; a handshake takes as many steps as there are reads, and four.
-/

namespace Corelink

open Wire

namespace KeepAlive

/-- The events after which the keep-alive of a session that is being closed has ended. -/
def countdown : KeepAlive → Nat
  | ended => 0
  | waiting | due | failing _ => 1
  | sending | writing => 2

theorem countdown_le (k : KeepAlive) : k.countdown ≤ 2 := by
  cases k <;> simp [countdown]

end KeepAlive

namespace Closing

variable {x : CallId} {a b : Session} {next next' : Closing} {effects : List Effect}

/-- The steps of closing from this one on. -/
def countdown : Closing → Nat
  | mark => 4
  | signal => 3
  | shut => 2
  | join => 1

theorem countdown_pos (next : Closing) : 0 < next.countdown := by
  cases next <;> decide

theorem countdown_le (next : Closing) : next.countdown ≤ 4 := by
  cases next <;> decide

/-- A step of closing leaves the keep-alive where it is, and there are fewer to come. -/
theorem countdown_lt (h : next.step x a = some ⟨b, some next', effects⟩) :
    next'.countdown < next.countdown ∧ b.keepAlive = a.keepAlive := by
  cases does h <;> exact ⟨by decide, rfl⟩

end Closing

namespace CreatePhase

/-- Whether the call is between the encoding of its login and the answer to it. -/
def isConnecting : CreatePhase → Bool
  | dialling .. | sending .. | awaiting .. => true
  | _ => false

/-- The steps to the end of a handshake, with these reads to come. -/
def toAnswer (peer : Peer) (u p : String) (reads : List ReadResult) : CreatePhase → Nat
  | ready .. => Manager.readsFor peer (.create u p) + 3
  | dialling .. => Manager.readsFor peer (.create u p) + 2
  | sending .. => Manager.readsFor peer (.create u p) + 1
  | awaiting .. => reads.length + 1
  | _ => 0

end CreatePhase

namespace Manager

/-- The events to the end of closing session `x`, the step `next` first. -/
def State.toClose (s : State) (x : CallId) (next : Closing) : Nat :=
  next.countdown + ((s.sessions x).map (·.keepAlive.countdown)).getD 0

/-- The events before call `i` returns. -/
def State.toReturn (s : State) (peer : Peer) (reads : List ReadResult) (i : CallId) : Call → Nat
  | .create u p phase =>
    match phase with
    | .called => readsFor peer (.create u p) + 14
    | .queued .. => readsFor peer (.create u p) + 13
    | .admitted .. => readsFor peer (.create u p) + 12
    | .discarding _ _ x next => readsFor peer (.create u p) + 5 + s.toClose x next
    | .ready .. | .dialling .. | .sending .. | .awaiting .. => phase.toAnswer peer u p reads + 2
    | .established .. => 2
    | .undoing _ next _ => 1 + s.toClose i next
    | .leaving .. => 1
    | .returned _ => 0
  | .remove _ phase =>
    match phase with
    | .called => 8
    | .found .. => 7
    | .closing x next _ _ => s.toClose x next
    | .returned => 0
  | .shutdown phase =>
    match phase with
    | .called => 2 + 6 * s.table.size
    | .closing _ [] _ => 1
    | .closing _ (x :: rest) next => 1 + s.toClose x next + 6 * rest.length
    | .returned => 0

variable {s t : State} {x i : CallId} {next next' : Closing} {peer : Peer} {u p : String}
  {reads : List ReadResult} {a : CreatePhase} {c : Call}

theorem State.toClose_pos (s : State) (x : CallId) (next : Closing) : 0 < s.toClose x next :=
  Nat.lt_of_lt_of_le next.countdown_pos (Nat.le_add_right _ _)

theorem State.toClose_le (s : State) (x : CallId) (next : Closing) : s.toClose x next ≤ 6 := by
  have hnext := next.countdown_le
  unfold toClose
  cases s.sessions x with
  | none => exact Nat.le_trans hnext (by decide)
  | some a =>
    have hk := a.keepAlive.countdown_le
    simp only [Option.map_some, Option.getD_some]
    omega

theorem State.toReturn_of_isConnecting (h : a.isConnecting = true) :
    s.toReturn peer reads i (.create u p a) = a.toAnswer peer u p reads + 2 := by
  cases a <;> first | rfl | cases h

theorem State.hasReturned_of_toReturn (h : s.toReturn peer reads i c = 0) :
    c.hasReturned = true := by
  rcases c with ⟨u, p, phase⟩ | ⟨u, phase⟩ | phase
  · cases phase <;> first | rfl | (simp only [toReturn] at h; omega)
  · cases phase with
    | closing x next => exact absurd h (Nat.ne_of_gt (s.toClose_pos x next))
    | called | found => cases h
    | returned => rfl
  · rcases phase with _ | ⟨total, _ | _, next⟩ | _ <;>
      first | rfl | (simp only [toReturn] at h; omega)

/-- Each of the sessions that a shutdown has to close takes its six events. -/
theorem State.toReturn_closing_lt (s : State) (peer : Peer) (reads : List ReadResult) (i : CallId)
    (total : Nat) (xs : List CallId) :
    s.toReturn peer reads i (.shutdown (.closing total xs .mark)) < 2 + 6 * xs.length := by
  cases xs with
  | nil => exact Nat.lt_succ_self 1
  | cons x rest =>
    have hle := s.toClose_le x .mark
    simp only [toReturn, List.length_cons]
    omega

theorem State.toReturn_closeOn (h : c.closing? i = some (x, next))
    (hlt : t.toClose x next' < s.toClose x next) :
    t.toReturn peer reads i (c.closeOn next') < s.toReturn peer reads i c := by
  rcases c with ⟨u, p, phase⟩ | ⟨u, phase⟩ | phase
  · cases phase <;> cases h <;> simp only [Call.closeOn, toReturn] <;> omega
  · cases phase <;> cases h
    simpa only [Call.closeOn, toReturn] using hlt
  · rcases phase with _ | ⟨total, _ | _, next⟩ | _ <;> cases h
    simp only [Call.closeOn, toReturn]
    omega

theorem State.toReturn_closed (h : c.closing? i = some (x, next)) :
    t.toReturn peer reads i c.closed < s.toReturn peer reads i c := by
  have hpos := s.toClose_pos x next
  rcases c with ⟨u, p, phase⟩ | ⟨u, phase⟩ | phase
  · cases phase <;> cases h <;> simp only [Call.closed, toReturn, CreatePhase.toAnswer] <;> omega
  · cases phase <;> cases h
    simpa only [Call.closed, toReturn] using hpos
  · rcases phase with _ | ⟨total, _ | ⟨y, _ | ⟨z, rest⟩⟩, next⟩ | _ <;> cases h
    · simp only [Call.closed, toReturn]
      omega
    · have hle := t.toClose_le z .mark
      simp only [Call.closed, toReturn, List.length_cons]
      omega

end Manager

end Corelink
