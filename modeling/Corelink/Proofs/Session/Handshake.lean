import Corelink.Proofs.Session.Countdown
import Corelink.Proofs.Session.Ledger
import Corelink.Proofs.Session.Removal

/-!
# The handshake of a create

A `create` takes its login to Core step by step, where `Manager.trial` goes through the same
exchange at once. `CreatePhase.Agrees` says how much of the trial is behind a `create` and how
much is before it; every step of the handshake keeps that (`Handshake`), so a `create` comes to
what its trial comes to.
-/

namespace Corelink

open Wire

/-- What the wait for an answer to a login comes to. -/
def readLogin (r : Except CallError (Frame × Receiver)) : Except CallError LoginResponse := do
  let (f, _) ← r
  replyPayload .loginResponse f >>= fun b => liftFraming (LoginResponse.decode b)

theorem readLogin_eq_ok_iff {r : Except CallError (Frame × Receiver)} {login : LoginResponse} :
    readLogin r = .ok login ↔ ∃ f rest, r = .ok (f, rest) ∧
      f.header.type = MessageType.loginResponse.code ∧
      LoginResponse.decode f.payload = .ok login := by
  cases r with
  | error e => exact ⟨fun h => (by cases h), fun ⟨_, _, h, _⟩ => (by cases h)⟩
  | ok a =>
    obtain ⟨f, rest⟩ := a
    change replyPayload .loginResponse f >>= (fun b => liftFraming (LoginResponse.decode b)) = _ ↔ _
    unfold replyPayload
    constructor
    · intro h
      split at h
      · next htype =>
        change liftFraming (LoginResponse.decode f.payload) = _ at h
        cases hd : LoginResponse.decode f.payload with
        | error e =>
          rw [hd] at h
          cases h
        | ok l =>
          rw [hd] at h
          cases h
          exact ⟨f, rest, rfl, htype, hd⟩
      · cases h
    · rintro ⟨f', rest', hf, htype, hd⟩
      cases hf
      rw [if_pos htype]
      change liftFraming (LoginResponse.decode f.payload) = _
      rw [hd]
      rfl

namespace CreatePhase

/-- Whether the attempt to connect is over, or given up. -/
def hasDialled : CreatePhase → Bool
  | sending .. | awaiting .. | established .. | undoing .. | leaving .. | returned _ => true
  | _ => false

/-- Whether a handshake that has got here, with these reads to come, agrees with its trial. -/
def Agrees (m : Manager) (u p : String) (peer : Peer) (reads : List ReadResult) :
    CreatePhase → Prop
  | dialling _ _ payload => (LoginRequest.mk u p).encode = .ok payload
  | sending _ _ frame =>
    (LoginRequest.mk u p).encode >>= Frame.encode .loginRequest = .ok frame ∧
      (m.trial u p peer).result = (m.handshakeTerms.written (peer.write frame)).bind fun _ =>
        readLogin (receive m.handshakeTerms {} (peer.reads frame)).1
  | awaiting _ _ r =>
    (m.trial u p peer).result = readLogin ((Wait.more r).run m.handshakeTerms reads).1
  | established .. => m.accepts u p peer = true
  | _ => True

/-- The connections that `create` number `i` has still to open. -/
def yetToOpen (m : Manager) (u p : String) (peer : Peer) (i : CallId) (a : CreatePhase) :
    List CallId :=
  if a.hasDialled = false ∧ m.opens u p peer = true then [i] else []

end CreatePhase

namespace Manager

variable {m : Manager} {u p : String} {peer : Peer} {payload frame : Bytes} {i g : CallId}
  {seen : Nat} {reads : List ReadResult} {e : ValidationError}

/-! ### The trial -/

theorem trial_of_unencoded (h : (LoginRequest.mk u p).encode = .error e) :
    m.trial u p peer = .failed (.validation e) := by
  simp only [trial, Client.login, Client.ask, h]

theorem trial_of_unconnected {e : CallError} (h : (LoginRequest.mk u p).encode = .ok payload)
    (hd : m.handshakeTerms.dialled (m.handshakeTerms.attempt peer.dial) = .error e) :
    m.trial u p peer = ⟨.error e, [.dialled (m.handshakeTerms.attempt peer.dial)]⟩ := by
  unfold handshakeTerms at hd
  simp only [trial, Client.login, Client.ask, h, Client.request, MessageType.response?, hd]
  rfl

theorem trial_of_connected {v : Unit} (h : (LoginRequest.mk u p).encode = .ok payload)
    (hd : m.handshakeTerms.dialled (m.handshakeTerms.attempt peer.dial) = .ok v) :
    m.trial u p peer =
      (Client.exchange m.handshakeTerms .loginRequest .loginResponse payload peer).andThen
        fun reply => liftFraming (LoginResponse.decode reply) := by
  unfold handshakeTerms at hd
  simp only [trial, Client.login, Client.ask, h, Client.request, MessageType.response?, hd]
  rfl

theorem opens_eq_true {v : Unit} (h : (LoginRequest.mk u p).encode = .ok payload)
    (hd : m.handshakeTerms.dialled (m.handshakeTerms.attempt peer.dial) = .ok v) :
    m.opens u p peer = true := by
  rw [opens, trial_of_connected h hd, Client.exchange]
  split <;> rfl

theorem opens_eq_false {e : CallError} (h : (LoginRequest.mk u p).encode = .ok payload)
    (hd : m.handshakeTerms.dialled (m.handshakeTerms.attempt peer.dial) = .error e) :
    m.opens u p peer = false := by
  rw [opens, trial_of_unconnected h hd]
  cases hdial : m.handshakeTerms.attempt peer.dial with
  | opened =>
    rw [hdial] at hd
    cases hd
  | failed | timedOut => rfl

theorem trial_result {v : Unit} (h : (LoginRequest.mk u p).encode = .ok payload)
    (hd : m.handshakeTerms.dialled (m.handshakeTerms.attempt peer.dial) = .ok v)
    (hf : Frame.encode .loginRequest payload = .ok frame) :
    (m.trial u p peer).result = (m.handshakeTerms.written (peer.write frame)).bind fun _ =>
      readLogin (receive m.handshakeTerms {} (peer.reads frame)).1 := by
  rw [trial_of_connected h hd, Client.exchange, hf]
  simp only [Answer.andThen]
  generalize m.handshakeTerms.written (peer.write frame) = wrote
  generalize (receive m.handshakeTerms {} (peer.reads frame)).1 = reply
  cases wrote with
  | error => rfl
  | ok => cases reply <;> rfl

theorem accepts_of_result {login : LoginResponse} (h : (m.trial u p peer).result = .ok login) :
    m.accepts u p peer = login.ok := by
  rw [accepts, h]

theorem accepts_of_error {e : CallError} (h : (m.trial u p peer).result = .error e) :
    m.accepts u p peer = false := by
  rw [accepts, h]

/-- **The trial accepts a login just when Core does on the wire.** -/
theorem accepts_iff : m.accepts u p peer = true ↔ m.LoginAccepted u p peer := by
  constructor
  · intro h
    -- up to the answer, whatever fails in the exchange fails the trial
    cases hp : (LoginRequest.mk u p).encode with
    | error e =>
      rw [accepts_of_error (by rw [trial_of_unencoded hp]; rfl)] at h
      cases h
    | ok payload =>
    cases hd : m.handshakeTerms.attempt peer.dial with
    | failed | timedOut =>
      rw [accepts_of_error (by rw [trial_of_unconnected hp (by rw [hd]; rfl)])] at h
      cases h
    | opened =>
    have hopen : m.handshakeTerms.dialled (m.handshakeTerms.attempt peer.dial) = .ok () := by
      rw [hd]
      rfl
    cases hf : Frame.encode .loginRequest payload with
    | error e =>
      have htrial := trial_of_connected hp hopen
      rw [Client.exchange, hf] at htrial
      rw [accepts_of_error (by rw [htrial]; rfl)] at h
      cases h
    | ok frame =>
    have htrial := trial_result hp hopen hf
    cases hw : peer.write frame with
    | failed | timedOut =>
      rw [hw] at htrial
      rw [accepts_of_error htrial] at h
      cases h
    | done =>
    rw [hw] at htrial
    change _ = readLogin _ at htrial
    cases hr : readLogin (receive m.handshakeTerms {} (peer.reads frame)).1 with
    | error e =>
      rw [accepts_of_error (htrial.trans hr)] at h
      cases h
    | ok login =>
      rw [accepts_of_result (htrial.trans hr)] at h
      obtain ⟨f, rest, hreceive, htype, hdecode⟩ := readLogin_eq_ok_iff.1 hr
      exact ⟨payload, frame, f, rest, login, hp, hd, hf, hw, hreceive, htype, hdecode, h⟩
  · rintro ⟨payload, frame, f, rest, login, hp, hd, hf, hw, hr, htype, hdecode, hok⟩
    have hopen : m.handshakeTerms.dialled (m.handshakeTerms.attempt peer.dial) = .ok () := by
      rw [hd]
      rfl
    have htrial := trial_result hp hopen hf
    rw [hw] at htrial
    rw [accepts_of_result (htrial.trans (readLogin_eq_ok_iff.2 ⟨f, rest, hr, htype, hdecode⟩)), hok]

/-! ### Steps of the handshake -/

/-- Where a step of the handshake leads, and the connections that are opened after it. If the
handshake goes on, it has fewer than `n` steps before it. -/
inductive Handshake (m : Manager) (peer : Peer) (s : State) (i : CallId) (u p : String)
    (g : CallId) (seen : Nat) (reads : List ReadResult) (n : Nat) :
    State → List CallId → Prop where
  | on {b : CreatePhase} : b.isConnecting = true → b.ticket? = some (g, seen) →
    b.Agrees m u p peer reads → b.toAnswer peer u p reads < n →
    Handshake m peer s i u p g seen reads n (go s i u p b) (b.yetToOpen m u p peer i)
  | refused : m.accepts u p peer = false →
    Handshake m peer s i u p g seen reads n (go s i u p (.leaving g none)) []
  | accepted {a : Session} : m.accepts u p peer = true → a.live = true →
    Handshake m peer s i u p g seen reads n
      (go (s.setSession i a) i u p (.established g seen)) []

/-- A step of the handshake with its effects: it leads on, and the connections it opens are those
that were to be opened, less those that still are. -/
def Handshake.Step (m : Manager) (peer : Peer) (s : State) (i : CallId) (u p : String)
    (a : CreatePhase) (g : CallId) (seen : Nat) (reads : List ReadResult) (n : Nat)
    (r : State × List Effect) : Prop :=
  ∃ opened, Handshake m peer s i u p g seen reads n r.1 opened ∧
    openings r.2 ++ opened = a.yetToOpen m u p peer i

namespace Handshake

variable {n : Nat}

theorem of_prepare (s : State) :
    Step m peer s i u p (.ready g seen) g seen reads
      ((CreatePhase.ready g seen).toAnswer peer u p reads) (prepare s i u p g seen) := by
  unfold prepare
  split
  · next e h =>
    have htrial : m.trial u p peer = .failed (.validation e) := trial_of_unencoded h
    refine ⟨[], .refused (accepts_of_error (by rw [htrial]; rfl)), ?_⟩
    simp [CreatePhase.yetToOpen, opens, htrial, Answer.failed, openings, Effect.opened?, giveUp]
  · next payload h => exact ⟨_, .on rfl rfl h (Nat.lt_succ_self _), rfl⟩

theorem of_dialled (s : State) (h : (LoginRequest.mk u p).encode = .ok payload) :
    Step m peer s i u p (.dialling g seen payload) g seen reads
      ((CreatePhase.dialling g seen payload).toAnswer peer u p reads)
      (dialled s i u p m g seen payload peer.dial) := by
  unfold dialled
  split
  · next e hd =>
    have htrial := trial_of_unconnected h hd
    refine ⟨[], .refused (accepts_of_error (by rw [htrial])), ?_⟩
    simp [CreatePhase.yetToOpen, opens_eq_false h hd, openings, Effect.opened?, giveUp]
  · next hd =>
    have hopens := opens_eq_true h hd
    split
    · next e hf =>
      have htrial := trial_of_connected h hd
      rw [Client.exchange, hf] at htrial
      refine ⟨[], .refused (accepts_of_error (by rw [htrial]; rfl)), ?_⟩
      simp [CreatePhase.yetToOpen, hopens, CreatePhase.hasDialled, openings, Effect.opened?, giveUp]
    · next frame hf =>
      refine ⟨_, .on (b := .sending g seen frame) rfl rfl ⟨?_, trial_result h hd hf⟩
        (Nat.lt_succ_self _), ?_⟩
      · rw [h]
        exact hf
      · simp [CreatePhase.yetToOpen, hopens, CreatePhase.hasDialled, openings, Effect.opened?]

theorem of_written (s : State)
    (h : (CreatePhase.sending g seen frame).Agrees m u p peer reads) :
    Step m peer s i u p (.sending g seen frame) g seen (peer.reads frame)
      ((CreatePhase.sending g seen frame).toAnswer peer u p reads)
      (written s i u p m g seen frame (peer.write frame)) := by
  obtain ⟨hframe, htrial⟩ := h
  unfold written
  split
  · next e hw =>
    rw [hw] at htrial
    exact ⟨[], .refused (accepts_of_error htrial), rfl⟩
  · next hw =>
    rw [hw] at htrial
    refine ⟨_, .on (b := .awaiting g seen {}) rfl rfl htrial ?_, rfl⟩
    simp only [CreatePhase.toAnswer, readsFor, hframe]
    exact Nat.lt_succ_self _

theorem of_answered (s : State) {f : Frame} {r : Receiver} {a : CreatePhase}
    (ha : a.hasDialled = true) (h : (m.trial u p peer).result = readLogin (.ok (f, r))) :
    Step m peer s i u p a g seen reads n (answered s i u p m g seen f r) := by
  have hopen : a.yetToOpen m u p peer i = [] := by simp [CreatePhase.yetToOpen, ha]
  rw [Step, hopen]
  unfold answered
  change _ = replyPayload .loginResponse f >>= fun b => liftFraming (LoginResponse.decode b) at h
  rw [← h]
  split
  · next e hr => exact ⟨[], .refused (accepts_of_error hr), rfl⟩
  · next login hr =>
    split
    · next hok => exact ⟨[], .accepted ((accepts_of_result hr).trans hok) rfl, rfl⟩
    · next hok =>
      have hno : m.accepts u p peer = false := by
        rw [accepts_of_result hr]
        exact Bool.eq_false_iff.2 hok
      exact ⟨[], .refused hno, rfl⟩

theorem of_heard (s : State) {r : Receiver}
    (h : (CreatePhase.awaiting g seen r).Agrees m u p peer reads) :
    Step m peer s i u p (.awaiting g seen r) g seen reads.tail
      ((CreatePhase.awaiting g seen r).toAnswer peer u p reads)
      (heard s i u p m g seen r (reads.head?.getD .timedOut)) := by
  unfold heard
  cases reads with
  | nil => exact ⟨[], .refused (accepts_of_error h), rfl⟩
  | cons read rest =>
    change (m.trial u p peer).result =
      readLogin ((Wait.read m.handshakeTerms r read).run m.handshakeTerms rest).1 at h
    rw [List.head?_cons, Option.getD_some, List.tail_cons]
    split
    · next r' hw =>
      rw [hw] at h
      exact ⟨_, .on (b := .awaiting g seen r') rfl rfl h (Nat.lt_succ_self _), rfl⟩
    · next e hw =>
      rw [hw, Wait.run] at h
      exact ⟨[], .refused (accepts_of_error h), rfl⟩
    · next f r' hw =>
      rw [hw, Wait.run] at h
      exact of_answered s rfl h

end Handshake

end Manager

end Corelink
