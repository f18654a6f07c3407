import Corelink.CommandLine.Run
import Corelink.Proofs.Json.Reading
import Corelink.Proofs.Record

/-!
# Outcomes and settings are read back from JSON

Each of the records is an object of its fields, in which every key is met once and every value is
what its field reads (`read_back`, one for each record). Since both ways of writing a value are
read as the value is, so is what the command line prints of an outcome (`read_back_from_json`).
-/

namespace Corelink

open Json.Document

namespace Json

variable {α : Type}

/-- The value is read back from both ways of writing it, and from what is printed of it. -/
structure ReadBack (write : α → Value) (read : String → Except Error α) (a : α) : Prop where
  compact : read (String.ofList (write a).compact) = .ok a
  pretty : read (String.ofList (write a).pretty) = .ok a
  printed : read (CommandLine.printed (write a)) = .ok a

theorem ReadBack.of_document {write : α → Value} {a : α} (read : Document → Except Error α)
    (h : (write a).WellFormed) (hread : read (.ofValue (write a)) = .ok a) :
    ReadBack write (parse read) a where
  compact := (parse_compact read h).trans hread
  pretty := by
    have hpretty := parse_pretty read h blanks_nil
    rwa [List.append_nil, hread] at hpretty
  printed := by
    have hpretty := parse_pretty read h (blanks_newLine 0)
    rwa [String.ofList_append, hread] at hpretty

end Json

/-! ### Outcomes -/

namespace Wire

theorem RegisterResponse.read_back (m : RegisterResponse) :
    asRecord fields (.ofValue m.toJson) ⟨false, ""⟩ = .ok m := by
  refine asRecord_object ["message", "ok"] ?_ rfl
  refine (readMembers_cons rfl rfl (Field.read_required "ok" (asBool_bool _) _ _)).trans ?_
  exact readMembers_cons rfl rfl (Field.read_required "message" (asText_text _) _ _)

theorem LoginResponse.read_back (m : LoginResponse) :
    asRecord fields (.ofValue m.toJson) (rejected "") = .ok m := by
  have hid := Field.read_required "user_id" (asWord_word m.userId)
    (fun n (s : LoginResponse) => { s with userId := UInt64.ofNat n })
  rw [UInt64.ofNat_toNat] at hid
  refine asRecord_object ["message", "username", "user_id", "token", "ok"] ?_ rfl
  refine (readMembers_cons rfl rfl (Field.read_required "ok" (asBool_bool _) _ _)).trans ?_
  refine (readMembers_cons rfl rfl (Field.read_required "token" (asText_text _) _ _)).trans ?_
  refine (readMembers_cons rfl rfl (hid _)).trans ?_
  refine (readMembers_cons rfl rfl (Field.read_required "username" (asText_text _) _ _)).trans ?_
  exact readMembers_cons rfl rfl (Field.read_required "message" (asText_text _) _ _)

end Wire

theorem OnlineUsers.read_back {u : OnlineUsers} (h : u.count ≤ maxWord64) :
    asRecord fields (.ofValue u.toJson) ⟨0, []⟩ = .ok u := by
  refine asRecord_object ["usernames", "count"] ?_ rfl
  refine (readMembers_cons rfl rfl (Field.read_required "count" (asWord_ofNat h) _ _)).trans ?_
  exact readMembers_cons rfl rfl (Field.read_required "usernames" (asTexts_map _) _ _)

/-! ### Settings -/

theorem GeneralSettings.read_back_json (g : GeneralSettings) :
    asRecord (fields format) (.ofValue (.object [("verbose", .bool g.verbose),
      ("log_filter", match g.logFilter with | some t => .text t | none => .null)])) {} = .ok g := by
  refine asRecord_object ["log_filter", "verbose"] ?_ rfl
  refine (readMembers_cons rfl rfl (Field.read_withDefault "verbose" (asBool_bool _) _ _)).trans ?_
  refine readMembers_cons rfl rfl (Field.read_byName "log_filter" ?_ _ _)
  cases g.logFilter <;> rfl

theorem CoreSettings.read_back_json (c : CoreSettings) :
    asRecord (fields format) (.ofValue (.object [("host", .text c.host),
      ("port", .number (.ofNat c.port.toNat)),
      ("request_timeout_ms", .number (.ofNat c.requestTimeout.toNat))])) {} = .ok c := by
  have hport : asWord (UInt16.size - 1) (.number (.ofNat c.port.toNat)) = .ok c.port.toNat :=
    asWord_ofNat (Nat.le_pred_of_lt c.port.toNat_lt)
  have hset := Field.read_withDefault "port" hport
    (fun n (s : CoreSettings) => { s with port := UInt16.ofNat n })
  rw [UInt16.ofNat_toNat] at hset
  refine asRecord_object ["request_timeout_ms", "port", "host"] ?_ rfl
  refine (readMembers_cons rfl rfl (Field.read_withDefault "host" (asText_text _) _ _)).trans ?_
  refine (readMembers_cons rfl rfl (hset _)).trans ?_
  exact readMembers_cons rfl rfl (read_wordField _ (asWord_word _) _ _)

theorem SessionSettings.read_back_json (t : SessionSettings) :
    asRecord (fields format) (.ofValue (.object
      [("handshake_timeout_ms", .number (.ofNat t.handshakeTimeout.toNat)),
      ("keepalive_interval_ms", .number (.ofNat t.keepAliveInterval.toNat)),
      ("send_timeout_ms", .number (.ofNat t.sendTimeout.toNat))])) {} = .ok t := by
  refine asRecord_object ["send_timeout_ms", "keepalive_interval_ms", "handshake_timeout_ms"] ?_ rfl
  refine (readMembers_cons rfl rfl (read_wordField _ (asWord_word _) _ _)).trans ?_
  refine (readMembers_cons rfl rfl (read_wordField _ (asWord_word _) _ _)).trans ?_
  exact readMembers_cons rfl rfl (read_wordField _ (asWord_word _) _ _)

theorem PresenceSettings.read_back_json (p : PresenceSettings) :
    asRecord (fields format) (.ofValue (.object
      [("core_timeout_ms", .number (.ofNat p.coreTimeout.toNat))])) {} = .ok p :=
  asRecord_object ["core_timeout_ms"]
    (readMembers_cons rfl rfl (read_wordField _ (asWord_word _) _ _)) rfl

theorem Settings.read_back_json (s : Settings) : read format (.ofValue s.toJson) = .ok s := by
  refine asRecord_object ["presence", "session", "core", "general"] ?_ rfl
  refine (readMembers_cons rfl rfl
    (Field.read_inner "general" general s.general.read_back_json _)).trans ?_
  refine (readMembers_cons rfl rfl (Field.read_inner "core" core s.core.read_back_json _)).trans ?_
  refine (readMembers_cons rfl rfl
    (Field.read_inner "session" session s.session.read_back_json _)).trans ?_
  exact readMembers_cons rfl rfl
    (Field.read_inner "presence" presence s.presence.read_back_json _)

/-! ### All of them -/

open Json (ReadBack)

theorem Wire.RegisterResponse.wellFormed_toJson (m : RegisterResponse) : m.toJson.WellFormed :=
  ⟨trivial, trivial, trivial⟩

theorem Wire.LoginResponse.wellFormed_toJson (m : LoginResponse) : m.toJson.WellFormed :=
  ⟨trivial, trivial, Json.Number.wellFormed_ofNat _, trivial, trivial, trivial⟩

theorem OnlineUsers.wellFormed_toJson (u : OnlineUsers) : u.toJson.WellFormed := by
  have htexts (ss : List String) : Json.ItemsWellFormed (ss.map .text) := by
    induction ss with
    | nil => trivial
    | cons s ss ih => exact ⟨trivial, ih⟩
  exact ⟨Json.Number.wellFormed_ofNat u.count, htexts u.usernames, trivial⟩

theorem Settings.wellFormed_toJson (s : Settings) : s.toJson.WellFormed := by
  have hfilter : (match s.general.logFilter with
      | some t => Json.Value.text t
      | none => .null).WellFormed := by
    cases s.general.logFilter <;> trivial
  have hword (n : Nat) : (Json.Value.number (.ofNat n)).WellFormed := Json.Number.wellFormed_ofNat n
  exact ⟨⟨trivial, hfilter, trivial⟩, ⟨trivial, hword _, hword _, trivial⟩,
    ⟨hword _, hword _, hword _, trivial⟩, ⟨hword _, trivial⟩, trivial⟩

/-- **Outcomes and settings are read back from JSON**: whatever their texts hold and however large
their numbers are, from both ways of writing them and from what the command line prints. -/
theorem read_back_from_json :
    (∀ m, ReadBack Wire.RegisterResponse.toJson Wire.RegisterResponse.ofJson m) ∧
    (∀ m, ReadBack Wire.LoginResponse.toJson Wire.LoginResponse.ofJson m) ∧
    (∀ (count : UInt64) (usernames : List String),
      ReadBack OnlineUsers.toJson OnlineUsers.ofJson ⟨count.toNat, usernames⟩) ∧
    ∀ s, ReadBack Settings.toJson Settings.ofJson s := by
  refine ⟨fun m => ?_, fun m => ?_, fun count usernames => ?_, fun s => ?_⟩
  · exact .of_document (asRecord _ · _) m.wellFormed_toJson m.read_back
  · exact .of_document (asRecord _ · _) m.wellFormed_toJson m.read_back
  · have hcount : count.toNat ≤ maxWord64 := Nat.le_pred_of_lt count.toNat_lt
    exact .of_document (asRecord _ · _) (OnlineUsers.wellFormed_toJson _)
      (OnlineUsers.read_back hcount)
  · exact .of_document (Settings.read format) s.wellFormed_toJson s.read_back_json

end Corelink
