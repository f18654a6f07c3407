import Corelink.Proofs.Json.Form
import Corelink.Proofs.Outcome

/-!
# Outcomes are read strictly

The outcomes that front ends are answered with need all of their members (`form`, one for each
record). So an object is read as the record whatever the order of its members and whatever stands
under other keys, but only if each member comes once; and an array only if it has just the values,
in the order they are declared (`outcomes_are_read_strictly`). All this is said of texts, however
they are written.
-/

namespace Corelink

open Json Json.Document

namespace Json

variable {σ : Type}

def Value.members : Value → List (String × Value)
  | .object ms => ms
  | _ => []

/-- Texts are read as the record with these members, or not at all. -/
structure ReadStrictly (ms : List (String × Value)) (read : String → Except Error σ) (a : σ) :
    Prop where
  /-- An object that gives each member where its key first comes, and anything under other keys. -/
  object : ∀ (es : List (String × Document)) (cs before after : List Char),
    Spells (.object (es.map fun e => (.ok e.1, e.2)) none) cs → Blanks before → Blanks after →
    Filled ms es →
    read (String.ofList (before ++ (cs ++ after))) =
      if ∀ m ∈ ms, (es.map Prod.fst).count m.1 = 1 then .ok a else .error .mismatch
  array : ∀ cs before after : List Char,
    Spells (.array (ms.map fun m => .ofValue m.2) none) cs → Blanks before → Blanks after →
    read (String.ofList (before ++ (cs ++ after))) = .ok a
  length : ∀ (ds : List Document) (cs before after : List Char),
    Spells (.array ds none) cs → Blanks before → Blanks after → ds.length ≠ ms.length →
    ∃ e, read (String.ofList (before ++ (cs ++ after))) = .error e

theorem Form.readStrictly {fields : List (Field Document Error σ)} {ms : List (String × Value)}
    {state : List String → σ} {a : σ} (F : Form fields ms state a) :
    ReadStrictly ms (parse fun d => asRecord fields d (state [])) a where
  object es cs before after h hbefore hafter hfilled := by
    rw [parse_spells _ h hbefore hafter]
    exact F.asRecord_object (fun e he => h.skip_of_mem _ (List.mem_map_of_mem he)) hfilled
  array cs before after h hbefore hafter := by
    rw [parse_spells _ h hbefore hafter, F.asRecord_array]
  length ds cs before after h hbefore hafter hne := by
    rw [parse_spells _ h hbefore hafter]
    cases hread : asRecord fields (.array ds none) (state []) with
    | error e => exact ⟨e, rfl⟩
    | ok s => exact absurd (F.length_eq_of_asRecord hread) hne

theorem ReadStrictly.compact {ms es : List (String × Value)} {read : String → Except Error σ}
    {a : σ} (h : ReadStrictly ms read a) (hes : (Value.object es).WellFormed)
    (hfilled : Filled ms (es.map fun e => (e.1, .ofValue e.2))) :
    read (String.ofList (Value.object es).compact) =
      if ∀ m ∈ ms, (es.map Prod.fst).count m.1 = 1 then .ok a else .error .mismatch := by
  have hspells := ((Value.object es).laid_compact hes).spells
  have hmap : ofMembers es =
      (es.map fun e => (e.1, ofValue e.2)).map fun e => (.ok e.1, e.2) := by
    rw [ofMembers_eq, List.map_map]
    rfl
  rw [ofValue, hmap] at hspells
  have hread := h.object _ _ [] [] hspells blanks_nil blanks_nil hfilled
  rwa [List.nil_append, List.append_nil, List.map_map] at hread

end Json

/-! ### The records -/

namespace Wire

/-- The answer with the members of these keys, and defaults for the others. -/
def RegisterResponse.part (m : RegisterResponse) (ks : List String) : RegisterResponse where
  ok := if "ok" ∈ ks then m.ok else false
  message := if "message" ∈ ks then m.message else ""

theorem RegisterResponse.form (m : RegisterResponse) :
    Json.Form fields m.toJson.members m.part m where
  matching := .cons (.required "ok" (asBool_bool m.ok) fun ks => by simp [part])
    (.cons (.required "message" (asText_text m.message) fun ks => by simp [part]) .nil)
  complete ks h := by
    simp only [toJson, Value.members, List.forall_mem_cons] at h
    simp only [part, h, if_true]

/-- The answer with the members of these keys, and defaults for the others. -/
def LoginResponse.part (m : LoginResponse) (ks : List String) : LoginResponse where
  ok := if "ok" ∈ ks then m.ok else (rejected "").ok
  token := if "token" ∈ ks then m.token else (rejected "").token
  userId := if "user_id" ∈ ks then m.userId else (rejected "").userId
  username := if "username" ∈ ks then m.username else (rejected "").username
  message := if "message" ∈ ks then m.message else (rejected "").message

theorem LoginResponse.form (m : LoginResponse) :
    Json.Form fields m.toJson.members m.part m where
  matching := .cons (.required "ok" (asBool_bool m.ok) fun ks => by simp [part])
    (.cons (.required "token" (asText_text m.token) fun ks => by simp [part])
    (.cons (.required "user_id" (asWord_word m.userId) fun ks => by simp [part])
    (.cons (.required "username" (asText_text m.username) fun ks => by simp [part])
    (.cons (.required "message" (asText_text m.message) fun ks => by simp [part]) .nil))))
  complete ks h := by
    simp only [toJson, Value.members, List.forall_mem_cons] at h
    simp only [part, h, if_true]

end Wire

/-- The users with the members of these keys, and defaults for the others. -/
def OnlineUsers.part (u : OnlineUsers) (ks : List String) : OnlineUsers where
  count := if "count" ∈ ks then u.count else 0
  usernames := if "usernames" ∈ ks then u.usernames else []

theorem OnlineUsers.form {u : OnlineUsers} (h : u.count ≤ maxWord64) :
    Form fields u.toJson.members u.part u where
  matching := .cons (.required "count" (asWord_ofNat h) fun ks => by simp [part])
    (.cons (.required "usernames" (asTexts_map u.usernames) fun ks => by simp [part]) .nil)
  complete ks h := by
    simp only [toJson, Value.members, List.forall_mem_cons] at h
    simp only [part, h, if_true]

/-- **Outcomes are read strictly.** Objects are read as the outcome whatever the order of members
and whatever else is in them, if each of its members comes once, and else they are a mismatch;
arrays are, of just its values in the order of its members, and never of more or fewer. -/
theorem outcomes_are_read_strictly :
    (∀ m, ReadStrictly m.toJson.members Wire.RegisterResponse.ofJson m) ∧
    (∀ m, ReadStrictly m.toJson.members Wire.LoginResponse.ofJson m) ∧
    ∀ (count : UInt64) (usernames : List String),
      ReadStrictly (OnlineUsers.mk count.toNat usernames).toJson.members OnlineUsers.ofJson
        ⟨count.toNat, usernames⟩ := by
  refine ⟨fun m => m.form.readStrictly, fun m => m.form.readStrictly, fun count usernames => ?_⟩
  have hcount : count.toNat ≤ maxWord64 := Nat.le_pred_of_lt count.toNat_lt
  exact (OnlineUsers.form hcount).readStrictly

/-- Members in another order than they are declared, with one that is unknown between them. -/
def lateMembers : List (String × Value) :=
  [("message", .text "hi"), ("rank", .array [.null, .object []]), ("ok", .bool true)]

theorem spells_coded_array :
    Spells (.array [.bool true, .text (.ok "hi")] none) "[ true,\x22h\\u0069\x22 ]".toList := by
  have hblank : Blanks [' '] := blanks_space
  have htext := Spells.text [.plain 'h' (by decide), .unit '0' '0' '6' '9' 0x69 rfl]
  exact .array hblank (.more (.bool true) blanks_nil blanks_nil (.last htext hblank))

theorem late_members_are_read :
    Wire.RegisterResponse.ofJson (String.ofList (Value.object lateMembers).compact) =
      .ok ⟨true, "hi"⟩ ∧
    Wire.RegisterResponse.ofJson (String.ofList (Value.object lateMembers.tail).compact) =
      .error .mismatch ∧
    Wire.RegisterResponse.ofJson
      (String.ofList (Value.object (lateMembers ++ [("ok", .null)])).compact) = .error .mismatch ∧
    Wire.RegisterResponse.ofJson "[ true,\x22h\\u0069\x22 ]" = .ok ⟨true, "hi"⟩ ∧
    ∃ e, Wire.RegisterResponse.ofJson "[true]" = .error e := by
  have hstrict := outcomes_are_read_strictly.1 ⟨true, "hi"⟩
  have harray := hstrict.array _ [] [] spells_coded_array blanks_nil blanks_nil
  have hshort := hstrict.length [.bool true] _ [] []
    (.array blanks_nil (.last (.bool true) blanks_nil)) blanks_nil blanks_nil (by decide)
  refine ⟨(hstrict.compact ?_ ?_).trans (if_pos (by decide)),
    (hstrict.compact ?_ ?_).trans (if_neg (by decide)),
    (hstrict.compact ?_ ?_).trans (if_neg (by decide)), harray, hshort⟩
  · exact ⟨trivial, ⟨trivial, trivial, trivial⟩, trivial, trivial⟩
  · exact List.forall_mem_cons.2 ⟨by rintro _ ⟨⟩; rfl,
      List.forall_mem_singleton.2 (by rintro _ ⟨⟩; rfl)⟩
  · exact ⟨⟨trivial, trivial, trivial⟩, trivial, trivial⟩
  · exact List.forall_mem_cons.2 ⟨by rintro _ ⟨⟩; rfl,
      List.forall_mem_singleton.2 (by rintro _ ⟨⟩)⟩
  · exact ⟨trivial, ⟨trivial, trivial, trivial⟩, trivial, trivial, trivial⟩
  · exact List.forall_mem_cons.2 ⟨by rintro _ ⟨⟩; rfl,
      List.forall_mem_singleton.2 (by rintro _ ⟨⟩; rfl)⟩

end Corelink
