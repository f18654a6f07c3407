import Corelink.Json.Reading
import Corelink.Proofs.Json.Document

/-!
# Values and records taken out of documents

A record is taken out of an object member by member: a key that has not been seen is read by its
field (`readMembers_cons`), and in the end nothing that is needed may be missing
(`asRecord_object`).
-/

namespace Corelink.Json.Document

variable {σ : Type} {fields : List (Field Document Error σ)} {d : Document}
  {ms : List (Except Error String × Document)} {s s' : σ}

theorem readMembers_cons {f : Field Document Error σ} {k : String} {seen : List String}
    (hf : fields.find? (·.name = k) = some f) (hseen : seen.contains k = false)
    (hread : f.read d s = .ok s') :
    readMembers fields ((.ok k, d) :: ms) seen s = readMembers fields ms (k :: seen) s' := by
  rw [readMembers]
  simp only [bind, Except.bind, hf, hseen, Bool.false_eq_true, if_false, hread]

theorem asRecord_object (seen : List String) (h : readMembers fields ms [] s = .ok (seen, s'))
    (hall : fields.all (fun f => f.optionalByName || seen.contains f.name) = true) :
    asRecord fields (.object ms none) s = .ok s' := by
  simp only [asRecord, h, bind, Except.bind, hall, if_pos]

theorem asBool_bool (b : Bool) : asBool (.bool b) = .ok b :=
  rfl

theorem asText_text (s : String) : asText (.text (.ok s)) = .ok s :=
  rfl

theorem asWord_ofNat {n limit : Nat} (h : n ≤ limit) :
    asWord limit (.number (.ofNat n)) = .ok n := by
  simp only [asWord, Number.toNat?_ofNat, if_pos h]

theorem asWord_word (n : UInt64) :
    asWord (UInt64.size - 1) (.number (.ofNat n.toNat)) = .ok n.toNat :=
  asWord_ofNat (Nat.le_pred_of_lt n.toNat_lt)

theorem mapM_asText (ss : List String) : (ofItems (ss.map .text)).mapM asText = .ok ss := by
  induction ss with
  | nil => rfl
  | cons s ss ih =>
    rw [List.map_cons, ofItems, List.mapM_cons, ih]
    rfl

theorem asTexts_map (ss : List String) :
    asTexts (.array (ofItems (ss.map .text)) none) = .ok ss := by
  rw [asTexts, mapM_asText]
  rfl

end Corelink.Json.Document
