import Corelink.Proofs.Record
import Corelink.Toml.Reading

/-!
# Values and records taken out of tables

A record is taken out of a table key by key (`readEntries_cons`), and in the end nothing that is
needed may be missing (`asRecord_table`).
-/

namespace Corelink.Toml.Value

variable {σ α : Type} {name : String} {v : Value} {a : α}

theorem read_inner {fields : List (Field Value Unit α)} (get : σ → α) {s : σ}
    (h : asRecord fields v (get s) = .ok a) (set : α → σ → σ) :
    (Field.inner name format fields get set).read v s = .ok (set a s) :=
  Field.read_inner name get h set

theorem asWord_natural {n limit : Nat} (h : n ≤ limit) : asWord limit (.integer n) = .ok n := by
  rw [asWord, if_pos (by omega), Int.toNat_natCast]

theorem asWord_word (n : UInt64) : asWord (UInt64.size - 1) (.integer n.toNat) = .ok n.toNat :=
  asWord_natural (Nat.le_pred_of_lt n.toNat_lt)

theorem readEntries_cons {fields : List (Field Value Unit σ)} {f : Field Value Unit σ} {k : String}
    {es : Entries} {s s' : σ} (hf : fields.find? (·.name = k) = some f)
    (hread : f.read v s = .ok s') :
    readEntries fields ((k, v) :: es) s = readEntries fields es s' := by
  rw [readEntries, hf]
  simp only [bind, Except.bind, hread]

theorem asRecord_table {fields : List (Field Value Unit σ)} {es : Entries} {s s' : σ} {o : Origin}
    (hall : fields.all (fun f => f.optionalByName || (es.get? f.name).isSome) = true)
    (h : readEntries fields es s = .ok s') : asRecord fields (.table o es) s = .ok s' := by
  simp only [asRecord, readTable, h, bind, Except.bind, hall, if_pos]

end Corelink.Toml.Value
