import Corelink.Settings.Document

/-!
# Fields of records

A field whose value is read sets it, whatever kind of document it is read from.
-/

namespace Corelink

variable {δ ε σ α : Type} {read : δ → Except ε α} {d : δ} {a : α}

namespace Field

theorem read_required (name : String) (h : read d = .ok a) (set : α → σ → σ) (s : σ) :
    (required name read set).read d s = .ok (set a s) := by
  show (read d).map (set · s) = .ok (set a s)
  rw [h]
  rfl

theorem read_withDefault (name : String) (h : read d = .ok a) (set : α → σ → σ) (s : σ) :
    (withDefault name read set).read d s = .ok (set a s) := by
  show (required name read set).read d s = .ok (set a s)
  exact read_required name h set s

theorem read_byName (name : String) (h : read d = .ok a) (set : α → σ → σ) (s : σ) :
    (byName name read set).read d s = .ok (set a s) := by
  show (required name read set).read d s = .ok (set a s)
  exact read_required name h set s

theorem read_inner (name : String) {F : Format δ ε} {fields : List (Field δ ε α)} (get : σ → α)
    {s : σ} (h : F.record fields d (get s) = .ok a) (set : α → σ → σ) :
    (inner name F fields get set).read d s = .ok (set a s) := by
  show (F.record fields d (get s)).map (set · s) = .ok (set a s)
  rw [h]
  rfl

end Field

theorem read_wordField (name : String) {F : Format δ ε} {n : UInt64}
    (h : F.word (UInt64.size - 1) d = .ok n.toNat) (set : UInt64 → σ → σ) (s : σ) :
    (wordField F name set).read d s = .ok (set n s) := by
  have hset := Field.read_withDefault name h (fun n => set (UInt64.ofNat n)) s
  rwa [UInt64.ofNat_toNat] at hset

end Corelink
