/-!
# Directories

Values by username, at most one for each, in the order they were put in; and total maps,
which are functions changed at one place at a time by `assign`.
-/

namespace Corelink

/-- The map `f` with `a` at `i`. -/
def assign {ι α : Type} [DecidableEq ι] (f : ι → α) (i : ι) (a : α) : ι → α :=
  fun j => if j = i then a else f j

section
variable {ι α : Type} [DecidableEq ι] (f : ι → α) (a : α)

@[simp] theorem assign_same (i : ι) : assign f i a i = a := by
  simp [assign]

theorem assign_ne {i j : ι} (h : j ≠ i) : assign f i a j = f j := by
  simp [assign, h]

theorem assign_apply (i j : ι) : assign f i a j = if j = i then a else f j := rfl

/-- What the new value has in common with the old one does not change. -/
theorem proj_assign {β : Type} (π : α → β) {i : ι} (h : π a = π (f i)) (j : ι) :
    π (assign f i a j) = π (f j) := by
  rw [assign_apply]
  split
  · next e => rw [e, h]
  · rfl

/-- Nothing changes where the old value is put in again. -/
theorem assign_eq_self {i : ι} (h : a = f i) : assign f i a = f :=
  funext (proj_assign f a id h)

end

structure Directory (α : Type) where
  entries : List (String × α) := []
  nodup : (entries.map (·.1)).Nodup := by simp

namespace Directory

variable {α : Type}

def empty : Directory α := {}

def size (d : Directory α) : Nat :=
  d.entries.length

def get? (d : Directory α) (u : String) : Option α :=
  (d.entries.find? (·.1 = u)).map (·.2)

def erase (d : Directory α) (u : String) : Directory α :=
  { entries := d.entries.filter (·.1 ≠ u)
    nodup := d.nodup.sublist (List.filter_sublist.map _) }

theorem notMem_erase (d : Directory α) (u : String) : u ∉ (d.erase u).entries.map (·.1) := by
  simp [erase]

/-- Puts `a` in as the last entry, in place of what `u` had. -/
def insert (d : Directory α) (u : String) (a : α) : Directory α :=
  { entries := (d.erase u).entries ++ [(u, a)]
    nodup := by
      rw [List.map_append, List.nodup_append]
      refine ⟨(d.erase u).nodup, by simp, ?_⟩
      intro v hv w hw
      have : w = u := by simpa using hw
      subst this
      exact fun h => d.notMem_erase w (h ▸ hv) }

@[simp] theorem get?_empty (u : String) : (empty : Directory α).get? u = none := rfl

theorem get?_eq_none_iff {d : Directory α} {u : String} :
    d.get? u = none ↔ u ∉ d.entries.map (·.1) := by
  simp only [get?, Option.map_eq_none_iff, List.find?_eq_none, List.mem_map, not_exists, not_and,
    decide_eq_true_eq]

theorem mem_entries_iff {d : Directory α} {u : String} {a : α} :
    (u, a) ∈ d.entries ↔ d.get? u = some a := by
  obtain ⟨es, hn⟩ := d
  unfold get?
  induction es with
  | nil => simp
  | cons e es ih =>
    obtain ⟨v, b⟩ := e
    simp only [List.map_cons, List.nodup_cons] at hn
    by_cases hv : v = u
    · subst hv
      have : ∀ c, (v, c) ∉ es := fun c hc => hn.1 (List.mem_map.2 ⟨_, hc, rfl⟩)
      simp [this, eq_comm]
    · have := ih hn.2
      simp [hv, this, Ne.symm hv]

theorem get?_erase (d : Directory α) (u v : String) :
    (d.erase u).get? v = if v = u then none else d.get? v := by
  unfold get? erase
  simp only [List.find?_filter]
  split
  · rename_i h
    subst h
    simp
  · rename_i h
    congr 2
    funext e
    by_cases he : e.1 = v <;> simp [he, h]

/-- Nothing changes where there is nothing to erase. -/
theorem erase_of_get?_none {d : Directory α} {u : String} (h : d.get? u = none) :
    d.erase u = d := by
  obtain ⟨es, hn⟩ := d
  simp only [erase, mk.injEq]
  refine List.filter_eq_self.2 fun e he => decide_eq_true ?_
  rintro rfl
  exact get?_eq_none_iff.1 h (List.mem_map_of_mem he)

theorem get?_insert (d : Directory α) (u v : String) (a : α) :
    (d.insert u a).get? v = if v = u then some a else d.get? v := by
  have h := get?_erase d u v
  unfold get? insert at *
  simp only [List.find?_append, Option.map_or, h]
  split
  · rename_i hv
    subst hv
    simp
  · rename_i hv
    simp [Ne.symm hv]

end Directory

end Corelink
