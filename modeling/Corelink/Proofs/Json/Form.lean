import Corelink.Proofs.Json.Reading
import Corelink.Proofs.Record
import Mathlib.Data.List.Nodup

/-!
# Records that need every field

A `Form` says of a record of which no field may be left out what its members are. As an object, it
is read whatever the order of its members and whatever comes between them, if each comes once, and
is a mismatch otherwise (`Form.asRecord_object`). As an array, it is read from just these values in
their order (`Form.asRecord_array`), and never from more or fewer (`Form.length_eq_of_asRecord`).
-/

namespace Corelink.Json

open Document

variable {σ : Type} {fields : List (Field Document Error σ)} {ms : List (String × Value)}
  {state : List String → σ} {a : σ} {k : String} {f : Field Document Error σ}
  {m : String × Value} {es : List (String × Document)} {seen : List String}

/-- The field is needed, and reads the member's value. What has been read of a record is known by
its keys. -/
structure Matches (state : List String → σ) (f : Field Document Error σ) (m : String × Value) :
    Prop where
  name : f.name = m.1
  byName : f.optionalByName = false
  byPlace : f.optionalByPlace = false
  read : ∀ ks, f.read (.ofValue m.2) (state ks) = .ok (state (m.1 :: ks))

theorem Matches.required {α : Type} {read : Document → Except Error α} {w : Value} {x : α}
    {set : α → σ → σ} (name : String) (h : read (.ofValue w) = .ok x)
    (hset : ∀ ks, set x (state ks) = state (name :: ks)) :
    Matches state (.required name read set) (name, w) :=
  ⟨rfl, rfl, rfl, fun ks => by rw [Field.read_required name h set, hset]⟩

/-- The fields read the members, one by one, and all of them make the record. -/
structure Form (fields : List (Field Document Error σ)) (ms : List (String × Value))
    (state : List String → σ) (a : σ) : Prop where
  matching : List.Forall₂ (Matches state) fields ms
  complete : ∀ ks, (∀ m ∈ ms, m.1 ∈ ks) → state ks = a

/-- Where a key of the record first comes, it has the record's value. -/
def Filled (ms : List (String × Value)) (es : List (String × Document)) : Prop :=
  ∀ m ∈ ms, ∀ d, es.lookup m.1 = some d → d = .ofValue m.2

/-- The keys of the record among those that come. -/
def known (ms : List (String × Value)) (es : List (String × Document)) : List String :=
  (es.map Prod.fst).filter (· ∈ ms.map Prod.fst)

theorem known_cons_of_mem (h : k ∈ ms.map Prod.fst) (d : Document) :
    known ms ((k, d) :: es) = k :: known ms es := by
  simp only [known, List.map_cons, List.filter_cons, h, decide_true, if_true]

theorem known_cons_of_notMem (h : k ∉ ms.map Prod.fst) (d : Document) :
    known ms ((k, d) :: es) = known ms es := by
  simp only [known, List.map_cons, List.filter_cons, h, decide_false, Bool.false_eq_true, if_false]

theorem forall_count_eq_one_iff : (∀ m ∈ ms, (es.map Prod.fst).count m.1 = 1) ↔
    (known ms es).Nodup ∧ ∀ m ∈ ms, m.1 ∈ known ms es := by
  have hcount : ∀ m ∈ ms, (known ms es).count m.1 = (es.map Prod.fst).count m.1 := fun m hm =>
    List.count_filter (decide_eq_true (List.mem_map_of_mem hm))
  constructor
  · intro honce
    refine ⟨List.nodup_iff_count_le_one.2 fun k => ?_, fun m hm => ?_⟩
    · by_cases hk : k ∈ ms.map Prod.fst
      · obtain ⟨m, hm, rfl⟩ := List.mem_map.1 hk
        exact Nat.le_of_eq ((hcount m hm).trans (honce m hm))
      · have hnot : k ∉ known ms es := fun h => hk (of_decide_eq_true (List.mem_filter.1 h).2)
        rw [List.count_eq_zero.2 hnot]
        exact Nat.zero_le 1
    · rw [← List.count_pos_iff, hcount m hm, honce m hm]
      exact Nat.zero_lt_one
  · rintro ⟨hnodup, hall⟩ m hm
    rw [← hcount m hm, List.count_eq_one_of_mem hnodup (hall m hm)]

namespace Form

theorem exists_field (h : List.Forall₂ (Matches state) fields ms) (hk : k ∈ ms.map Prod.fst) :
    ∃ f, ∃ m ∈ ms, fields.find? (·.name = k) = some f ∧ m.1 = k ∧ Matches state f m := by
  induction h with
  | nil => cases hk
  | @cons f m fields ms hm _ ih =>
    by_cases hname : f.name = k
    · exact ⟨f, m, List.mem_cons_self, List.find?_cons_of_pos (decide_eq_true hname),
        hm.name ▸ hname, hm⟩
    · have hne : k ≠ m.1 := fun heq => hname (hm.name.trans heq.symm)
      obtain ⟨f', m', hm', hfind, hrest⟩ := ih ((List.mem_cons.1 hk).resolve_left hne)
      refine ⟨f', m', List.mem_cons_of_mem _ hm', ?_, hrest⟩
      rwa [List.find?_cons_of_neg (by simpa using hname)]

theorem needed_of_mem (h : List.Forall₂ (Matches state) fields ms) (hf : f ∈ fields) :
    f.optionalByName = false ∧ f.optionalByPlace = false ∧ f.name ∈ ms.map Prod.fst := by
  induction h with
  | nil => cases hf
  | cons hm _ ih =>
    obtain rfl | hf := List.mem_cons.1 hf
    · exact ⟨hm.byName, hm.byPlace, hm.name ▸ List.mem_cons_self⟩
    · obtain ⟨hbyName, hbyPlace, hname⟩ := ih hf
      exact ⟨hbyName, hbyPlace, List.mem_cons_of_mem _ hname⟩

/-- **Members are read** until a key of the record comes again. -/
theorem readMembers_eq (F : Form fields ms state a) (hskip : ∀ e ∈ es, e.2.skip = .ok ())
    (hseen : seen.Nodup)
    (hfilled : ∀ m ∈ ms, m.1 ∉ seen → ∀ d, es.lookup m.1 = some d → d = .ofValue m.2) :
    readMembers fields (es.map fun e => (.ok e.1, e.2)) seen (state seen) =
      if (known ms es ++ seen).Nodup then
        .ok ((known ms es).reverse ++ seen, state ((known ms es).reverse ++ seen))
      else .error .mismatch := by
  induction es generalizing seen with
  | nil => exact (if_pos hseen).symm
  | cons e es ih =>
    obtain ⟨k, d⟩ := e
    rw [List.forall_mem_cons] at hskip
    rw [List.map_cons]
    by_cases hk : k ∈ ms.map Prod.fst
    · obtain ⟨f, m, hm, hf, rfl, hmatch⟩ := exists_field F.matching hk
      rw [known_cons_of_mem hk]
      by_cases hagain : m.1 ∈ seen
      · have hnot : ¬(m.1 :: known ms es ++ seen).Nodup := fun h =>
          (List.nodup_cons.1 h).1 (List.mem_append_right _ hagain)
        rw [readMembers, if_neg hnot]
        simp only [bind, Except.bind, hf, List.contains_iff_mem.2 hagain, if_true]
      · have hd : d = .ofValue m.2 := hfilled m hm hagain d List.lookup_cons_self
        have hnew : seen.contains m.1 = false := by simpa using hagain
        rw [readMembers_cons hf hnew (hd ▸ hmatch.read seen), List.reverse_cons,
          List.append_assoc, List.singleton_append,
          ih hskip.2 (List.nodup_cons.2 ⟨hagain, hseen⟩) fun m' hm' hnot d' hd' => ?_]
        · simp only [List.nodup_middle, List.cons_append]
        · rw [List.mem_cons, not_or] at hnot
          refine hfilled m' hm' hnot.2 d' ?_
          rwa [List.lookup_cons, beq_eq_false_iff_ne.2 hnot.1]
    · have hf : fields.find? (·.name = k) = none := by
        rw [List.find?_eq_none]
        intro f hf
        rw [decide_eq_true_eq]
        rintro rfl
        exact hk (needed_of_mem F.matching hf).2.2
      rw [known_cons_of_notMem hk, readMembers]
      simp only [bind, Except.bind, hf, hskip.1]
      refine ih hskip.2 hseen fun m hm hnot d' hd' => hfilled m hm hnot d' ?_
      have hne : m.1 ≠ k := fun heq => hk (heq ▸ List.mem_map_of_mem hm)
      rwa [List.lookup_cons, beq_eq_false_iff_ne.2 hne]

/-- **An object is the record just if each of its keys comes once.** -/
theorem asRecord_object (F : Form fields ms state a) (hskip : ∀ e ∈ es, e.2.skip = .ok ())
    (hfilled : Filled ms es) :
    asRecord fields (.object (es.map fun e => (.ok e.1, e.2)) none) (state []) =
      if ∀ m ∈ ms, (es.map Prod.fst).count m.1 = 1 then .ok a else .error .mismatch := by
  have hread := F.readMembers_eq hskip List.nodup_nil fun m hm _ => hfilled m hm
  rw [List.append_nil, List.append_nil] at hread
  simp only [forall_count_eq_one_iff]
  by_cases hnodup : (known ms es).Nodup
  · rw [if_pos hnodup] at hread
    by_cases hall : ∀ m ∈ ms, m.1 ∈ known ms es
    · rw [if_pos ⟨hnodup, hall⟩, ← F.complete (known ms es).reverse fun m hm =>
        List.mem_reverse.2 (hall m hm)]
      refine Document.asRecord_object _ hread (List.all_eq_true.2 fun f hf => ?_)
      obtain ⟨-, -, hname⟩ := needed_of_mem F.matching hf
      obtain ⟨m, hm, heq⟩ := List.mem_map.1 hname
      rw [Bool.or_eq_true, List.contains_iff_mem, List.mem_reverse, ← heq]
      exact .inr (hall m hm)
    · rw [if_neg fun h => hall h.2, asRecord, hread]
      refine if_neg fun hfields => hall fun m hm => ?_
      obtain ⟨f, m', -, hf, hkey, hmatch⟩ := exists_field F.matching (List.mem_map_of_mem hm)
      have hcheck := List.all_eq_true.1 hfields f (List.mem_of_find?_eq_some hf)
      rwa [hmatch.byName, Bool.false_or, List.contains_iff_mem, List.mem_reverse, hmatch.name,
        hkey] at hcheck
  · rw [if_neg hnodup] at hread
    rw [if_neg fun h => hnodup h.1, asRecord, hread]
    rfl

/-! ### Arrays -/

theorem readItems_eq (h : List.Forall₂ (Matches state) fields ms) (seen : List String) :
    readItems fields (ms.map fun m => .ofValue m.2) none (state seen) =
      .ok (state ((ms.map Prod.fst).reverse ++ seen)) := by
  induction h generalizing seen with
  | nil => rfl
  | @cons f m fields ms hm _ ih =>
    rw [List.map_cons, readItems, hm.read seen, List.map_cons, List.reverse_cons,
      List.append_assoc]
    exact ih (m.1 :: seen)

/-- **An array of the values in their order is the record.** -/
theorem asRecord_array (F : Form fields ms state a) :
    asRecord fields (.array (ms.map fun m => .ofValue m.2) none) (state []) = .ok a := by
  rw [asRecord, readItems_eq F.matching [], List.append_nil]
  exact congrArg _ (F.complete _ fun m hm => List.mem_reverse.2 (List.mem_map_of_mem hm))

theorem length_eq_of_readItems {items : List Document} {cut : Option Break} {s s' : σ}
    (hneeded : ∀ f ∈ fields, f.optionalByPlace = false)
    (h : readItems fields items cut s = .ok s') : items.length = fields.length := by
  induction fields generalizing items s with
  | nil =>
    cases items with
    | nil => rfl
    | cons d ds => cases h
  | cons f fs ih =>
    rw [List.forall_mem_cons] at hneeded
    cases items with
    | nil =>
      cases cut with
      | some b => cases h
      | none =>
        rw [readItems, hneeded.1] at h
        cases h
    | cons d ds =>
      rw [readItems] at h
      cases hread : f.read d s with
      | error e =>
        rw [hread] at h
        cases h
      | ok s₁ =>
        rw [hread] at h
        exact congrArg (· + 1) (ih hneeded.2 h)

/-- **Only an array of as many values** is the record. -/
theorem length_eq_of_asRecord (F : Form fields ms state a) {items : List Document}
    {cut : Option Break} {s s' : σ} (h : asRecord fields (.array items cut) s = .ok s') :
    items.length = ms.length := by
  rw [← F.matching.length_eq]
  exact length_eq_of_readItems (fun f hf => (needed_of_mem F.matching hf).2.1) h

end Form

end Corelink.Json
