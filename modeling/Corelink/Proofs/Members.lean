import Corelink.Proofs.Json.Reading
import Corelink.Proofs.Toml.Document
import Corelink.Proofs.Toml.Reading

/-!
# Members in any order

A record is read member by member, whatever the order and whatever stands between its own keys
(`Takes`). A `View` says how values, tables and what is stepped over look in a kind of document, and
`Format.Reads` that a format reads them so, which both formats do (`Toml.Value.reads`,
`Json.Document.reads`). Where each member adds its key to what a record is known by, the order of
members is no matter (`Entered.exists_takes`, `Entered.exists_record`).
-/

namespace Corelink

variable {δ δ' ε σ : Type}

/-- How a kind of document looks to whoever writes it. -/
structure View (δ : Type) where
  /-- A value of a line. -/
  spells : Toml.Scalar → δ → Prop
  /-- A table with these members. -/
  table : List (String × δ) → δ → Prop
  /-- What may stand under a key that nobody knows. -/
  idle : δ → Prop

/-- Members read one after another take a record from one state to another. No key of its own comes
twice. -/
inductive Takes (V : View δ) (fields : List (Field δ ε σ)) : List (String × δ) → σ → σ → Prop where
  | done {s : σ} : Takes V fields [] s s
  | known {k : String} {d : δ} {es : List (String × δ)} {f : Field δ ε σ} {s s' s'' : σ} :
    fields.find? (·.name = k) = some f → f.read d s = .ok s' → k ∉ es.map Prod.fst →
    Takes V fields es s' s'' → Takes V fields ((k, d) :: es) s s''
  | unknown {k : String} {d : δ} {es : List (String × δ)} {s s' : σ} :
    fields.find? (·.name = k) = none → V.idle d → Takes V fields es s s' →
    Takes V fields ((k, d) :: es) s s'

/-- A format that reads what looks like this. -/
structure Format.Reads (F : Format δ ε) (V : View δ) : Prop where
  bool : ∀ {b d}, V.spells (.bool b) d → F.bool d = .ok b
  text : ∀ {t d}, V.spells (.text t) d → F.text d = .ok t
  optionalText : ∀ {t d}, V.spells (.text t) d → F.optionalText d = .ok (some t)
  word : ∀ {limit n d}, n ≤ limit → V.spells (.natural n) d → F.word limit d = .ok n
  record : ∀ {σ : Type} {fields : List (Field δ ε σ)} {es : List (String × δ)} {d : δ} {s s' : σ},
    (∀ f ∈ fields, f.optionalByName = true ∨ f.name ∈ es.map Prod.fst) → V.table es d →
    Takes V fields es s s' → F.record fields d s = .ok s'

/-! ### TOML -/

namespace Toml.Value

/-- Tables may come to be in any way, and unknown keys may have any value. -/
def view : View Value where
  spells v d := d = v.value
  table es d := ∃ o, d = .table o es
  idle _ := True

theorem readEntries_takes {fields : List (Field Value Unit σ)} {es : Entries} {s s' : σ}
    (h : Takes view fields es s s') : readEntries fields es s = .ok s' := by
  induction h with
  | done => rfl
  | known hf hread _ _ ih => rw [readEntries_cons hf hread, ih]
  | unknown hf _ _ ih =>
    rw [readEntries, hf]
    exact ih

theorem isSome_get? {es : Entries} {k : String} (h : k ∈ es.map Prod.fst) :
    (Entries.get? es k).isSome = true := by
  rw [Entries.get?, Option.isSome_iff_ne_none, Ne, List.lookup_eq_none_iff]
  intro hne
  obtain ⟨e, he, rfl⟩ := List.mem_map.1 h
  exact absurd (hne e he) (by simp)

theorem reads : format.Reads view where
  bool := by
    rintro b _ rfl
    rfl
  text := by
    rintro t _ rfl
    rfl
  optionalText := by
    rintro t _ rfl
    rfl
  word := by
    rintro limit n _ hn rfl
    exact asWord_natural hn
  record := by
    rintro σ fields es _ s s' hall ⟨o, rfl⟩ h
    refine asRecord_table (o := o) (List.all_eq_true.2 fun f hf => ?_) (readEntries_takes h)
    obtain hoptional | hmem := hall f hf
    · rw [hoptional, Bool.true_or]
    · rw [isSome_get? hmem, Bool.or_true]

end Toml.Value

theorem Toml.Scalar.value_injective {v w : Scalar} (h : v.value = w.value) : v = w := by
  cases v <;> cases w <;> cases h <;> rfl

/-! ### JSON -/

/-- A JSON value that is written out, with any value under unknown keys. -/
def Json.Value.view : View Json.Value where
  spells
    | .bool b, v => v = .bool b
    | .natural n, v => ∃ m : Number, v = .number m ∧ m.toNat? = some n
    | .text t, v => v = .text t
  table es v := v = .object es
  idle _ := True

namespace Json.Document

/-- Numbers may be written in any way that has neither sign, fraction nor exponent, and unknown keys
may have any value that can be stepped over. -/
def view : View Document where
  spells
    | .bool b, d => d = .bool b
    | .natural n, d => ∃ m : Number, d = .number m ∧ m.toNat? = some n
    | .text t, d => d = .text (.ok t)
  table es d := d = .object (es.map fun e => (.ok e.1, e.2)) none
  idle d := d.skip = .ok ()

/-- In the end all of a record's own keys have been seen that came. -/
theorem readMembers_takes {fields : List (Field Document Error σ)} {es : List (String × Document)}
    {s s' : σ} (h : Takes view fields es s s') (seen : List String)
    (hseen : ∀ k ∈ es.map Prod.fst, k ∉ seen) :
    ∃ seen', readMembers fields (es.map fun e => (.ok e.1, e.2)) seen s = .ok (seen', s') ∧
      ∀ f ∈ fields, f.name ∈ seen ∨ f.name ∈ es.map Prod.fst → f.name ∈ seen' := by
  induction h generalizing seen with
  | done => exact ⟨seen, rfl, fun f _ hf => hf.resolve_right List.not_mem_nil⟩
  | @known k d es f s s' s'' hf hread hnew _ ih =>
    rw [List.map_cons, List.forall_mem_cons] at hseen
    have hk : seen.contains k = false := by simpa using hseen.1
    obtain ⟨seen', hrest, hall⟩ := ih (k :: seen) fun j hj => by
      rw [List.mem_cons, not_or]
      exact ⟨fun hjk => hnew (hjk ▸ hj), hseen.2 j hj⟩
    refine ⟨seen', ?_, fun g hg hname => hall g hg ?_⟩
    · rw [List.map_cons, readMembers_cons hf hk hread, hrest]
    · rwa [List.map_cons, List.mem_cons, or_left_comm, ← or_assoc, ← List.mem_cons] at hname
  | @unknown k d es s s' hf hidle _ ih =>
    rw [List.map_cons, List.forall_mem_cons] at hseen
    obtain ⟨seen', hrest, hall⟩ := ih seen hseen.2
    refine ⟨seen', ?_, fun g hg hname => hall g hg ?_⟩
    · rw [List.map_cons, readMembers]
      simp only [bind, Except.bind, hf, show d.skip = .ok () from hidle, hrest]
    · -- no field of the record has this name
      have hne : g.name ≠ k := by simpa using List.find?_eq_none.1 hf g hg
      rw [List.map_cons, List.mem_cons] at hname
      exact hname.imp_right fun hmem => hmem.resolve_left hne

theorem reads : format.Reads view where
  bool := by
    rintro b _ rfl
    rfl
  text := by
    rintro t _ rfl
    rfl
  optionalText := by
    rintro t _ rfl
    rfl
  word := by
    rintro limit n _ hn ⟨m, rfl, hm⟩
    show asWord limit (.number m) = .ok n
    rw [asWord, hm]
    exact if_pos hn
  record := by
    rintro σ fields es _ s s' hall rfl h
    obtain ⟨seen, hread, hseen⟩ := readMembers_takes h [] fun _ _ => List.not_mem_nil
    refine asRecord_object seen hread (List.all_eq_true.2 fun f hf => ?_)
    obtain hoptional | hmem := hall f hf
    · rw [hoptional, Bool.true_or]
    · rw [List.contains_iff_mem.2 (hseen f hf (.inr hmem)), Bool.or_true]

mutual

theorem skip_ofValue : ∀ v : Value, (ofValue v).skip = .ok ()
  | .null | .bool _ | .number _ | .text _ => rfl
  | .array items => by
    rw [ofValue, skip, skipItems_ofItems items]
    rfl
  | .object members => by
    rw [ofValue, skip, skipMembers_ofMembers members]
    rfl

theorem skipItems_ofItems : ∀ vs : List Value, skipItems (ofItems vs) = .ok ()
  | [] => rfl
  | v :: vs => by
    rw [ofItems, skipItems, skip_ofValue v]
    exact skipItems_ofItems vs

theorem skipMembers_ofMembers : ∀ ms : List (String × Value), skipMembers (ofMembers ms) = .ok ()
  | [] => rfl
  | (_, v) :: ms => by
    rw [ofMembers, skipMembers, skip_ofValue v]
    exact skipMembers_ofMembers ms

end

theorem spells_ofValue {v : Toml.Scalar} {w : Value} (h : Value.view.spells v w) :
    view.spells v (ofValue w) := by
  cases v with
  | bool | text =>
    obtain rfl := h
    rfl
  | natural =>
    obtain ⟨m, rfl, hm⟩ := h
    exact ⟨m, rfl, hm⟩

theorem table_ofValue {es : List (String × Value)} {w : Value} (h : Value.view.table es w) :
    view.table (es.map fun e => (e.1, ofValue e.2)) (ofValue w) := by
  obtain rfl := h
  show ofValue (.object es) = _
  rw [ofValue, ofMembers_eq, List.map_map]
  rfl

end Json.Document

/-! ### Any order -/

/-- Members that give a record what is needed of it, each of its keys at most once, and beside it
only what can be stepped over. -/
structure Entered (V : View δ) (known needed : List String) (P : String → δ → Prop)
    (es : List (String × δ)) : Prop where
  given : ∀ e ∈ es, e.1 ∈ known → P e.1 e.2
  complete : ∀ k ∈ needed, k ∈ es.map Prod.fst
  once : ((es.map Prod.fst).filter (· ∈ known)).Nodup
  idle : ∀ e ∈ es, e.1 ∉ known → V.idle e.2

namespace Entered

variable {V : View δ} {known needed : List String} {P : String → δ → Prop} {e : String × δ}
  {es : List (String × δ)}

theorem tail (h : Entered V known needed P (e :: es)) : Entered V known [] P es where
  given e' he' := h.given e' (List.mem_cons_of_mem _ he')
  complete := List.forall_mem_nil _
  once := h.once.sublist ((List.sublist_cons_self _ _).filter _)
  idle e' he' := h.idle e' (List.mem_cons_of_mem _ he')

theorem head_not_mem (h : Entered V known needed P (e :: es)) (he : e.1 ∈ known) :
    e.1 ∉ es.map Prod.fst := by
  intro hmem
  have honce := h.once
  have hkeep : decide (e.1 ∈ known) = true := decide_eq_true he
  rw [List.map_cons, List.filter_cons, if_pos hkeep, List.nodup_cons] at honce
  exact honce.1 (List.mem_filter.2 ⟨hmem, decide_eq_true he⟩)

theorem map {V' : View δ'} {P' : String → δ' → Prop} (g : δ → δ')
    (hP : ∀ k d, P k d → P' k (g d)) (hidle : ∀ d, V.idle d → V'.idle (g d))
    (h : Entered V known needed P es) :
    Entered V' known needed P' (es.map fun e => (e.1, g e.2)) := by
  have hkeys : (es.map fun e => (e.1, g e.2)).map Prod.fst = es.map Prod.fst := by
    rw [List.map_map]
    rfl
  refine ⟨List.forall_mem_map.2 fun e he hk => hP _ _ (h.given e he hk), ?_, ?_,
    List.forall_mem_map.2 fun e he hk => hidle _ (h.idle e he hk)⟩
  · rw [hkeys]
    exact h.complete
  · rw [hkeys]
    exact h.once

variable {fields : List (Field δ ε σ)}

/-- **The order of members is no matter**, where each adds its key to those that a record is known
by. -/
theorem exists_takes (state : List String → σ) (hnames : fields.map (·.name) = known)
    (hread : ∀ k d, k ∈ known → P k d → ∃ f, fields.find? (·.name = k) = some f ∧
      ∀ ks, k ∉ ks → f.read d (state ks) = .ok (state (k :: ks)))
    (h : Entered V known needed P es) (seen : List String)
    (hseen : ∀ k ∈ es.map Prod.fst, k ∈ known → k ∉ seen) :
    ∃ ks, (∀ k, k ∈ ks ↔ k ∈ seen ∨ k ∈ known ∧ k ∈ es.map Prod.fst) ∧
      Takes V fields es (state seen) (state ks) := by
  induction es generalizing needed seen with
  | nil => exact ⟨seen, fun k => by simp, .done⟩
  | cons e es ih =>
    obtain ⟨k, d⟩ := e
    rw [List.map_cons, List.forall_mem_cons] at hseen
    by_cases hk : k ∈ known
    · obtain ⟨f, hf, hstep⟩ := hread k d hk (h.given _ List.mem_cons_self hk)
      have hnew := h.head_not_mem hk
      obtain ⟨ks, hks, htakes⟩ := ih h.tail (k :: seen) fun j hj hjk => by
        rw [List.mem_cons, not_or]
        exact ⟨fun heq => hnew (heq ▸ hj), hseen.2 j hj hjk⟩
      refine ⟨ks, fun j => ?_, .known hf (hstep seen (hseen.1 hk)) hnew htakes⟩
      rw [hks, List.map_cons, List.mem_cons, List.mem_cons]
      grind
    · have hf : fields.find? (·.name = k) = none := by
        rw [List.find?_eq_none]
        intro f hf
        rw [decide_eq_true_eq]
        rintro rfl
        exact hk (hnames ▸ List.mem_map_of_mem hf)
      obtain ⟨ks, hks, htakes⟩ := ih h.tail seen hseen.2
      refine ⟨ks, fun j => ?_, .unknown hf (h.idle _ List.mem_cons_self hk) htakes⟩
      rw [hks, List.map_cons, List.mem_cons]
      grind

/-- A record of which nothing is required is read whatever the order of its members. -/
theorem exists_record {F : Format δ ε} (hF : F.Reads V) (state : List String → σ)
    (hnames : fields.map (·.name) = known)
    (hread : ∀ k d, k ∈ known → P k d → ∃ f, fields.find? (·.name = k) = some f ∧
      ∀ ks, k ∉ ks → f.read d (state ks) = .ok (state (k :: ks)))
    (hoptional : ∀ f ∈ fields, f.optionalByName = true) (h : Entered V known needed P es) {d : δ}
    (htable : V.table es d) :
    ∃ ks, (∀ k, k ∈ ks ↔ k ∈ known ∧ k ∈ es.map Prod.fst) ∧
      F.record fields d (state []) = .ok (state ks) := by
  obtain ⟨ks, hks, htakes⟩ := h.exists_takes state hnames hread [] fun _ _ _ => List.not_mem_nil
  refine ⟨ks, fun k => ?_, hF.record (fun f hf => .inl (hoptional f hf)) htable htakes⟩
  rw [hks, or_iff_right List.not_mem_nil]

end Entered

end Corelink
