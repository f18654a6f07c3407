import Corelink.Proofs.Settings.Partial
import Corelink.Proofs.Wire.Field

/-!
# Settings one by one

A setting is found by its section and its key (`Settings.value?`), and settings that are alike in
each of them are the same (`Settings.ext_value?`). Reading a field sets its own line to what the
value stands for and no other line (`Field.Sets`), so a record is read line by line
(`Toml.Value.asRecord_lookup`), and settings are what a document gives, tables in any order or lists
of values, and else what they were to begin with (`Settings.value?_read`).
-/

namespace Corelink

open Toml (Scalar Section)

variable {σ τ α : Type}

namespace Toml

/-! ### What a document gives -/

/-- What the entries of a key are taken to be. In a document no key is there twice; the last would
count. -/
def Entries.last? (es : Entries) (k : String) (take : Value → Option Scalar) : Option Scalar :=
  es.reverse.findSome? fun e => if e.1 = k then take e.2 else none

namespace Value

/-- The setting that a value stands for, if it is one. -/
def asScalar? : Value → Option Scalar
  | .bool b => some (.bool b)
  | .integer n => if 0 ≤ n then some (.natural n.toNat) else none
  | .text s => some (.text s)
  | .float | .date | .array _ | .table _ _ | .tables _ => none

/-- What a value gives a record of these names: a table by the name, a list by the place. -/
def pairs (names : List String) : Value → Entries
  | .table _ es => es
  | .array vs => names.zip vs
  | .tables ts => names.zip (ts.map (.table .header))
  | .bool _ | .integer _ | .float | .date | .text _ => []

/-- The setting that a value gives a record of these names under one of them. -/
def given? (names : List String) (k : String) (v : Value) : Option Scalar :=
  (v.pairs names).last? k asScalar?

end Value

end Toml

/-- The setting that a document gives. -/
def Settings.given? (root : Toml.Entries) (name k : String) : Option Scalar :=
  root.last? name (Toml.Value.given? (keys name) k)

/-! ### Fields and lines -/

theorem map_eq_ok_iff {ε β : Type} {x : Except ε α} {f : α → β} {b : β} :
    x.map f = .ok b ↔ ∃ a, x = .ok a ∧ f a = b := by
  cases x with
  | error e => exact ⟨nofun, fun ⟨_, h, _⟩ => nomatch h⟩
  | ok a =>
    constructor
    · exact fun h => ⟨a, rfl, Except.ok.inj h⟩
    · rintro ⟨a, ⟨⟩, rfl⟩
      rfl

/-- The line of this name is set, and the others are as they were. -/
structure LineSet (before : List (String × Scalar)) (name : String) (w : Scalar)
    (after : List (String × Scalar)) : Prop where
  own : after.lookup name = some w
  others : ∀ k, (k == name) = false → after.lookup k = before.lookup k

/-- Reading the field sets its own line to what the value stands for, and no other line. -/
def Field.Sets (lines : σ → List (String × Scalar)) (f : Field Toml.Value Unit σ) : Prop :=
  ∀ v s s', f.read v s = .ok s' → ∀ k,
    (lines s').lookup k = (if f.name = k then v.asScalar? else none).or ((lines s).lookup k)

namespace Toml.Value

variable {fields : List (Field Value Unit σ)} {lines : σ → List (String × Scalar)} {v : Value}
  {s s' : σ} {k : String} {limit n : Nat}

theorem asBool_eq_ok {b : Bool} (h : asBool v = .ok b) : v = .bool b := by
  cases v <;> cases h
  rfl

theorem asText_eq_ok {t : String} (h : asText v = .ok t) : v = .text t := by
  cases v <;> cases h
  rfl

theorem asOptionalText_eq_ok {t : Option String} (h : asOptionalText v = .ok t) :
    ∃ text, v = .text text ∧ t = some text := by
  cases v <;> cases h
  exact ⟨_, rfl, rfl⟩

theorem asWord_eq_ok (h : asWord limit v = .ok n) :
    v.asScalar? = some (.natural n) ∧ n ≤ limit := by
  cases v with
  | integer m =>
    rw [asWord] at h
    split at h
    · next hm =>
      cases h
      exact ⟨if_pos hm.1, by omega⟩
    · cases h
  | bool | float | date | text | array | table | tables => cases h

variable {name : String} {read : Value → Except Unit α} {set : α → σ → σ}

theorem sets_of_read {f : Field Value Unit σ} (name : String) (hname : f.name = name)
    (hread : ∀ v s, f.read v s = (read v).map (set · s))
    (h : ∀ v a, read v = .ok a → ∃ w, v.asScalar? = some w ∧
      ∀ s, LineSet (lines s) name w (lines (set a s))) : f.Sets lines := by
  intro v s s' hok k
  rw [hread] at hok
  obtain ⟨a, hv, rfl⟩ := map_eq_ok_iff.1 hok
  obtain ⟨w, hw, hset⟩ := h v a hv
  rw [hname, hw]
  by_cases hk : name = k
  · rw [if_pos hk, Option.some_or, ← hk, (hset s).own]
  · rw [if_neg hk, Option.none_or, (hset s).others k (beq_false_of_ne (Ne.symm hk))]

theorem sets_word {set : Nat → σ → σ}
    (h : ∀ n ≤ limit, ∀ s, LineSet (lines s) name (.natural n) (lines (set n s))) :
    (Field.withDefault name (asWord limit) set).Sets lines :=
  sets_of_read name rfl (fun _ _ => rfl) fun _ n hn =>
    ⟨.natural n, (asWord_eq_ok hn).1, h n (asWord_eq_ok hn).2⟩

theorem sets_wordField {set : UInt64 → σ → σ}
    (h : ∀ n s, LineSet (lines s) name (.natural n.toNat) (lines (set n s))) :
    (wordField format name set).Sets lines := by
  refine sets_word fun n hn s => ?_
  have hword : (UInt64.ofNat n).toNat = n :=
    UInt64.toNat_ofNat_of_lt' (Nat.lt_of_le_pred (by decide) hn)
  have hset := h (UInt64.ofNat n) s
  rwa [hword] at hset

end Toml.Value

theorem GeneralSettings.sets : ∀ f ∈ fields Toml.Value.format, f.Sets lines := by
  refine List.forall_mem_cons.2
    ⟨Toml.Value.sets_of_read "verbose" rfl (fun _ _ => rfl) fun v b hv => ?_,
    List.forall_mem_singleton.2
      (Toml.Value.sets_of_read "log_filter" rfl (fun _ _ => rfl) fun v t hv => ?_)⟩
  · rw [Toml.Value.asBool_eq_ok hv]
    refine ⟨_, rfl, fun g => ⟨rfl, fun k hk => ?_⟩⟩
    simp [lines, List.lookup_cons, hk]
  · obtain ⟨text, rfl, rfl⟩ := Toml.Value.asOptionalText_eq_ok hv
    refine ⟨_, rfl, fun g => ⟨rfl, fun k hk => ?_⟩⟩
    cases hfilter : g.logFilter <;> simp [lines, List.lookup_cons, hfilter, hk]

theorem CoreSettings.sets : ∀ f ∈ fields Toml.Value.format, f.Sets lines := by
  refine List.forall_mem_cons.2
    ⟨Toml.Value.sets_of_read "host" rfl (fun _ _ => rfl) fun v t hv => ?_,
    List.forall_mem_cons.2 ⟨Toml.Value.sets_word fun n hn c => ?_,
    List.forall_mem_singleton.2
      (Toml.Value.sets_wordField fun n c => ⟨rfl, fun k hk => ?_⟩)⟩⟩
  · rw [Toml.Value.asText_eq_ok hv]
    refine ⟨_, rfl, fun c => ⟨rfl, fun k hk => ?_⟩⟩
    simp [lines, List.lookup_cons, hk]
  · have hport : (UInt16.ofNat n).toNat = n :=
      UInt16.toNat_ofNat_of_lt' (Nat.lt_of_le_pred (by decide) hn)
    refine ⟨?_, fun k hk => ?_⟩
    · simp only [lines, hport]
      rfl
    · simp [lines, List.lookup_cons, hk]
  · simp [lines, List.lookup_cons, hk]

theorem SessionSettings.sets : ∀ f ∈ fields Toml.Value.format, f.Sets lines := by
  refine List.forall_mem_cons.2 ⟨Toml.Value.sets_wordField fun n t => ⟨rfl, fun k hk => ?_⟩,
    List.forall_mem_cons.2 ⟨Toml.Value.sets_wordField fun n t => ⟨rfl, fun k hk => ?_⟩,
    List.forall_mem_singleton.2
      (Toml.Value.sets_wordField fun n t => ⟨rfl, fun k hk => ?_⟩)⟩⟩
  all_goals simp [lines, List.lookup_cons, hk]

theorem PresenceSettings.sets : ∀ f ∈ fields Toml.Value.format, f.Sets lines := by
  refine List.forall_mem_singleton.2
    (Toml.Value.sets_wordField fun n p => ⟨rfl, fun k hk => ?_⟩)
  simp [lines, List.lookup_cons, hk]

/-! ### Records -/

namespace Toml.Value

variable {fields : List (Field Value Unit σ)} {lines : σ → List (String × Scalar)} {v : Value}
  {es : Entries} {s s' : σ} {name k : String}

/-- **What a table sets**: what the last entry says that says anything of it, and else what was
there before. -/
theorem readEntries_get (get : σ → Option Scalar) {take : Value → Option Scalar}
    (hknown : ∀ f ∈ fields, ∀ v s s', f.read v s = .ok s' →
      get s' = (if f.name = name then take v else none).or (get s))
    (hname : name ∈ fields.map (·.name)) (h : readEntries fields es s = .ok s') :
    get s' = (es.last? name take).or (get s) := by
  induction es generalizing s with
  | nil =>
    cases h
    rfl
  | cons e es ih =>
    obtain ⟨k, v⟩ := e
    rw [readEntries] at h
    obtain ⟨s₁, hget, hrest⟩ : ∃ s₁, get s₁ = (if k = name then take v else none).or (get s) ∧
        readEntries fields es s₁ = .ok s' := by
      cases hf : fields.find? (·.name = k) with
      | none =>
        rw [hf] at h
        refine ⟨s, ?_, h⟩
        -- the key that is asked for is a known one
        rw [if_neg, Option.none_or]
        rintro rfl
        obtain ⟨f, hmem, hfname⟩ := List.mem_map.1 hname
        exact List.find?_eq_none.1 hf f hmem (decide_eq_true hfname)
      | some f =>
        simp only [hf] at h
        obtain ⟨s₁, hread, hrest⟩ := Wire.bind_eq_ok_iff.1 h
        have hfname : f.name = k := by simpa using List.find?_some hf
        exact ⟨s₁, hfname ▸ hknown f (List.mem_of_find?_eq_some hf) v s s₁ hread, hrest⟩
    rw [ih hrest, hget, ← Option.or_assoc, Entries.last?, Entries.last?, List.reverse_cons,
      List.findSome?_append]
    simp [Option.or_assoc]

theorem readTable_eq_ok (h : readTable fields es s = .ok s') :
    readEntries fields es s = .ok s' := by
  obtain ⟨s₁, hread, hall⟩ := Wire.bind_eq_ok_iff.1 h
  split at hall
  · cases hall
    exact hread
  · cases hall

theorem readItems_eq_ok {vs : List Value} (front : List (Field Value Unit σ))
    {fs : List (Field Value Unit σ)}
    (hnodup : ((front ++ fs).map (·.name)).Nodup) (h : readItems fs vs s = .ok s') :
    readEntries (front ++ fs) ((fs.map (·.name)).zip vs) s = .ok s' := by
  -- the field that is read goes over to those in front
  induction fs generalizing front vs s with
  | nil =>
    cases h
    rfl
  | cons f fs ih =>
    have hassoc : front ++ f :: fs = (front ++ [f]) ++ fs := by simp
    cases vs with
    | nil =>
      rw [readItems] at h
      split at h
      · have hskip := ih (front ++ [f]) (hassoc ▸ hnodup) h
        rw [List.zip_nil_right] at hskip ⊢
        exact hskip
      · cases h
    | cons v vs =>
      obtain ⟨s₁, hread, h⟩ := Wire.bind_eq_ok_iff.1 h
      have hrest := ih (front ++ [f]) (hassoc ▸ hnodup) h
      have hfind : (front ++ f :: fs).find? (·.name = f.name) = some f := by
        rw [List.map_append, List.map_cons, List.nodup_append] at hnodup
        have hfront : front.find? (·.name = f.name) = none :=
          List.find?_eq_none.2 fun g hg heq =>
            hnodup.2.2 g.name (List.mem_map_of_mem hg) f.name List.mem_cons_self
              (of_decide_eq_true heq)
        rw [List.find?_append, hfront, Option.none_or]
        exact List.find?_cons_of_pos (decide_eq_true rfl)
      rw [List.map_cons, List.zip_cons_cons, readEntries, hfind, hassoc]
      exact Wire.bind_eq_ok_iff.2 ⟨s₁, hread, hrest⟩

theorem asRecord_eq_ok (hnodup : (fields.map (·.name)).Nodup)
    (h : asRecord fields v s = .ok s') :
    readEntries fields (v.pairs (fields.map (·.name))) s = .ok s' := by
  cases v with
  | bool | integer | float | text => cases h
  | date => exact readTable_eq_ok h
  | table o es => exact readTable_eq_ok h
  | array vs => exact readItems_eq_ok [] hnodup h
  | tables ts => exact readItems_eq_ok [] hnodup h

/-- **A record that is read** has in each line what it is given for it, and else what it was. -/
theorem asRecord_lookup (hsets : ∀ f ∈ fields, f.Sets lines)
    (hnodup : (fields.map (·.name)).Nodup) (hk : k ∈ fields.map (·.name))
    (h : asRecord fields v s = .ok s') :
    (lines s').lookup k = (v.given? (fields.map (·.name)) k).or ((lines s).lookup k) :=
  readEntries_get (fun s => (lines s).lookup k)
    (fun f hf v s s' hread => hsets f hf v s s' hread k) hk (asRecord_eq_ok hnodup h)

end Toml.Value

/-! ### Settings -/

namespace Settings

variable {c c' : Settings} {name k : String}

/-- The value of a setting, if there is one. -/
def value? (c : Settings) (name k : String) : Option Scalar :=
  (c.sections.find? (·.name = name)).bind fun s => s.lines.lookup k

theorem ext_value? (h : ∀ name, ∀ k ∈ keys name, c.value? name k = c'.value? name k) :
    c = c' := by
  have word : ∀ {n n' : Nat}, some (Scalar.natural n) = some (.natural n') → n = n' := by
    rintro n n' ⟨⟩
    rfl
  obtain ⟨⟨verbose, filter⟩, ⟨host, port, request⟩, ⟨handshake, keepAlive, send⟩, ⟨presence⟩⟩ := c
  obtain ⟨⟨verbose', filter'⟩, ⟨host', port', request'⟩, ⟨handshake', keepAlive', send'⟩,
    ⟨presence'⟩⟩ := c'
  have hverbose : some (Scalar.bool verbose) = some (.bool verbose') :=
    h "general" "verbose" (by decide)
  have hhost : some (Scalar.text host) = some (.text host') := h "core" "host" (by decide)
  have hport := UInt16.toNat_inj.1 (word (h "core" "port" (by decide)))
  have hrequest := UInt64.toNat_inj.1 (word (h "core" "request_timeout_ms" (by decide)))
  have hhandshake := UInt64.toNat_inj.1 (word (h "session" "handshake_timeout_ms" (by decide)))
  have hkeepAlive := UInt64.toNat_inj.1 (word (h "session" "keepalive_interval_ms" (by decide)))
  have hsend := UInt64.toNat_inj.1 (word (h "session" "send_timeout_ms" (by decide)))
  have hpresence := UInt64.toNat_inj.1 (word (h "presence" "core_timeout_ms" (by decide)))
  have hfilter : filter = filter' := by
    have heq := h "general" "log_filter" (by decide)
    cases filter <;> cases filter' <;> cases heq <;> rfl
  cases hverbose
  cases hhost
  subst hport hrequest hhandshake hkeepAlive hsend hpresence hfilter
  rfl

theorem value?_inner (n : String) {fs : List (Field Toml.Value Unit τ)} {get : Settings → τ}
    {set : τ → Settings → Settings} {lines : τ → List (String × Scalar)} {v : Toml.Value}
    (hsets : ∀ f ∈ fs, f.Sets lines) (hkeys : fs.map (·.name) = keys n)
    (hnodup : (fs.map (·.name)).Nodup)
    (hlines : ∀ s k, s.value? n k = (lines (get s)).lookup k) (hset : ∀ a s, get (set a s) = a)
    (hothers : ∀ a s, n ≠ name → (set a s).value? name k = s.value? name k)
    (hk : k ∈ keys name)
    (h : (Field.inner n Toml.Value.format fs get set).read v c = .ok c') :
    c'.value? name k =
      (if n = name then v.given? (keys name) k else none).or (c.value? name k) := by
  obtain ⟨a, hread, rfl⟩ := map_eq_ok_iff.1 h
  by_cases hname : n = name
  · subst hname
    rw [if_pos rfl, hlines, hlines, hset, ← hkeys]
    exact Toml.Value.asRecord_lookup hsets hnodup (hkeys ▸ hk) hread
  · rw [if_neg hname, Option.none_or, hothers a c hname]

theorem mem_names (hk : k ∈ keys name) :
    name ∈ (fields Toml.Value.format).map (·.name) := by
  unfold keys at hk
  split at hk
  case h_5 => cases hk
  all_goals decide

/-- **Settings that are read of a document** are what it gives, and else the defaults. -/
theorem value?_read {root : Toml.Entries}
    (h : read Toml.Value.format (.table .header root) = .ok c) (hk : k ∈ keys name) :
    c.value? name k = (given? root name k).or (({} : Settings).value? name k) := by
  refine Toml.Value.readEntries_get (fun s => value? s name k) (fun f hf v s s' hread => ?_)
    (mem_names hk) (Toml.Value.readTable_eq_ok h)
  simp only [fields, List.mem_cons, List.not_mem_nil, or_false] at hf
  obtain rfl | rfl | rfl | rfl := hf
  · refine value?_inner "general" GeneralSettings.sets rfl (by decide) (fun _ _ => rfl)
      (fun _ _ => rfl) (fun a s hne => ?_) hk hread
    simp [value?, sections_eq, List.find?_cons, hne]
  · refine value?_inner "core" CoreSettings.sets rfl (by decide) (fun _ _ => rfl)
      (fun _ _ => rfl) (fun a s hne => ?_) hk hread
    simp [value?, sections_eq, List.find?_cons, hne]
  · refine value?_inner "session" SessionSettings.sets rfl (by decide) (fun _ _ => rfl)
      (fun _ _ => rfl) (fun a s hne => ?_) hk hread
    simp [value?, sections_eq, List.find?_cons, hne]
  · refine value?_inner "presence" PresenceSettings.sets rfl (by decide) (fun _ _ => rfl)
      (fun _ _ => rfl) (fun a s hne => ?_) hk hread
    simp [value?, sections_eq, List.find?_cons, hne]

/-- Sections as a list of values, as a table with a key that nobody knows, and as no section. -/
example : let root : Toml.Entries := [("session", .array [.integer 9, .integer 8]),
      ("core", .table .header [("colour", .bool true), ("port", .integer 9001)])]
    given? root "session" "keepalive_interval_ms" = some (.natural 8) ∧
    given? root "session" "send_timeout_ms" = none ∧
    given? root "core" "port" = some (.natural 9001) ∧
    given? root "general" "verbose" = none := by decide

end Settings

end Corelink
