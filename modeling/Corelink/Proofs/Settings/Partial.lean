import Corelink.Proofs.Members
import Corelink.Proofs.Settings.Saved

/-!
# Settings given in part

A document may give some of the settings and leave out the others, whole sections too.
`Settings.pick` are the settings that it then stands for, and `Settings.Given` says that it gives
just these, in any order and with anything that nobody knows between them. Each section is read to
what is taken of it (`Chapter.read_given`) and so is the document (`Settings.read_given`), in TOML
and in JSON alike (`Settings.partial_documents_load`).
-/

namespace Corelink

open Toml (Scalar Section)

variable {δ δ' ε σ : Type}

/-! ### Parts of settings -/

namespace GeneralSettings

/-- The fields that are taken, and the defaults of the others. -/
def pick (g : GeneralSettings) (has : String → Bool) : GeneralSettings where
  verbose := if has "verbose" then g.verbose else ({} : GeneralSettings).verbose
  logFilter := if has "log_filter" then g.logFilter else ({} : GeneralSettings).logFilter

/-- The lines that it is written in. -/
def lines (g : GeneralSettings) : List (String × Scalar) :=
  ("verbose", .bool g.verbose) :: match g.logFilter with
    | some t => [("log_filter", .text t)]
    | none => []

/-- What is not written in a line is the default in any case. -/
theorem pick_congr {g : GeneralSettings} {has has' : String → Bool}
    (h : ∀ l ∈ g.lines, has l.1 = has' l.1) : g.pick has = g.pick has' := by
  cases hfilter : g.logFilter <;> simp_all [lines, pick]

end GeneralSettings

namespace CoreSettings

def pick (c : CoreSettings) (has : String → Bool) : CoreSettings where
  host := if has "host" then c.host else ({} : CoreSettings).host
  port := if has "port" then c.port else ({} : CoreSettings).port
  requestTimeout :=
    if has "request_timeout_ms" then c.requestTimeout else ({} : CoreSettings).requestTimeout

def lines (c : CoreSettings) : List (String × Scalar) :=
  [("host", .text c.host), ("port", .natural c.port.toNat),
    ("request_timeout_ms", .natural c.requestTimeout.toNat)]

theorem pick_congr {c : CoreSettings} {has has' : String → Bool}
    (h : ∀ l ∈ c.lines, has l.1 = has' l.1) : c.pick has = c.pick has' := by
  simp_all [lines, pick]

end CoreSettings

namespace SessionSettings

def pick (t : SessionSettings) (has : String → Bool) : SessionSettings where
  handshakeTimeout :=
    if has "handshake_timeout_ms" then t.handshakeTimeout
    else ({} : SessionSettings).handshakeTimeout
  keepAliveInterval :=
    if has "keepalive_interval_ms" then t.keepAliveInterval
    else ({} : SessionSettings).keepAliveInterval
  sendTimeout :=
    if has "send_timeout_ms" then t.sendTimeout else ({} : SessionSettings).sendTimeout

def lines (t : SessionSettings) : List (String × Scalar) :=
  [("handshake_timeout_ms", .natural t.handshakeTimeout.toNat),
    ("keepalive_interval_ms", .natural t.keepAliveInterval.toNat),
    ("send_timeout_ms", .natural t.sendTimeout.toNat)]

theorem pick_congr {t : SessionSettings} {has has' : String → Bool}
    (h : ∀ l ∈ t.lines, has l.1 = has' l.1) : t.pick has = t.pick has' := by
  simp_all [lines, pick]

end SessionSettings

namespace PresenceSettings

def pick (p : PresenceSettings) (has : String → Bool) : PresenceSettings where
  coreTimeout :=
    if has "core_timeout_ms" then p.coreTimeout else ({} : PresenceSettings).coreTimeout

def lines (p : PresenceSettings) : List (String × Scalar) :=
  [("core_timeout_ms", .natural p.coreTimeout.toNat)]

theorem pick_congr {p : PresenceSettings} {has has' : String → Bool}
    (h : ∀ l ∈ p.lines, has l.1 = has' l.1) : p.pick has = p.pick has' := by
  simp_all [lines, pick]

end PresenceSettings

namespace Settings

/-- The fields that are taken, by section and key, and the defaults of the others. -/
def pick (c : Settings) (has : String → String → Bool) : Settings where
  general := c.general.pick (has "general")
  core := c.core.pick (has "core")
  session := c.session.pick (has "session")
  presence := c.presence.pick (has "presence")

theorem sections_eq (c : Settings) : c.sections =
    [⟨"general", c.general.lines⟩, ⟨"core", c.core.lines⟩, ⟨"session", c.session.lines⟩,
      ⟨"presence", c.presence.lines⟩] :=
  rfl

/-- The keys of each section. -/
def keys : String → List String
  | "general" => ["verbose", "log_filter"]
  | "core" => ["host", "port", "request_timeout_ms"]
  | "session" => ["handshake_timeout_ms", "keepalive_interval_ms", "send_timeout_ms"]
  | "presence" => ["core_timeout_ms"]
  | _ => []

end Settings

/-! ### Documents that give a part -/

/-- Members that give a section with these keys these lines and no others. -/
def LinesGiven (V : View δ) (keys : List String) (lines : List (String × Scalar)) :
    List (String × δ) → Prop :=
  Entered V keys (lines.map (·.1)) fun k d => ∃ v, (k, v) ∈ lines ∧ V.spells v d

/-- The lines of a section that are taken. -/
def Toml.Section.taken (s : Section) (has : String → String → Bool) : List (String × Scalar) :=
  s.lines.filter fun l => has s.name l.1

/-- Members that give just the settings that are taken. A section of which nothing is taken may be
there or not. -/
def Settings.Given (V : View δ) (c : Settings) (has : String → String → Bool) :
    List (String × δ) → Prop :=
  Entered V (c.sections.map (·.name))
    ((c.sections.filter fun s => !(s.taken has).isEmpty).map (·.name)) fun name d =>
      ∃ s ∈ c.sections, s.name = name ∧ ∃ es, V.table es d ∧
        LinesGiven V (keys name) (s.taken has) es

/-! ### Sections -/

/-- A section that is read line by line: with each line that is read, its key is taken. -/
structure Chapter (F : Format δ ε) (V : View δ) (σ : Type) where
  fields : List (Field δ ε σ)
  lines : List (String × Scalar)
  pick : (String → Bool) → σ
  optional : ∀ f ∈ fields, f.optionalByName = true
  own : ∀ l ∈ lines, l.1 ∈ fields.map (·.name)
  read : ∀ {k v d}, (k, v) ∈ lines → V.spells v d → ∃ f, fields.find? (·.name = k) = some f ∧
    ∀ ks : List String, f.read d (pick (ks.contains ·)) = .ok (pick ((k :: ks).contains ·))
  congr : ∀ {has has'}, (∀ l ∈ lines, has l.1 = has' l.1) → pick has = pick has'

variable {F : Format δ ε} {V : View δ} {es : List (String × δ)} {d : δ}

/-- **A section is read to what is taken of it.** -/
theorem Chapter.read_given (p : Chapter F V σ) (hF : F.Reads V) {has : String → Bool}
    (h : LinesGiven V (p.fields.map (·.name)) (p.lines.filter fun l => has l.1) es)
    (htable : V.table es d) : F.record p.fields d (p.pick fun _ => false) = .ok (p.pick has) := by
  have hread : ∀ k d, k ∈ p.fields.map (·.name) →
      (∃ v, (k, v) ∈ p.lines.filter (fun l => has l.1) ∧ V.spells v d) →
      ∃ f, p.fields.find? (·.name = k) = some f ∧ ∀ ks : List String, k ∉ ks →
        f.read d (p.pick (ks.contains ·)) = .ok (p.pick ((k :: ks).contains ·)) := by
    rintro k d - ⟨v, hv, hd⟩
    obtain ⟨f, hf, hstep⟩ := p.read (List.mem_filter.1 hv).1 hd
    exact ⟨f, hf, fun ks _ => hstep ks⟩
  obtain ⟨ks, hks, hrecord⟩ :=
    h.exists_record hF (fun ks => p.pick (ks.contains ·)) rfl hread p.optional htable
  have hall : p.pick has = p.pick (ks.contains ·) := p.congr fun l hl => by
    rw [Bool.eq_iff_iff, List.contains_iff_mem, hks]
    constructor
    · intro hhas
      exact ⟨p.own l hl, h.complete _ (List.mem_map_of_mem (List.mem_filter.2 ⟨hl, hhas⟩))⟩
    · -- a key of the section is there only if its line is taken
      rintro ⟨hown, hmem⟩
      obtain ⟨e, he, hkey⟩ := List.mem_map.1 hmem
      obtain ⟨v, hv, -⟩ := h.given e he (hkey ▸ hown)
      exact hkey ▸ (List.mem_filter.1 hv).2
  rw [hall]
  exact hrecord

theorem Chapter.read_inner {τ : Type} (p : Chapter F V τ) (hF : F.Reads V) {has : String → Bool}
    (h : LinesGiven V (p.fields.map (·.name)) (p.lines.filter fun l => has l.1) es)
    (htable : V.table es d) (name : String) (get : σ → τ) {s : σ}
    (hget : get s = p.pick fun _ => false) (set : τ → σ → σ) :
    (Field.inner name F p.fields get set).read d s = .ok (set (p.pick has) s) := by
  refine Field.read_inner name get ?_ set
  rw [hget]
  exact p.read_given hF h htable

/-! ### The four sections -/

theorem Format.Reads.wordField (hF : F.Reads V) (name : String) {n : UInt64}
    (hd : V.spells (.natural n.toNat) d) (set : UInt64 → σ → σ) (s : σ) :
    (wordField F name set).read d s = .ok (set n s) :=
  read_wordField name (hF.word (Nat.le_pred_of_lt n.toNat_lt) hd) set s

section
variable (hF : F.Reads V)

def GeneralSettings.chapter (g : GeneralSettings) : Chapter F V GeneralSettings where
  fields := fields F
  lines := g.lines
  pick := g.pick
  optional := by simp [fields, Field.withDefault, Field.byName]
  own := by
    cases hfilter : g.logFilter <;>
      simp [lines, hfilter, fields, Field.withDefault, Field.byName, Field.required]
  read := by
    intro k v d h hd
    cases hfilter : g.logFilter with
    | none =>
      simp only [lines, hfilter, List.mem_singleton, Prod.mk.injEq] at h
      obtain ⟨rfl, rfl⟩ := h
      refine ⟨_, rfl, fun ks => (Field.read_withDefault _ (hF.bool hd) _ _).trans ?_⟩
      simp [pick]
    | some t =>
      simp only [lines, hfilter, List.mem_cons, List.not_mem_nil, or_false, Prod.mk.injEq] at h
      obtain ⟨rfl, rfl⟩ | ⟨rfl, rfl⟩ := h
      · refine ⟨_, rfl, fun ks => (Field.read_withDefault _ (hF.bool hd) _ _).trans ?_⟩
        simp [pick]
      · refine ⟨_, rfl, fun ks => (Field.read_byName _ (hF.optionalText hd) _ _).trans ?_⟩
        simp [pick, hfilter]
  congr := pick_congr

def CoreSettings.chapter (c : CoreSettings) : Chapter F V CoreSettings where
  fields := fields F
  lines := c.lines
  pick := c.pick
  optional := by simp [fields, Field.withDefault, Corelink.wordField]
  own := by simp [lines, fields, Field.withDefault, Field.required, Corelink.wordField]
  read := by
    intro k v d h hd
    simp only [lines, List.mem_cons, List.not_mem_nil, or_false, Prod.mk.injEq] at h
    obtain ⟨rfl, rfl⟩ | ⟨rfl, rfl⟩ | ⟨rfl, rfl⟩ := h
    · refine ⟨_, rfl, fun ks => (Field.read_withDefault _ (hF.text hd) _ _).trans ?_⟩
      simp [pick]
    · have hport := Field.read_withDefault "port" (hF.word (Nat.le_pred_of_lt c.port.toNat_lt) hd)
        (fun n (s : CoreSettings) => { s with port := UInt16.ofNat n })
      rw [UInt16.ofNat_toNat] at hport
      refine ⟨_, rfl, fun ks => (hport _).trans ?_⟩
      simp [pick]
    · refine ⟨_, rfl, fun ks => (hF.wordField _ hd _ _).trans ?_⟩
      simp [pick]
  congr := pick_congr

def SessionSettings.chapter (t : SessionSettings) : Chapter F V SessionSettings where
  fields := fields F
  lines := t.lines
  pick := t.pick
  optional := by simp [fields, Field.withDefault, Corelink.wordField]
  own := by simp [lines, fields, Field.withDefault, Field.required, Corelink.wordField]
  read := by
    intro k v d h hd
    simp only [lines, List.mem_cons, List.not_mem_nil, or_false, Prod.mk.injEq] at h
    obtain ⟨rfl, rfl⟩ | ⟨rfl, rfl⟩ | ⟨rfl, rfl⟩ := h <;>
      refine ⟨_, rfl, fun ks => (hF.wordField _ hd _ _).trans ?_⟩ <;>
      simp [pick]
  congr := pick_congr

def PresenceSettings.chapter (p : PresenceSettings) : Chapter F V PresenceSettings where
  fields := fields F
  lines := p.lines
  pick := p.pick
  optional := by simp [fields, Field.withDefault, Corelink.wordField]
  own := by simp [lines, fields, Field.withDefault, Field.required, Corelink.wordField]
  read := by
    intro k v d h hd
    simp only [lines, List.mem_singleton, Prod.mk.injEq] at h
    obtain ⟨rfl, rfl⟩ := h
    refine ⟨_, rfl, fun ks => (hF.wordField _ hd _ _).trans ?_⟩
    simp [pick]
  congr := pick_congr

end

/-! ### Documents -/

namespace Settings

variable {c : Settings} {has has' : String → String → Bool}

theorem pick_congr (h : ∀ s ∈ c.sections, ∀ l ∈ s.lines, has s.name l.1 = has' s.name l.1) :
    c.pick has = c.pick has' := by
  rw [sections_eq] at h
  simp only [List.forall_mem_cons, List.not_mem_nil, false_implies, implies_true, and_true] at h
  obtain ⟨hgeneral, hcore, hsession, hpresence⟩ := h
  unfold pick
  rw [GeneralSettings.pick_congr hgeneral, CoreSettings.pick_congr hcore,
    SessionSettings.pick_congr hsession, PresenceSettings.pick_congr hpresence]

/-- A section that stands in a document is read to what is taken of it, wherever it stands. -/
theorem exists_field (hF : F.Reads V) {s : Section} (hs : s ∈ c.sections)
    (htable : V.table es d) (h : LinesGiven V (keys s.name) (s.taken has) es) :
    ∃ f, (fields F).find? (·.name = s.name) = some f ∧ ∀ ks : List String, s.name ∉ ks →
      f.read d (c.pick fun name k => ks.contains name && has name k) =
        .ok (c.pick fun name k => (s.name :: ks).contains name && has name k) := by
  have unread : ∀ {τ : Type} {ks : List String} {n : String} (pick : (String → Bool) → τ), n ∉ ks →
      pick (fun k => ks.contains n && has n k) = pick fun _ => false := by
    intro τ ks n pick hn
    simp [hn]
  rw [sections_eq] at hs
  simp only [List.mem_cons, List.not_mem_nil, or_false] at hs
  obtain rfl | rfl | rfl | rfl := hs
  · refine ⟨_, rfl, fun ks hks => ((c.general.chapter hF).read_inner hF h htable "general" general
      (unread c.general.pick hks) _).trans ?_⟩
    simp [pick, GeneralSettings.chapter]
  · refine ⟨_, rfl, fun ks hks => ((c.core.chapter hF).read_inner hF h htable "core" core
      (unread c.core.pick hks) _).trans ?_⟩
    simp [pick, CoreSettings.chapter]
  · refine ⟨_, rfl, fun ks hks => ((c.session.chapter hF).read_inner hF h htable "session" session
      (unread c.session.pick hks) _).trans ?_⟩
    simp [pick, SessionSettings.chapter]
  · refine ⟨_, rfl, fun ks hks => ((c.presence.chapter hF).read_inner hF h htable "presence"
      presence (unread c.presence.pick hks) _).trans ?_⟩
    simp [pick, PresenceSettings.chapter]

theorem optional_of_mem_fields {f : Field δ ε Settings} (h : f ∈ fields F) :
    f.optionalByName = true := by
  simp only [fields, List.mem_cons, List.not_mem_nil, or_false] at h
  obtain rfl | rfl | rfl | rfl := h <;> rfl

/-- **What a document gives is what is read of it**, with the defaults for all else. -/
theorem read_given (hF : F.Reads V) (h : Given V c has es) (htable : V.table es d) :
    read F d = .ok (c.pick has) := by
  have hread : ∀ name d, name ∈ c.sections.map (·.name) →
      (∃ s ∈ c.sections, s.name = name ∧ ∃ es, V.table es d ∧
        LinesGiven V (keys name) (s.taken has) es) →
      ∃ f, (fields F).find? (·.name = name) = some f ∧ ∀ ks : List String, name ∉ ks →
        f.read d (c.pick fun name k => ks.contains name && has name k) =
          .ok (c.pick fun name' k => (name :: ks).contains name' && has name' k) := by
    rintro name d - ⟨s, hs, rfl, es, htable, hlines⟩
    exact exists_field hF hs htable hlines
  have hnames : (fields F).map (·.name) = c.sections.map (·.name) := rfl
  obtain ⟨ks, hks, hrecord⟩ := Entered.exists_record hF
    (fun ks => c.pick fun name k => ks.contains name && has name k) hnames hread
    (fun _ => optional_of_mem_fields) h htable
  have hall : c.pick has = c.pick fun name k => ks.contains name && has name k := by
    refine pick_congr fun s hs l hl => ?_
    cases hhas : has s.name l.1 with
    | false => rw [Bool.and_false]
    | true =>
      -- the section is there, as something is taken of it
      have htaken : l ∈ s.taken has := List.mem_filter.2 ⟨hl, hhas⟩
      have hneeded : s.name ∈ es.map Prod.fst := by
        refine h.complete _ (List.mem_map_of_mem (List.mem_filter.2 ⟨hs, ?_⟩))
        rw [Bool.not_eq_true', List.isEmpty_eq_false_iff]
        exact List.ne_nil_of_mem htaken
      have hmem : s.name ∈ ks := (hks _).2 ⟨List.mem_map_of_mem hs, hneeded⟩
      rw [List.contains_iff_mem.2 hmem, Bool.and_true]
  rw [hall]
  exact hrecord

/-! ### Any part can be given -/

theorem keys_of_mem_sections {s : Section} (hs : s ∈ c.sections) :
    (s.lines.map (·.1)).Nodup ∧ ∀ l ∈ s.lines, l.1 ∈ keys s.name := by
  rw [sections_eq] at hs
  simp only [List.mem_cons, List.not_mem_nil, or_false] at hs
  obtain rfl | rfl | rfl | rfl := hs
  · cases hfilter : c.general.logFilter <;> simp [GeneralSettings.lines, hfilter, keys]
  · simp [CoreSettings.lines, keys]
  · simp [SessionSettings.lines, keys]
  · simp [PresenceSettings.lines, keys]

/-- The sections of which something is taken, with the lines that are taken. -/
def parts (c : Settings) (has : String → String → Bool) : List Section :=
  (c.sections.filter fun s => !(s.taken has).isEmpty).map fun s => ⟨s.name, s.taken has⟩

/-- The members that give them, if values and tables are written so. -/
def members (put : Scalar → δ) (tab : List (String × δ) → δ) (ss : List Section) :
    List (String × δ) :=
  ss.map fun s => (s.name, tab (s.lines.map fun l => (l.1, put l.2)))

theorem linesGiven_map {put : Scalar → δ} (hput : ∀ v, V.spells v (put v)) {keys : List String}
    {lines : List (String × Scalar)} (hnodup : (lines.map (·.1)).Nodup)
    (hkeys : ∀ l ∈ lines, l.1 ∈ keys) :
    LinesGiven V keys lines (lines.map fun l => (l.1, put l.2)) := by
  have hmap : (lines.map fun l => (l.1, put l.2)).map Prod.fst = lines.map (·.1) := by
    rw [List.map_map]
    rfl
  refine ⟨List.forall_mem_map.2 fun l hl _ => ⟨l.2, hl, hput l.2⟩, fun k hk => ?_, ?_,
    List.forall_mem_map.2 fun l hl hnot => absurd (hkeys l hl) hnot⟩
  · rwa [hmap]
  · rw [hmap]
    exact hnodup.sublist List.filter_sublist

/-- **Any part of settings can be given** in a document. -/
theorem given_parts {put : Scalar → δ} {tab : List (String × δ) → δ}
    (hput : ∀ v, V.spells v (put v)) (htab : ∀ es, V.table es (tab es)) (c : Settings)
    (has : String → String → Bool) : Given V c has (members put tab (c.parts has)) := by
  have hnames : (members put tab (c.parts has)).map Prod.fst =
      (c.sections.filter fun s => !(s.taken has).isEmpty).map (·.name) := by
    rw [members, parts, List.map_map, List.map_map]
    rfl
  refine ⟨?_, ?_, ?_, ?_⟩
  · refine List.forall_mem_map.2 (List.forall_mem_map.2 fun s hs _ => ?_)
    have hmem := (List.mem_filter.1 hs).1
    obtain ⟨hnodup, hkeys⟩ := keys_of_mem_sections hmem
    refine ⟨s, hmem, rfl, _, htab _, linesGiven_map hput ?_ fun l hl => hkeys l ?_⟩
    · exact hnodup.sublist (List.filter_sublist.map _)
    · exact (List.mem_filter.1 hl).1
  · rw [hnames]
    exact fun _ hk => hk
  · rw [hnames]
    exact (nodup_sections c).sublist (List.filter_sublist.trans (List.filter_sublist.map _))
  · refine List.forall_mem_map.2 (List.forall_mem_map.2 fun s hs hnot => ?_)
    exact absurd (List.mem_map_of_mem (List.mem_filter.1 hs).1) hnot

/-! ### TOML -/

theorem ofToml_of_given {text : String} {root : Toml.Entries} (hparse : Toml.parse text = some root)
    (h : Given Toml.Value.view c has root) : ofToml text = .ok (c.pick has) := by
  have hread : read Toml.Value.format (.table .header root) = .ok (c.pick has) :=
    read_given Toml.Value.reads h ⟨.header, rfl⟩
  simp only [ofToml, ofToml?, hparse, bind, Option.bind, hread, Except.toOption]

theorem mem_names_of_keys {name k : String} (h : k ∈ keys name) (c : Settings) :
    name ∈ c.sections.map (·.name) := by
  show name ∈ ["general", "core", "session", "presence"]
  unfold keys at h
  split at h
  · decide
  · decide
  · decide
  · decide
  · cases h

theorem fits_of_given {p : Toml.Page} (hfits : c.FitsToml)
    (h : Given Toml.Value.view c has p.entries) {s : Section} (hs : s ∈ p.sections)
    {l : String × Scalar} (hl : l ∈ s.lines) (hkey : l.1 ∈ keys s.name) : l.2.Fits := by
  have hentry : s.entry ∈ p.entries :=
    List.mem_append_right _ (List.mem_map_of_mem hs)
  obtain ⟨s', hs', -, es, ⟨o, htable⟩, hlines⟩ := h.given _ hentry (mem_names_of_keys hkey c)
  obtain ⟨-, rfl⟩ : Toml.Origin.header = o ∧ Toml.entriesOf s.lines = es := by
    simpa [Section.entry] using htable
  have hline : (l.1, l.2.value) ∈ Toml.entriesOf s.lines := List.mem_map_of_mem hl
  obtain ⟨v, hv, hvalue⟩ := hlines.given _ hline hkey
  rw [Scalar.value_injective hvalue]
  exact (plain_of_mem_sections hfits s' hs').values _ (List.mem_filter.1 hv).1

theorem ofToml_page {p : Toml.Page} (hfits : c.FitsToml) (hkeyed : p.Keyed)
    (hlines : ∀ l ∈ p.lines, l.2.Fits)
    (hothers : ∀ s ∈ p.sections, ∀ l ∈ s.lines, l.1 ∉ keys s.name → l.2.Fits)
    (h : Given Toml.Value.view c has p.entries) (n : Nat) :
    ofToml (String.ofList (p.render ++ List.replicate n '\n')) = .ok (c.pick has) := by
  have hplain : p.Plain := ⟨hkeyed, hlines, fun s hs l hl => by
    by_cases hkey : l.1 ∈ keys s.name
    · exact fits_of_given hfits h hs hl hkey
    · exact hothers s hs l hl hkey⟩
  exact ofToml_of_given (Toml.parse_page hplain n) h

/-! ### JSON -/

theorem ofJson_of_given {text : String} {es : List (String × Json.Document)} {after : List Char}
    (htext : Json.Document.ofText text = (.object (es.map fun e => (.ok e.1, e.2)) none, after))
    (hafter : Json.Blanks after) (h : Given Json.Document.view c has es) :
    ofJson text = .ok (c.pick has) := by
  have hread : read Json.Document.format (.object (es.map fun e => (.ok e.1, e.2)) none) =
      .ok (c.pick has) := read_given Json.Document.reads h rfl
  simp only [ofJson, Json.parse, htext, hread, bind, Except.bind, Json.skipBlanks_of_blanks hafter]
  rfl

theorem Given.ofValue {ms : List (String × Json.Value)} (h : Given Json.Value.view c has ms) :
    Given Json.Document.view c has (ms.map fun m => (m.1, .ofValue m.2)) := by
  refine Entered.map Json.Document.ofValue ?_ (fun v _ => Json.Document.skip_ofValue v) h
  rintro name v ⟨s, hs, hname, es, htable, hlines⟩
  refine ⟨s, hs, hname, _, Json.Document.table_ofValue htable, ?_⟩
  refine Entered.map Json.Document.ofValue ?_ (fun v _ => Json.Document.skip_ofValue v) hlines
  rintro k w ⟨v, hv, hw⟩
  exact ⟨v, hv, Json.Document.spells_ofValue hw⟩

theorem ofJson_laid {ms : List (String × Json.Value)} {cs before after : List Char}
    (hlaid : Json.Laid (.object ms) cs) (hbefore : Json.Blanks before) (hafter : Json.Blanks after)
    (h : Given Json.Value.view c has ms) :
    ofJson (String.ofList (before ++ (cs ++ after))) = .ok (c.pick has) := by
  have htext := Json.Document.ofText_laid hlaid hbefore hafter
  rw [Json.Document.table_ofValue rfl] at htext
  exact ofJson_of_given htext hafter h.ofValue

/-! ### Either format -/

theorem isBareKey_of_mem_keys {name k : String} (h : k ∈ keys name) : Toml.IsBareKey k := by
  unfold keys at h
  split at h
  · exact (by decide : ∀ k ∈ ["verbose", "log_filter"], Toml.IsBareKey k) k h
  · exact (by decide : ∀ k ∈ ["host", "port", "request_timeout_ms"], Toml.IsBareKey k) k h
  · exact (by decide : ∀ k ∈ ["handshake_timeout_ms", "keepalive_interval_ms", "send_timeout_ms"],
      Toml.IsBareKey k) k h
  · exact (by decide : ∀ k ∈ ["core_timeout_ms"], Toml.IsBareKey k) k h
  · cases h

theorem keyed_parts (c : Settings) (has : String → String → Bool) :
    (Toml.Page.mk [] (c.parts has)).Keyed where
  bare := List.forall_mem_nil _
  names := by
    have hbare : ∀ name ∈ c.sections.map (·.name), Toml.IsBareKey name := by
      show ∀ name ∈ ["general", "core", "session", "presence"], Toml.IsBareKey name
      decide
    refine List.forall_mem_map.2 fun s hs => hbare s.name ?_
    exact List.mem_map_of_mem (List.mem_filter.1 hs).1
  keys := List.forall_mem_map.2 fun s hs l hl =>
    isBareKey_of_mem_keys ((keys_of_mem_sections (List.mem_filter.1 hs).1).2 l
      (List.mem_filter.1 hl).1)
  distinctKeys := List.forall_mem_map.2 fun s hs =>
    (keys_of_mem_sections (List.mem_filter.1 hs).1).1.sublist (List.filter_sublist.map _)
  distinct := by
    rw [List.map_nil, List.nil_append, parts, List.map_map]
    exact (nodup_sections c).sublist (List.filter_sublist.map _)

/-- A value of a line, in JSON. -/
def jsonValue : Scalar → Json.Value
  | .bool b => .bool b
  | .natural n => .number (.ofNat n)
  | .text t => .text t

theorem spells_jsonValue : ∀ v : Scalar, Json.Value.view.spells v (jsonValue v)
  | .bool _ | .text _ => rfl
  | .natural n => ⟨.ofNat n, rfl, Json.Number.toNat?_ofNat n⟩

/-- **Settings may be given in part.** A document that gives some settings, in any order and with
whatever else beside them, is loaded to these and the defaults of the others: a TOML file however it
is written, a page of TOML, a JSON text and a JSON object however it is laid out. Any part can be
given so. -/
theorem partial_documents_load (c : Settings) (has : String → String → Bool) :
    (∀ text root, Toml.parse text = some root → Given Toml.Value.view c has root →
      ofToml text = .ok (c.pick has) ∧
      ∀ (t : FileTree) path, t.holds path = true → t.readText path = .ok text →
        load t path = .ok (c.pick has)) ∧
    ((∀ n ∈ c.times, n.toNat ≤ Nat.pow 2 63 - 1) → ∀ p : Toml.Page, p.Keyed →
      (∀ l ∈ p.lines, l.2.Fits) →
      (∀ s ∈ p.sections, ∀ l ∈ s.lines, l.1 ∉ keys s.name → l.2.Fits) →
      Given Toml.Value.view c has p.entries → ∀ n,
      ofToml (String.ofList (p.render ++ List.replicate n '\n')) = .ok (c.pick has)) ∧
    (∀ text es after,
      Json.Document.ofText text = (.object (es.map fun e => (.ok e.1, e.2)) none, after) →
      Json.Blanks after → Given Json.Document.view c has es → ofJson text = .ok (c.pick has)) ∧
    (∀ ms cs before after, Json.Laid (.object ms) cs → Json.Blanks before → Json.Blanks after →
      Given Json.Value.view c has ms →
      ofJson (String.ofList (before ++ (cs ++ after))) = .ok (c.pick has)) ∧
    (Toml.Page.mk [] (c.parts has)).Keyed ∧
    Given Toml.Value.view c has (Toml.Page.mk [] (c.parts has)).entries ∧
    Given Json.Value.view c has (members jsonValue .object (c.parts has)) := by
  have htable : ∀ es, Toml.Value.view.table es (.table .header es) := fun _ => ⟨.header, rfl⟩
  have htoml : Given Toml.Value.view c has (members Scalar.value (.table .header) (c.parts has)) :=
    given_parts (fun _ => rfl) htable c has
  refine ⟨fun text root hparse h => ?_, fun htimes p hkeyed hlines hothers h n => ?_,
    fun _ _ _ htext hafter h => ofJson_of_given htext hafter h,
    fun _ _ _ _ hlaid hbefore hafter h => ofJson_laid hlaid hbefore hafter h,
    keyed_parts c has, htoml, given_parts spells_jsonValue (fun _ => rfl) c has⟩
  · have hread := ofToml_of_given hparse h
    refine ⟨hread, fun t path hholds htext => ?_⟩
    rw [load, if_pos hholds, htext, ← hread]
  · exact ofToml_page htimes hkeyed hlines hothers h n

/-- Settings of which only the host is given. -/
def hostSettings : Settings :=
  { core := { host := "10.0.0.5" }, session := { keepAliveInterval := 250 } }

/-- The host alone. -/
def hostOnly (name k : String) : Bool :=
  name == "core" && k == "host"

theorem given_hostOnly {d₀ d₁ d₂ t₁ t₂ : δ} (h₀ : V.idle d₀) (h₁ : V.idle d₁)
    (hhost : V.spells (.text "10.0.0.5") d₂) (ht₁ : V.table [] t₁)
    (ht₂ : V.table [("colour", d₁), ("host", d₂)] t₂) :
    Given V hostSettings hostOnly [("title", d₀), ("session", t₁), ("core", t₂)] := by
  have hcore : LinesGiven V (keys "core") [("host", .text "10.0.0.5")]
      [("colour", d₁), ("host", d₂)] := by
    refine ⟨?_, by simp, by simp [keys], ?_⟩
    · simp [keys, hhost]
    · simp [keys, h₁]
  have hsession : LinesGiven V (keys "session") [] ([] : List (String × δ)) :=
    ⟨List.forall_mem_nil _, List.forall_mem_nil _, List.nodup_nil, List.forall_mem_nil _⟩
  have hnames : hostSettings.sections.map (·.name) =
      ["general", "core", "session", "presence"] := rfl
  have hneeded : (hostSettings.sections.filter fun s => !(s.taken hostOnly).isEmpty).map (·.name) =
      ["core"] := rfl
  rw [Given, hnames, hneeded]
  refine ⟨?_, by simp, by simp, by simp [h₀]⟩
  refine List.forall_mem_cons.2 ⟨fun h => absurd h (by simp), List.forall_mem_cons.2
    ⟨fun _ => ?_, List.forall_mem_singleton.2 fun _ => ?_⟩⟩
  · exact ⟨_, .tail _ (.tail _ (.head _)), rfl, [], ht₁, hsession⟩
  · exact ⟨_, .tail _ (.head _), rfl, _, ht₂, hcore⟩

/-- A page that gives it, with a title, an empty section and a key that nobody knows. -/
def hostPage : Toml.Page where
  lines := [("title", .text "x")]
  sections := [⟨"session", []⟩, ⟨"core", [("colour", .bool true), ("host", .text "10.0.0.5")]⟩]

/-- An object that does the same. -/
def hostMembers : List (String × Json.Value) :=
  [("title", .null), ("session", .object []),
    ("core", .object [("colour", .array []), ("host", .text "10.0.0.5")])]

theorem host_alone_is_loaded :
    (∃ t : FileTree, load t "settings.toml" = .ok { core := { host := "10.0.0.5" } }) ∧
    ofToml (String.ofList (hostPage.render ++ ['\n'])) = .ok { core := { host := "10.0.0.5" } } ∧
    ofJson (String.ofList (Json.Value.object hostMembers).compact) =
      .ok { core := { host := "10.0.0.5" } } ∧
    ofJson (String.ofList ((Json.Value.object hostMembers).compact ++ [' '])) =
      .ok { core := { host := "10.0.0.5" } } := by
  obtain ⟨hfile, hpage, hdocument, hobject, -⟩ := partial_documents_load hostSettings hostOnly
  have htoml : Given Toml.Value.view hostSettings hostOnly hostPage.entries :=
    given_hostOnly trivial trivial rfl ⟨_, rfl⟩ ⟨_, rfl⟩
  have hjson : Given Json.Value.view hostSettings hostOnly hostMembers :=
    given_hostOnly trivial trivial rfl rfl rfl
  have htimes : ∀ n ∈ hostSettings.times, n.toNat ≤ Nat.pow 2 63 - 1 :=
    (by decide : hostSettings.FitsToml)
  have hkeyed : hostPage.Keyed := ⟨by decide, by decide, by decide, by decide, by decide⟩
  have hfits : ∀ l ∈ hostPage.lines, l.2.Fits := List.forall_mem_singleton.2 trivial
  have hvalues : ∀ s ∈ hostPage.sections, ∀ l ∈ s.lines, l.2.Fits :=
    List.forall_mem_cons.2 ⟨List.forall_mem_nil _, List.forall_mem_singleton.2
      (List.forall_mem_cons.2 ⟨trivial, List.forall_mem_singleton.2 trivial⟩)⟩
  have hparse := Toml.parse_page ⟨hkeyed, hfits, hvalues⟩ 0
  have hlaid : Json.Laid (.object hostMembers) (Json.Value.object hostMembers).compact :=
    Json.Value.laid_compact _ ⟨trivial, trivial, ⟨trivial, trivial, trivial⟩, trivial⟩
  have hscan := Json.Document.ofText_laid hlaid Json.blanks_nil Json.blanks_nil
  rw [Json.Document.table_ofValue rfl, List.nil_append, List.append_nil] at hscan
  generalize String.ofList (hostPage.render ++ List.replicate 0 '\n') = text at hparse
  have hwritten : ((FileTree.empty []).write "settings.toml" (Utf8.encode text)).1 = .ok () := rfl
  have hwrite := Prod.ext hwritten rfl
  refine ⟨⟨_, (hfile text _ hparse htoml).2 _ "settings.toml" (FileTree.holds_write hwrite)
    (FileTree.readText_write hwrite)⟩, ?_, ?_, ?_⟩
  · exact hpage htimes hostPage hkeyed hfits (fun s hs l hl _ => hvalues s hs l hl) htoml 1
  · exact hdocument _ _ _ hscan Json.blanks_nil hjson.ofValue
  · have hread := hobject _ _ [] [' '] hlaid Json.blanks_nil Json.blanks_space hjson
    rw [List.nil_append] at hread
    exact hread

end Settings

end Corelink
