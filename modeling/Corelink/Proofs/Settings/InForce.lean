import Corelink.Proofs.Settings.Overrides
import Corelink.Proofs.Settings.Values

/-!
# Settings in force

A place for settings is in one of five states (`Candidate`), and the state alone says what is
loaded from it (`FileTree.Shows.load_eq`). Without a file named, the first place at which anything
is decides (`Settings.loadFirst_eq`), and what cannot be loaded counts as an empty document. What a
run then goes by are the overrides, else the document, else the defaults (`CommandLine.Governs`,
`CommandLine.settings_in_force`).
-/

namespace Corelink

open Toml (Scalar)

/-! ### Places for settings -/

/-- What is at a place for settings. -/
inductive Candidate where
  | absent
  | directory
  /-- A file whose bytes are no text. -/
  | notText
  /-- A text that is no document, or one of values that are no settings. -/
  | malformed
  | document (root : Toml.Entries) (c : Settings)

namespace Candidate

/-- What is loaded from the path where it is. -/
def loaded (path : String) : Candidate → Except SettingsError Settings
  | absent => .error (.notFound path)
  | directory => .error (.file .isADirectory)
  | notText => .error (.file .notText)
  | malformed => .error .malformed
  | document _ c => .ok c

/-- The entries that count: none if there is no document. -/
def entries : Candidate → Toml.Entries
  | document root _ => root
  | absent | directory | notText | malformed => []

end Candidate

namespace FileTree

variable {t : FileTree} {path : String} {found : Candidate}

/-- What the tree has at a path. -/
inductive Shows (t : FileTree) (path : String) : Candidate → Prop where
  | absent (h : t.holds path = false) : Shows t path .absent
  | directory (h : t.find path = .ok .directory) : Shows t path .directory
  | notText {content : Bytes} (h : t.find path = .ok (.file content))
      (hno : ∀ text, Utf8.encode text ≠ content) : Shows t path .notText
  | malformed {text : String} (h : t.find path = .ok (.file (Utf8.encode text)))
      (hno : Settings.ofToml? text = none) : Shows t path .malformed
  | document {text : String} {root : Toml.Entries} {c : Settings}
      (h : t.find path = .ok (.file (Utf8.encode text))) (hparse : Toml.parse text = some root)
      (hread : Settings.read Toml.Value.format (.table .header root) = .ok c) :
      Shows t path (.document root c)

theorem exists_shows (t : FileTree) (path : String) : ∃ found, t.Shows path found := by
  cases hfind : t.find path with
  | error e => exact ⟨_, .absent (by rw [holds, hfind]; rfl)⟩
  | ok entry =>
    cases entry with
    | directory => exact ⟨_, .directory hfind⟩
    | file content =>
      by_cases htext : ∃ text, Utf8.encode text = content
      · obtain ⟨text, rfl⟩ := htext
        cases hparse : Toml.parse text with
        | none => exact ⟨_, .malformed hfind (by rw [Settings.ofToml?, hparse]; rfl)⟩
        | some root =>
          cases hread : Settings.read Toml.Value.format (.table .header root) with
          | error e =>
            refine ⟨_, .malformed hfind ?_⟩
            simp only [Settings.ofToml?, hparse, bind, Option.bind, hread, Except.toOption]
          | ok c => exact ⟨_, .document hfind hparse hread⟩
      · exact ⟨_, .notText hfind (not_exists.1 htext)⟩

theorem holds_of_find {entry : Entry} (h : t.find path = .ok entry) : t.holds path = true := by
  rw [holds, h]
  rfl

theorem readText_of_encode {text : String} (h : t.find path = .ok (.file (Utf8.encode text))) :
    t.readText path = .ok text := by
  simp only [readText, read, h, bind, Except.bind, Utf8.decode?, Utf8.decodeLossy_encode, if_pos]

theorem readText_of_not_encode {content : Bytes} (h : t.find path = .ok (.file content))
    (hno : ∀ text, Utf8.encode text ≠ content) : t.readText path = .error .notText := by
  have hnone : Utf8.decode? content = none :=
    Option.eq_none_iff_forall_ne_some.2 fun text hsome => hno text (Utf8.encode_decode? hsome)
  simp only [readText, read, h, bind, Except.bind, hnone]

theorem readText_of_directory (h : t.find path = .ok .directory) :
    t.readText path = .error .isADirectory := by
  simp only [readText, read, h, bind, Except.bind]

/-- **What is at a path says what is loaded.** -/
theorem Shows.load_eq (h : t.Shows path found) : Settings.load t path = found.loaded path := by
  cases h with
  | absent h => exact if_neg (Bool.eq_false_iff.1 h)
  | directory h =>
    rw [Settings.load, if_pos (holds_of_find h), readText_of_directory h]
    rfl
  | notText h hno =>
    rw [Settings.load, if_pos (holds_of_find h), readText_of_not_encode h hno]
    rfl
  | malformed h hno =>
    rw [Settings.load, if_pos (holds_of_find h), readText_of_encode h]
    simp only [Settings.ofToml, hno, Candidate.loaded]
  | document h hparse hread =>
    rw [Settings.load, if_pos (holds_of_find h), readText_of_encode h]
    simp only [Settings.ofToml, Settings.ofToml?, hparse, bind, Option.bind, hread,
      Except.toOption, Candidate.loaded]

theorem Shows.value? {c : Settings} (h : t.Shows path found) (hload : found.loaded path = .ok c)
    {name k : String} (hk : k ∈ Settings.keys name) :
    c.value? name k =
      (Settings.given? found.entries name k).or (({} : Settings).value? name k) := by
  cases h with
  | document _ _ hread =>
    cases hload
    exact Settings.value?_read hread hk
  | absent | directory | notText | malformed => cases hload

/-- The path is the first of these places at which anything is. -/
def IsFirst (t : FileTree) (places : List String) (path : String) : Prop :=
  ∃ before after, places = before ++ path :: after ∧ (∀ p ∈ before, t.holds p = false) ∧
    t.holds path = true

theorem isFirst_or_absent (t : FileTree) (places : List String) :
    (∃ path, t.IsFirst places path) ∨ ∀ p ∈ places, t.holds p = false := by
  cases hfind : places.find? t.holds with
  | none =>
    exact .inr fun p hp => Bool.eq_false_iff.2 (List.find?_eq_none.1 hfind p hp)
  | some path =>
    obtain ⟨hholds, before, after, hplaces, hbefore⟩ := List.find?_eq_some_iff_append.1 hfind
    exact .inl ⟨path, before, after, hplaces, fun p hp => by simpa using hbefore p hp, hholds⟩

end FileTree

namespace Settings

variable {t : FileTree} {places : List String} {path : String}

theorem loadFirst_eq (h : t.IsFirst places path) : loadFirst t places = load t path := by
  obtain ⟨before, after, hplaces, hbefore, hholds⟩ := h
  have hfind : places.find? t.holds = some path :=
    List.find?_eq_some_iff_append.2
      ⟨hholds, before, after, hplaces, fun p hp => by rw [hbefore p hp]; rfl⟩
  rw [loadFirst, hfind]

theorem loadFirst_of_absent (h : ∀ p ∈ places, t.holds p = false) :
    loadFirst t places = .ok {} := by
  have hfind : places.find? t.holds = none :=
    List.find?_eq_none.2 fun p hp => Bool.eq_false_iff.1 (h p hp)
  rw [loadFirst, hfind]

end Settings

/-! ### Overrides setting by setting -/

/-- The setting that an override gives. -/
inductive Overrides.Gives (o : Overrides) : String → String → Scalar → Prop where
  | host {h : String} (hhost : o.host = some h) : Gives o "core" "host" (.text h)
  | port {text : String} {p : UInt16} (hport : o.port = some text) (hp : SpellsPort text p) :
      Gives o "core" "port" (.natural p.toNat)

theorem Settings.value?_core (b : Settings) (core : CoreSettings) (name k : String) :
    { b with core := core }.value? name k =
      if "core" = name then core.lines.lookup k else b.value? name k := by
  split
  · next h =>
    subst h
    rfl
  · next h => simp [value?, sections_eq, List.find?_cons, h]

namespace Overrides

variable {o : Overrides} {b c : Settings} {name k : String} {v : Scalar}

theorem apply_eq_ok (h : o.apply b = (.ok (), c)) : ∃ p,
    c = { b with core := { b.core with host := o.host.getD b.core.host, port := p } } ∧
    ((o.port = none ∧ p = b.core.port) ∨ ∃ text, o.port = some text ∧ SpellsPort text p) := by
  obtain hnone | ⟨text, p, hport, hp⟩ | ⟨text, hport, hp⟩ := o.port_cases
  · rw [o.apply_of_none b hnone] at h
    cases h
    exact ⟨_, rfl, .inl ⟨hnone, rfl⟩⟩
  · rw [o.apply_of_spells b hport hp] at h
    cases h
    exact ⟨p, rfl, .inr ⟨text, hport, hp⟩⟩
  · rw [o.apply_of_no_port b hport hp] at h
    cases h

theorem value?_of_gives (h : o.apply b = (.ok (), c)) (hv : o.Gives name k v) :
    c.value? name k = some v := by
  obtain ⟨p, rfl, hport⟩ := apply_eq_ok h
  cases hv with
  | @host new hhost =>
    rw [hhost]
    rfl
  | @port text q htext hq =>
    obtain ⟨hnone, -⟩ | ⟨text', htext', hp⟩ := hport
    · cases hnone.symm.trans htext
    · cases htext'.symm.trans htext
      have heq := (port?_eq_some_iff.2 hp).symm.trans (port?_eq_some_iff.2 hq)
      cases heq
      rfl

theorem value?_of_not_gives (h : o.apply b = (.ok (), c)) (hno : ∀ v, ¬ o.Gives name k v) :
    c.value? name k = b.value? name k := by
  obtain ⟨p, rfl, hport⟩ := apply_eq_ok h
  rw [Settings.value?_core]
  split
  · next hname =>
    subst hname
    change _ = b.core.lines.lookup k
    by_cases hhost : k = "host"
    · subst hhost
      have hnone : o.host = none :=
        Option.eq_none_iff_forall_ne_some.2 fun new hnew => hno _ (.host hnew)
      rw [hnone]
      rfl
    · by_cases hk : k = "port"
      · subst hk
        obtain ⟨-, rfl⟩ | ⟨text, htext, hp⟩ := hport
        · rfl
        · exact absurd (.port htext hp) (hno _)
      · simp [CoreSettings.lines, List.lookup_cons, beq_false_of_ne hhost, beq_false_of_ne hk]
  · rfl

end Overrides

/-! ### Runs -/

namespace CommandLine

variable {s : Surroundings} {config : Option String} {b : Settings} {root : Toml.Entries}

theorem settings_of_load (h : loadSettings s config = .ok b) :
    settings s config = (s.overrides.apply b).1.map fun _ => (s.overrides.apply b).2 := by
  simp only [settings, h, bind, Except.bind]
  cases (s.overrides.apply b).1 <;> rfl

/-- What a run goes by: the overrides, else a document, else the defaults. -/
structure Governs (s : Surroundings) (config : Option String) (root : Toml.Entries) : Prop where
  fails_iff : (∃ e, settings s config = .error e) ↔
    ∃ text, s.overrides.port = some text ∧ ∀ p, ¬ SpellsPort text p
  error {e : SettingsError} (h : settings s config = .error e) :
    ∃ text, s.overrides.port = some text ∧ e = .badOverride Overrides.portVariable text
  overridden {c : Settings} (h : settings s config = .ok c) {name k : String} {v : Scalar}
    (hv : s.overrides.Gives name k v) : c.value? name k = some v
  kept {c : Settings} (h : settings s config = .ok c) {name k : String}
    (hk : k ∈ Settings.keys name) (hno : ∀ v, ¬ s.overrides.Gives name k v) :
    c.value? name k = (Settings.given? root name k).or (({} : Settings).value? name k)

theorem governs_of_load (h : loadSettings s config = .ok b)
    (hb : ∀ name, ∀ k ∈ Settings.keys name,
      b.value? name k = (Settings.given? root name k).or (({} : Settings).value? name k)) :
    Governs s config root := by
  have hsettings := settings_of_load h
  have happly : ∀ {c}, settings s config = .ok c → s.overrides.apply b = (.ok (), c) := by
    intro c hc
    obtain ⟨a, ha, hbase⟩ := map_eq_ok_iff.1 (hsettings.symm.trans hc)
    exact Prod.ext ha hbase
  have hfails : ∀ {e}, settings s config = .error e ↔ (s.overrides.apply b).1 = .error e := by
    intro e
    rw [hsettings]
    cases (s.overrides.apply b).1 with
    | ok a => exact ⟨nofun, nofun⟩
    | error e' => exact ⟨fun h => by cases h; rfl, fun h => by cases h; rfl⟩
  exact
    { fails_iff := by simpa only [hfails] using s.overrides.apply_fails_iff b
      error := fun {e} he => by
        have happ := hfails.1 he
        obtain ⟨text, hport, hp⟩ := (s.overrides.apply_fails_iff b).1 ⟨e, happ⟩
        rw [s.overrides.apply_of_no_port b hport hp] at happ
        cases happ
        exact ⟨text, hport, rfl⟩
      overridden := fun hc _ _ _ hv => Overrides.value?_of_gives (happly hc) hv
      kept := fun hc name k hk hno =>
        (Overrides.value?_of_not_gives (happly hc) hno).trans (hb name k hk) }

/-- The places that are tried when no file is named. -/
def Surroundings.places (s : Surroundings) : List String :=
  Settings.usualPlaces s.configHome s.home

theorem loadSettings_none (s : Surroundings) : loadSettings s none =
    match Settings.loadFirst s.tree s.places with
    | .ok c => .ok c
    | .error _ => .ok {} :=
  rfl

theorem governs_of_defaults (h : loadSettings s config = .ok {}) : Governs s config [] :=
  governs_of_load h fun _ _ _ => rfl

theorem governs_of_first {path : String} {found : Candidate}
    (hfirst : s.tree.IsFirst s.places path) (hfound : s.tree.Shows path found) :
    Governs s none found.entries := by
  have hload : Settings.loadFirst s.tree s.places = found.loaded path :=
    (Settings.loadFirst_eq hfirst).trans hfound.load_eq
  have hsettings := loadSettings_none s
  rw [hload] at hsettings
  cases found with
  | document root c => exact governs_of_load hsettings fun name k hk => hfound.value? rfl hk
  | absent | directory | notText | malformed => exact governs_of_defaults hsettings

theorem governs_of_absent (h : ∀ p ∈ s.places, s.tree.holds p = false) : Governs s none [] := by
  have hsettings := loadSettings_none s
  rw [Settings.loadFirst_of_absent h] at hsettings
  exact governs_of_defaults hsettings

theorem governs_of_named {path : String} {found : Candidate} {c : Settings}
    (hfound : s.tree.Shows path found) (hload : found.loaded path = .ok c) :
    Governs s (some path) found.entries :=
  governs_of_load (hfound.load_eq.trans hload) fun _ _ hk => hfound.value? hload hk

theorem settings_of_named {path : String} {found : Candidate} {e : SettingsError}
    (hfound : s.tree.Shows path found) (hload : found.loaded path = .error e) :
    settings s (some path) = .error e := by
  have hnamed : loadSettings s (some path) = .error e := hfound.load_eq.trans hload
  simp only [settings, hnamed, bind, Except.bind]

/-- **Which settings are in force.** Without a file named, what is at the first place at which
anything is decides, and no other place does: its document is what counts, if it is one, and else
only the overrides and the defaults do, as where nothing is at any place. A file that is named must
be a document. Then the overrides come first, the document second and the defaults last, in each
setting, and together that says what the settings are. A run fails over its settings only for a
named file that is none or for a port that is none, and else goes by them. -/
theorem settings_in_force (s : Surroundings) :
    s.places = ((Settings.userDirectory? s.configHome s.home).map
      (Path.under · "fsx-bridge/config.toml")).toList ++ ["./fsx-bridge.toml", "./config.toml"] ∧
    (∀ path, ∃ found, s.tree.Shows path found) ∧
    ((∃ path, s.tree.IsFirst s.places path) ∨ ∀ p ∈ s.places, s.tree.holds p = false) ∧
    (∀ path found, s.tree.IsFirst s.places path → s.tree.Shows path found →
      Settings.loadFirst s.tree s.places = Settings.load s.tree path ∧
      Settings.load s.tree path = found.loaded path ∧ Governs s none found.entries) ∧
    ((∀ p ∈ s.places, s.tree.holds p = false) →
      Settings.loadFirst s.tree s.places = .ok {} ∧ Governs s none []) ∧
    (∀ path found, s.tree.Shows path found →
      (∀ e, found.loaded path = .error e → settings s (some path) = .error e) ∧
      ∀ c, found.loaded path = .ok c → Governs s (some path) found.entries) ∧
    (∀ c c' : Settings, (∀ name, ∀ k ∈ Settings.keys name, c.value? name k = c'.value? name k) →
      c = c') ∧
    ∀ words i, parse words = .ok i →
      (∀ e, settings s i.config = .error e → run s words = failed s.tree e.message) ∧
      ∀ c, settings s i.config = .ok c → run s words = runCommand s c i.command := by
  refine ⟨rfl, s.tree.exists_shows, s.tree.isFirst_or_absent s.places, ?_, ?_, ?_,
    fun _ _ => Settings.ext_value?, fun words i hparse => ⟨fun e he => ?_, fun c hc => ?_⟩⟩
  · intro path found hfirst hfound
    exact ⟨Settings.loadFirst_eq hfirst, hfound.load_eq, governs_of_first hfirst hfound⟩
  · intro habsent
    exact ⟨Settings.loadFirst_of_absent habsent, governs_of_absent habsent⟩
  · intro path found hfound
    exact ⟨fun _ => settings_of_named hfound, fun _ => governs_of_named hfound⟩
  · simp only [run, hparse, he]
  · simp only [run, hparse, hc]

/-- A tree with a directory where settings are looked for first, and a file where they are looked
for next. -/
def hiddenTree : FileTree :=
  ((FileTree.empty []).put ["fsx-bridge.toml".toList] .directory).put ["config.toml".toList]
    (.file (Utf8.encode (String.ofList (Toml.render Settings.sample.sections))))

def hiddenSurroundings : Surroundings :=
  { overrides := { port := some " +09001\t" }, configHome := none, home := none,
    tree := hiddenTree, core := fun c => { settings := c, route := .unreachable, core := {} } }

theorem shows_rendered {t : FileTree} {path : String} {c : Settings} (hfits : c.FitsToml)
    (h : t.find path = .ok (.file (Utf8.encode (String.ofList (Toml.render c.sections))))) :
    t.Shows path (.document (c.sections.map Toml.Section.entry) c) := by
  have hparse := Toml.parse_render (Settings.plain_of_mem_sections hfits)
    (Settings.nodup_sections c) 0
  rw [List.replicate_zero, List.append_nil] at hparse
  exact .document h hparse (Settings.read_back c)

theorem spellsPort_padded : SpellsPort " +09001\t" 9001 := by
  have hdigits : "09001".toList.all Char.isDigit = true := by decide
  exact ⟨[' '], ['+'], "09001".toList, ['\t'], by decide,
    List.forall_mem_singleton.2 (by decide), List.forall_mem_singleton.2 (by decide), .inr rfl,
    by decide, List.all_eq_true.1 hdigits, by decide⟩

/-- The directory hides the file, which can still be named. -/
theorem directory_hides_settings :
    (∃ c, settings hiddenSurroundings none = .ok c ∧
      c.value? "core" "host" = some (.text "127.0.0.1") ∧
      c.value? "core" "port" = some (.natural 9001)) ∧
    ∃ c, settings hiddenSurroundings (some "./config.toml") = .ok c ∧
      c.value? "core" "host" = some (.text "core.internal") ∧
      c.value? "core" "port" = some (.natural 9001) := by
  obtain ⟨-, -, -, hfirst, -, hnamed, -⟩ := settings_in_force hiddenSurroundings
  have hport : hiddenSurroundings.overrides.Gives "core" "port" (.natural 9001) :=
    .port rfl spellsPort_padded
  have hhost : ∀ v, ¬ hiddenSurroundings.overrides.Gives "core" "host" v := by
    intro v hv
    generalize hkey : "host" = k at hv
    cases hv with
    | host h => cases h
    | port => exact absurd hkey (by decide)
  have hok : ∀ {config root}, Governs hiddenSurroundings config root →
      ∃ c, settings hiddenSurroundings config = .ok c := by
    intro config root hgoverns
    cases hsettings : settings hiddenSurroundings config with
    | ok c => exact ⟨c, rfl⟩
    | error e =>
      obtain ⟨text, htext, hno⟩ := hgoverns.fails_iff.1 ⟨e, hsettings⟩
      cases htext
      exact absurd spellsPort_padded (hno 9001)
  constructor
  · obtain ⟨-, -, hgoverns⟩ := hfirst "./fsx-bridge.toml" .directory
      ⟨[], _, rfl, List.forall_mem_nil _, rfl⟩ (.directory rfl)
    obtain ⟨c, hc⟩ := hok hgoverns
    exact ⟨c, hc, hgoverns.kept hc (by decide) hhost, hgoverns.overridden hc hport⟩
  · have hshows : hiddenTree.Shows "./config.toml" _ :=
      shows_rendered (show Settings.sample.FitsToml by decide) rfl
    have hgoverns := (hnamed "./config.toml" _ hshows).2 _ rfl
    obtain ⟨c, hc⟩ := hok hgoverns
    exact ⟨c, hc, (hgoverns.kept hc (by decide) hhost).trans (by decide),
      hgoverns.overridden hc hport⟩

end CommandLine

end Corelink
