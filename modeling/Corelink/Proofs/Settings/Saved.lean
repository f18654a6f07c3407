import Corelink.CommandLine.Run
import Corelink.Proofs.Files.Tree
import Corelink.Proofs.Toml.Document
import Corelink.Proofs.Toml.Reading

/-!
# Settings survive saving

Of all that settings can hold, the printer refuses only a time that is too great for TOML
(`Settings.toToml?_eq_some_iff`). Whatever the texts in them, settings whose times fit are written
as a document that is read back to the same settings (`Settings.ofToml_render`): each section to
its own record, by the keys it was written under. So a file that was saved is loaded to what was
saved, and what the configuration command prints is read to what it was printed for
(`Settings.survive_saving`).
-/

namespace Corelink

open Toml (Entries Origin Scalar Section entriesOf)

/-! ### Sections -/

open Toml.Value

variable {o : Origin}

theorem GeneralSettings.read_back (g : GeneralSettings) :
    asRecord (fields format) (.table o (entriesOf (("verbose", .bool g.verbose) ::
      match g.logFilter with
      | some t => [("log_filter", .text t)]
      | none => []))) {} = .ok g := by
  obtain ⟨v, _ | t⟩ := g
  · exact asRecord_table rfl (readEntries_cons rfl rfl)
  · exact asRecord_table rfl ((readEntries_cons rfl rfl).trans (readEntries_cons rfl rfl))

theorem CoreSettings.read_back (c : CoreSettings) :
    asRecord (fields format) (.table o (entriesOf [("host", .text c.host),
      ("port", .natural c.port.toNat),
      ("request_timeout_ms", .natural c.requestTimeout.toNat)])) {} = .ok c := by
  have hport : asWord (UInt16.size - 1) (.integer c.port.toNat) = .ok c.port.toNat :=
    asWord_natural (Nat.le_pred_of_lt c.port.toNat_lt)
  have hset := Field.read_withDefault "port" hport
    (fun n (s : CoreSettings) => { s with port := UInt16.ofNat n })
  rw [UInt16.ofNat_toNat] at hset
  refine asRecord_table rfl ((readEntries_cons rfl rfl).trans ?_)
  refine (readEntries_cons rfl (hset _)).trans ?_
  exact readEntries_cons rfl (read_wordField _ (asWord_word _) _ _)

theorem SessionSettings.read_back (t : SessionSettings) :
    asRecord (fields format) (.table o (entriesOf
      [("handshake_timeout_ms", .natural t.handshakeTimeout.toNat),
      ("keepalive_interval_ms", .natural t.keepAliveInterval.toNat),
      ("send_timeout_ms", .natural t.sendTimeout.toNat)])) {} = .ok t :=
  asRecord_table rfl ((readEntries_cons rfl (read_wordField _ (asWord_word _) _ _)).trans
    ((readEntries_cons rfl (read_wordField _ (asWord_word _) _ _)).trans
    (readEntries_cons rfl (read_wordField _ (asWord_word _) _ _))))

theorem PresenceSettings.read_back (p : PresenceSettings) :
    asRecord (fields format) (.table o (entriesOf
      [("core_timeout_ms", .natural p.coreTimeout.toNat)])) {} = .ok p :=
  asRecord_table rfl (readEntries_cons rfl (read_wordField _ (asWord_word _) _ _))

namespace Settings

theorem read_back (s : Settings) :
    read format (.table o (s.sections.map Section.entry)) = .ok s :=
  asRecord_table (o := o) rfl
    ((readEntries_cons rfl (read_inner general s.general.read_back _)).trans
    ((readEntries_cons rfl (read_inner core s.core.read_back _)).trans
    ((readEntries_cons rfl (read_inner session s.session.read_back _)).trans
    (readEntries_cons rfl (read_inner presence s.presence.read_back _)))))

/-! ### Documents -/

variable {s : Settings}

/-- The times, in the order they are written. -/
def times (s : Settings) : List UInt64 :=
  [s.core.requestTimeout, s.session.handshakeTimeout, s.session.keepAliveInterval,
    s.session.sendTimeout, s.presence.coreTimeout]

/-- Whether every time is small enough for TOML. -/
def FitsToml (s : Settings) : Prop :=
  ∀ n ∈ s.times, n.toNat ≤ Toml.maxInteger

instance (s : Settings) : Decidable s.FitsToml :=
  List.decidableBAll _ s.times

/-- What is written of settings fits just if the times do: no text and no port is ever too much. -/
theorem fits_sections_iff : (∀ t ∈ s.sections, t.Fits) ↔ s.FitsToml := by
  have hport : s.core.port.toNat ≤ Toml.maxInteger :=
    Nat.le_trans (Nat.le_of_lt s.core.port.toNat_lt) (by decide)
  cases hfilter : s.general.logFilter <;>
    simp only [sections, hfilter, FitsToml, times, Section.Fits, Scalar.Fits, List.forall_mem_cons,
      List.not_mem_nil, false_implies, implies_true, and_true, true_and, hport, and_assoc]

theorem plain_of_mem_sections (h : s.FitsToml) : ∀ t ∈ s.sections, t.Plain := by
  have hfits := fits_sections_iff.2 h
  simp only [sections, List.forall_mem_cons, List.not_mem_nil, false_implies, implies_true,
    and_true] at hfits ⊢
  obtain ⟨hgeneral, hcore, hsession, hpresence⟩ := hfits
  refine ⟨?_, ?_, ?_, ?_⟩
  · cases hfilter : s.general.logFilter with
    | none => exact .of_keys ["verbose"] rfl (by decide) (by decide) (by simp [Scalar.Fits])
    | some t =>
      exact .of_keys ["verbose", "log_filter"] rfl (by decide) (by decide) (by simp [Scalar.Fits])
  · exact .of_keys ["host", "port", "request_timeout_ms"] rfl (by decide) (by decide) hcore
  · exact .of_keys ["handshake_timeout_ms", "keepalive_interval_ms", "send_timeout_ms"] rfl
      (by decide) (by decide) hsession
  · exact .of_keys ["core_timeout_ms"] rfl (by decide) (by decide) hpresence

theorem nodup_sections (s : Settings) : (s.sections.map (·.name)).Nodup := by
  show ["general", "core", "session", "presence"].Nodup
  decide

/-- **Settings are read back** from the document that is written of them. -/
theorem ofToml_render (h : s.FitsToml) (n : Nat) :
    ofToml (String.ofList (Toml.render s.sections ++ List.replicate n '\n')) = .ok s := by
  have hparse := Toml.parse_render (plain_of_mem_sections h) (nodup_sections s) n
  simp only [ofToml, ofToml?, hparse, bind, Option.bind, read_back, Except.toOption]

/-- **Settings are written as TOML just if their times fit**, since the printer refuses nothing
else in them. -/
theorem toToml?_eq_some_iff {text : String} :
    s.toToml? = some text ↔ s.FitsToml ∧ text = String.ofList (Toml.render s.sections) := by
  simp only [toToml?, Option.map_eq_some_iff, Toml.render?_eq_some_iff, fits_sections_iff]
  constructor
  · rintro ⟨_, ⟨h, rfl⟩, rfl⟩
    exact ⟨h, rfl⟩
  · rintro ⟨h, rfl⟩
    exact ⟨_, ⟨h, rfl⟩, rfl⟩

theorem toToml?_eq_some (h : s.FitsToml) :
    s.toToml? = some (String.ofList (Toml.render s.sections)) :=
  toToml?_eq_some_iff.2 ⟨h, rfl⟩

theorem toToml?_eq_none_iff : s.toToml? = none ↔ ¬ s.FitsToml := by
  simp only [toToml?, Option.map_eq_none_iff, Toml.render?_eq_none_iff, ← fits_sections_iff,
    Section.Fits, Classical.not_forall, exists_prop, Scalar.not_fits_iff]

theorem ofToml_of_toToml? (h : s.FitsToml) :
    ofToml (String.ofList (Toml.render s.sections)) = .ok s := by
  simpa using ofToml_render h 0

/-! ### Files and the command line -/

variable {t t' t₁ : FileTree} {path : String}

theorem load_write {text : String} (h : t.write path (Utf8.encode text) = (.ok (), t')) :
    load t' path = ofToml text := by
  rw [load, if_pos (FileTree.holds_write h), FileTree.readText_write h]

theorem ofOutcome_eq_ok {r : FileTree.Outcome} (h : ofOutcome r = (.ok (), t)) :
    r = (.ok (), t) := by
  obtain ⟨r | r, t'⟩ := r
  · cases h
  · cases h
    rfl

theorem load_save (hfits : s.FitsToml) (h : s.save t path = (.ok (), t')) :
    load t' path = .ok s := by
  simp only [save, toToml?_eq_some hfits] at h
  split at h
  · rw [load_write (ofOutcome_eq_ok h), ofToml_of_toToml? hfits]
  · next r hne =>
    have hok := ofOutcome_eq_ok h
    exact absurd hok (hne () t')

theorem save_of_filePlace {place : Location} (hfits : s.FitsToml)
    (hparents : t.makeParents path = (.ok (), t₁)) (hplace : t₁.filePlace path = .ok place) :
    (s.save t path).1 = .ok () := by
  simp only [save, toToml?_eq_some hfits, hparents, FileTree.write, hplace]
  rfl

end Settings

open CommandLine

/-- What the configuration command shows: the settings in force, or the example. -/
def CommandLine.shown (generated : Bool) (c : Settings) : Settings :=
  if generated then Settings.sample else c

theorem CommandLine.run_config {sur : Surroundings} {words : List String} {i : Invocation}
    {c : Settings} {generated : Bool} {output : Option String} (hparse : parse words = .ok i)
    (hcommand : i.command = .config generated output) (hsettings : settings sur i.config = .ok c)
    (houtput : generated = true → output = none) (hfits : (shown generated c).FitsToml) :
    run sur words =
      { stdout := String.ofList (Toml.render (shown generated c).sections) ++ "\n",
        tree := sur.tree } := by
  have htext := Settings.toToml?_eq_some hfits
  simp only [run, hparse, hsettings, hcommand, runCommand]
  cases generated with
  | true =>
    rw [houtput rfl, if_pos rfl]
    delta generate
    rw [show Settings.sample.toToml? = _ from htext]
  | false =>
    simp only [Bool.false_eq_true, if_false, printSettings, show c.toToml? = _ from htext]

/-- **Settings survive saving.** Settings whose times fit are saved wherever a file can be written,
the saved file is loaded to them, and so is the text that the configuration command prints. -/
theorem Settings.survive_saving (s : Settings) (h : ∀ n ∈ s.times, n.toNat ≤ Nat.pow 2 63 - 1) :
    (∀ t t' path, s.save t path = (.ok (), t') → load t' path = .ok s) ∧
    (∀ t t₁ path place, t.makeParents path = (.ok (), t₁) → t₁.filePlace path = .ok place →
      (s.save t path).1 = .ok ()) ∧
    ∀ sur words i c generated output, parse words = .ok i →
      i.command = .config generated output → (generated = true → output = none) →
      settings sur i.config = .ok c → shown generated c = s →
      (run sur words).exitCode = 0 ∧ ofToml (run sur words).stdout = .ok s ∧
      ∀ (t t' : FileTree) path, t.write path (Utf8.encode (run sur words).stdout) = (.ok (), t') →
        load t' path = .ok s := by
  have hfits : s.FitsToml := h
  refine ⟨fun _ _ _ => load_save hfits, fun _ _ _ _ => save_of_filePlace hfits, ?_⟩
  intro sur words i c generated output hparse hcommand houtput hsettings hshown
  have hrun := run_config hparse hcommand hsettings houtput (hshown ▸ hfits)
  have hend : String.ofList (List.replicate 1 '\n') = "\n" := rfl
  have htext : ofToml (run sur words).stdout = .ok s := by
    rw [hrun, hshown, ← hend, ← String.ofList_append]
    exact ofToml_render hfits 1
  refine ⟨by rw [hrun], htext, fun t t' path hwrite => ?_⟩
  rw [load_write hwrite, htext]

/-- Settings with a host of line ends, quotes in runs, a backslash and a control. -/
def quotedSettings : Settings :=
  { core := { host := "\n\x22\x22\x22a\x27\x27\x27\\\x7f\n" } }

/-- An environment that overrides the host with that text, and no files. -/
def quotedSurroundings : Surroundings :=
  { overrides := { host := some quotedSettings.core.host }, configHome := none, home := none,
    tree := .empty [], core := fun c => { settings := c, route := .unreachable, core := {} } }

theorem quoted_host_survives_saving :
    (∀ n ∈ quotedSettings.times, n.toNat ≤ Nat.pow 2 63 - 1) ∧
    (∃ t, quotedSettings.save (.empty []) "saved.toml" = (.ok (), t) ∧
      Settings.load t "saved.toml" = .ok quotedSettings) ∧
    Settings.ofToml (run quotedSurroundings ["config"]).stdout = .ok quotedSettings := by
  have htimes : ∀ n ∈ quotedSettings.times, n.toNat ≤ Nat.pow 2 63 - 1 :=
    (by decide : quotedSettings.FitsToml)
  obtain ⟨hload, hsave, hprint⟩ := Settings.survive_saving quotedSettings htimes
  have hsaved : (quotedSettings.save (.empty []) "saved.toml").1 = .ok () :=
    hsave (.empty []) (.empty []) "saved.toml" ["saved.toml".toList] rfl rfl
  have hshown := hprint quotedSurroundings ["config"] ⟨none, false, .config false none⟩
    quotedSettings false none rfl rfl (fun h => nomatch h) rfl rfl
  exact ⟨htimes, ⟨_, Prod.ext hsaved rfl, hload _ _ _ (Prod.ext hsaved rfl)⟩, hshown.2.1⟩

end Corelink
