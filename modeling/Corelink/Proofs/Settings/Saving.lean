import Corelink.Proofs.Files.Parents
import Corelink.Proofs.Settings.Saved

/-!
# What saving leaves behind

Settings are put into words before the file tree is touched. So settings in which the printer comes
upon a number that is too great are refused whatever the path, and the tree is left as it was
(`Settings.save_of_not_fits`). All other
settings are refused only where the file tree refuses them, and once they are saved, the path holds
their text, what stands above it are directories, and nothing else has changed
(`Settings.refused_settings_spare_files`).
-/

namespace Corelink

namespace FileTree

variable {t t' : FileTree} {path : String} {content : Bytes}

theorem exists_put_of_write (h : t.write path content = (.ok (), t')) :
    ∃ place, t' = t.put place (.file content) := by
  unfold write at h
  split at h
  · next place _ =>
    cases h
    exact ⟨place, rfl⟩
  · cases h

/-- Where the last part of a path is to stand, nothing else can be missing. -/
theorem write_ne_notFound (h : t.findParent path ≠ .error .notFound) :
    (t.write path content).1 ≠ .error .notFound := by
  unfold write filePlace
  cases hparent : t.findParent path with
  | error e =>
    rintro ⟨⟩
    exact h hparent
  | ok found =>
    obtain ⟨l, name⟩ := found
    simp only [bind, Except.bind]
    split
    · exact nofun
    · next e he =>
      rintro ⟨⟩
      split at he
      · cases he
      · split at he
        · cases he
        · split at he <;> cases he

end FileTree

namespace Settings

variable {s : Settings} {t t' : FileTree} {path : String}

theorem save_of_not_fits (h : ¬ s.FitsToml) (t : FileTree) (path : String) :
    s.save t path = (.error .unwritable, t) := by
  rw [save, toToml?_eq_none_iff.2 h]

theorem save_of_fits (h : s.FitsToml) (t : FileTree) (path : String) :
    (∃ e t', t.makeParents path = (.error e, t') ∧ s.save t path = (.error (.file e), t')) ∨
    ∃ t', t.makeParents path = (.ok (), t') ∧
      s.save t path =
        ofOutcome (t'.write path (Utf8.encode (String.ofList (Toml.render s.sections)))) := by
  simp only [save, toToml?_eq_some h]
  obtain ⟨r, t'⟩ := t.makeParents path
  cases r with
  | error e => exact .inl ⟨e, t', rfl, rfl⟩
  | ok _ => exact .inr ⟨t', rfl, rfl⟩

theorem exists_file_error {o : FileTree.Outcome} {e : SettingsError}
    (h : (ofOutcome o).1 = .error e) : ∃ f, o.1 = .error f ∧ e = .file f := by
  obtain ⟨_ | f, t⟩ := o
  · cases h
    exact ⟨_, rfl, rfl⟩
  · cases h

theorem not_fitsToml_iff : ¬ s.FitsToml ↔ ∃ n ∈ s.times, Nat.pow 2 63 - 1 < n.toNat := by
  simp only [FitsToml, not_forall, Nat.not_le, exists_prop]
  rfl

theorem grown_of_refused {e : SettingsError} (hfits : s.FitsToml)
    (h : s.save t path = (.error e, t')) : (∃ f, e = .file f) ∧ t.Grown t' := by
  obtain ⟨f, t₁, hparents, hsave⟩ | ⟨t₁, hparents, hsave⟩ := save_of_fits hfits t path
  · cases hsave.symm.trans h
    exact ⟨⟨f, rfl⟩, FileTree.makeParents_grown hparents⟩
  · have hwrite := hsave.symm.trans h
    obtain ⟨f, hfailed, rfl⟩ := exists_file_error (congrArg Prod.fst hwrite)
    obtain rfl : t₁ = t' := by
      rw [FileTree.write] at hwrite hfailed
      split at hwrite
      · cases hwrite
      · exact congrArg Prod.snd hwrite
    exact ⟨⟨f, rfl⟩, FileTree.makeParents_grown hparents⟩

theorem exists_put_of_save (hfits : s.FitsToml) (h : s.save t path = (.ok (), t')) :
    ∃ t₁ place, t.Grown t₁ ∧
      t₁.write path (Utf8.encode (String.ofList (Toml.render s.sections))) = (.ok (), t') ∧
      t' = t₁.put place (.file (Utf8.encode (String.ofList (Toml.render s.sections)))) := by
  obtain ⟨f, t₁, hparents, hsave⟩ | ⟨t₁, hparents, hsave⟩ := save_of_fits hfits t path
  · cases hsave.symm.trans h
  · have hwrite := ofOutcome_eq_ok (hsave.symm.trans h)
    obtain ⟨place, hput⟩ := FileTree.exists_put_of_write hwrite
    exact ⟨t₁, place, FileTree.makeParents_grown hparents, hwrite, hput⟩

theorem save_ne_notFound (hname : Path.idle (Path.splitLast path).2 = false)
    (hbase : t.get? (t.start path) = some .directory) :
    (s.save t path).1 ≠ .error (.file .notFound) := by
  by_cases hfits : s.FitsToml
  · obtain ⟨f, t₁, hparents, hsave⟩ | ⟨t₁, hparents, hsave⟩ := save_of_fits hfits t path
    · rw [hsave]
      rintro ⟨⟩
      exact (FileTree.makeParents_ne_notFound hname hbase hparents).1 rfl
    · rw [hsave]
      intro hmissing
      obtain ⟨f, hfailed, hf⟩ := exists_file_error hmissing
      cases hf
      exact FileTree.write_ne_notFound
        ((FileTree.makeParents_ne_notFound hname hbase hparents).2 rfl) hfailed
  · rw [save_of_not_fits hfits]
    exact nofun

/-- **Settings that are refused leave the file tree alone.** They are refused as unwritable just
when one of their times does not fit, whatever the rest of them and the path, and then the file
tree is as it was. All others are refused by the file tree only, which has new directories at most,
and never because a directory above a name is missing. Once they are saved, the path leads to their
text, what stands above it are directories, and nothing else was changed. -/
theorem refused_settings_spare_files (s : Settings) (t : FileTree) (path : String) :
    ((s.save t path).1 = .error .unwritable ↔ ∃ n ∈ s.times, Nat.pow 2 63 - 1 < n.toNat) ∧
    ((s.save t path).1 = .error .unwritable → (s.save t path).2 = t) ∧
    (∀ e t', s.save t path = (.error e, t') → e ≠ .unwritable →
      (∃ f, e = .file f) ∧ t.Grown t') ∧
    (Path.idle (Path.splitLast path).2 = false → t.get? (t.start path) = some .directory →
      (s.save t path).1 ≠ .error (.file .notFound)) ∧
    ∀ t', s.save t path = (.ok (), t') → ∃ text, s.toToml? = some text ∧
      t'.find path = .ok (.file (Utf8.encode text)) ∧
      (∀ parent, Path.Above parent path → parent ≠ "" → t'.isDirectory parent = true) ∧
      ∃ t₁ place, t.Grown t₁ ∧ t' = t₁.put place (.file (Utf8.encode text)) := by
  have hrefused : (s.save t path).1 = .error .unwritable ↔ ¬ s.FitsToml := by
    refine ⟨fun h hfits => ?_, fun h => by rw [save_of_not_fits h]⟩
    obtain ⟨⟨f, hf⟩, -⟩ := grown_of_refused hfits (Prod.ext h rfl : s.save t path = (_, _))
    cases hf
  refine ⟨hrefused.trans not_fitsToml_iff, fun h => ?_, fun e t' h hne => ?_, save_ne_notFound,
    fun t' h => ?_⟩
  · rw [save_of_not_fits (hrefused.1 h)]
  · by_cases hfits : s.FitsToml
    · exact grown_of_refused hfits h
    · cases (save_of_not_fits hfits t path).symm.trans h
      exact absurd rfl hne
  · by_cases hfits : s.FitsToml
    · obtain ⟨t₁, place, hgrown, hwrite, hput⟩ := exists_put_of_save hfits h
      have hfound := FileTree.find_write hwrite
      exact ⟨_, toToml?_eq_some hfits, hfound,
        fun _ habove => FileTree.isDirectory_of_above hfound habove, t₁, place, hgrown, hput⟩
    · cases (save_of_not_fits hfits t path).symm.trans h

/-- Settings with one time too long for TOML. -/
def overlongSettings : Settings :=
  { presence := { coreTimeout := 9223372036854775808 } }

/-- The sample is saved two directories deep where nothing is, and settings that do not fit are
refused there and leave it. -/
theorem overlong_settings_spare_sample :
    ∃ t, sample.save (.empty []) "etc/core/bridge.toml" = (.ok (), t) ∧
      t.isDirectory "etc" = true ∧ t.isDirectory "etc/core" = true ∧
      (∃ text, sample.toToml? = some text ∧
        t.find "etc/core/bridge.toml" = .ok (.file (Utf8.encode text))) ∧
      (overlongSettings.save t "etc/core/bridge.toml").1 = .error .unwritable ∧
      (overlongSettings.save t "etc/core/bridge.toml").2 = t := by
  obtain ⟨t₁, hparents, hplace⟩ : ∃ t₁, (FileTree.empty []).makeParents "etc/core/bridge.toml" =
      (.ok (), t₁) ∧ t₁.filePlace "etc/core/bridge.toml" =
        .ok ["etc".toList, "core".toList, "bridge.toml".toList] := ⟨_, rfl, rfl⟩
  have hsaved := save_of_filePlace (by decide : sample.FitsToml) hparents hplace
  generalize hsave : sample.save (.empty []) "etc/core/bridge.toml" = saved at hsaved
  obtain ⟨r, t⟩ := saved
  obtain rfl : r = .ok () := hsaved
  obtain ⟨-, -, -, -, hfound⟩ :=
    refused_settings_spare_files sample (.empty []) "etc/core/bridge.toml"
  obtain ⟨text, htext, hfile, habove, -⟩ := hfound t hsave
  obtain ⟨hrefused, hspared, -⟩ :=
    refused_settings_spare_files overlongSettings t "etc/core/bridge.toml"
  have hunwritable := hrefused.2 ⟨9223372036854775808, by decide, by decide⟩
  exact ⟨t, rfl, habove "etc" (.further rfl (.parent rfl)) (by decide),
    habove "etc/core" (.parent rfl) (by decide), ⟨text, htext, hfile⟩, hunwritable,
    hspared hunwritable⟩

end Settings

end Corelink
