import Corelink.Files.Tree
import Corelink.Proofs.Text.Utf8

/-!
# What is written is found

A file is written where the last part of its path is to stand. That part is the last one of the path
also for a reader (`Path.parts_eq_of_splitLast`), and a new file is in nobody's way, because nothing
is ever looked for under it (`FileTree.follow_put`). So the path leads to the file that was written.
-/

namespace Corelink

namespace Path

theorem split_ne_nil (cs : List Char) : split cs ≠ [] := by
  cases cs with
  | nil => exact List.cons_ne_nil _ _
  | cons c cs =>
    unfold split
    split
    · exact List.cons_ne_nil _ _
    · split <;> exact List.cons_ne_nil _ _

theorem getLast?_split {cs : List Char} (h : (split cs).getLast? = some []) :
    cs = [] ∨ cs.getLast? = some '/' := by
  induction cs with
  | nil => exact .inl rfl
  | cons c cs ih =>
    refine .inr ?_
    by_cases hc : c = '/'
    · subst hc
      rw [split, if_pos rfl] at h
      have htail : (split cs).getLast? = some [] := by
        rwa [List.getLast?_cons_of_ne_nil (split_ne_nil cs)] at h
      obtain rfl | hlast := ih htail
      · rfl
      · rw [List.getLast?_cons, hlast]
        rfl
    · rw [split, if_neg hc] at h
      cases hs : split cs with
      | nil => exact absurd hs (split_ne_nil cs)
      | cons p ps =>
        rw [hs] at h ih
        cases ps with
        | nil => cases h
        | cons q qs =>
          have htail : (p :: q :: qs).getLast? = some [] := by
            simpa only [List.getLast?_cons_cons] using h
          obtain rfl | hlast := ih htail
          · cases hs
          · rw [List.getLast?_cons, hlast]
            rfl

theorem parts_eq_of_splitLast {path : String} {before : List Part} {name : Part}
    (h : splitLast path = (before, name)) (hslash : endsInSlash path = false)
    (hname : idle name = false) : parts path = before ++ [name] := by
  have hne : name ≠ [] := by
    rintro rfl
    cases hname
  unfold splitLast at h
  cases hparts : (parts path).reverse with
  | nil =>
    rw [hparts] at h
    exact absurd (Prod.mk.inj h).2.symm hne
  | cons p ps =>
    have hsplit : parts path = ps.reverse ++ [p] := by
      rw [← List.reverse_reverse (parts path), hparts, List.reverse_cons]
    cases p with
    | nil =>
      have hlast : (split path.toList).getLast? = some [] := by
        rw [← parts, hsplit, List.getLast?_concat]
      obtain hempty | hlast := getLast?_split hlast
      · rw [parts, hempty] at h
        exact absurd (Prod.mk.inj h).2.symm hne
      · simp [endsInSlash, hlast] at hslash
    | cons c cs =>
      rw [hparts, List.dropWhile_cons_of_neg (by simp)] at h
      obtain ⟨rfl, rfl⟩ := Prod.mk.inj h
      exact hsplit

end Path

namespace FileTree

variable {t t' : FileTree} {l l' m : Location} {ps : List Path.Part} {path : String}

/-- A part leads from a place to the next one. -/
structure Turns (t : FileTree) (p : Path.Part) (l l' : Location) : Prop where
  directory : t.get? l = some .directory
  place : (Path.idle p = true ∧ l' = l) ∨
    (Path.idle p = false ∧ p = ['.', '.'] ∧ l' = l.dropLast) ∨
    (Path.idle p = false ∧ p ≠ ['.', '.'] ∧ nameTooLong p = false ∧ (t.get? (l ++ [p])).isSome ∧
      l' = l ++ [p])

theorem follow_cons_eq_ok {p : Path.Part} :
    t.follow l (p :: ps) = .ok l' ↔ ∃ m, t.Turns p l m ∧ t.follow m ps = .ok l' := by
  constructor
  · intro h
    unfold follow at h
    split at h
    · cases h
    · cases h
    · next hdir =>
      split at h
      · next hidle => exact ⟨l, ⟨hdir, .inl ⟨hidle, rfl⟩⟩, h⟩
      · next hidle =>
        rw [Bool.not_eq_true] at hidle
        split at h
        · next hup => exact ⟨l.dropLast, ⟨hdir, .inr (.inl ⟨hidle, hup, rfl⟩)⟩, h⟩
        · next hup =>
          split at h
          · cases h
          · next hlong =>
            split at h
            · cases h
            · next hthere =>
              refine ⟨l ++ [p], ⟨hdir, .inr (.inr ⟨hidle, hup, ?_, ?_, rfl⟩)⟩, h⟩
              · simpa using hlong
              · simpa [Option.isSome_iff_ne_none] using hthere
  · rintro ⟨m, ⟨hdir, hplace⟩, h⟩
    unfold follow
    obtain ⟨hidle, rfl⟩ | ⟨hidle, rfl, rfl⟩ | ⟨hidle, hup, hlong, hthere, rfl⟩ := hplace
    · simpa [hdir, hidle] using h
    · simpa [hdir, hidle] using h
    · have hnone : (t.get? (l ++ [p])).isNone = false := by
        simpa [Option.isSome_iff_ne_none] using hthere
      simpa [hdir, hidle, hup, hlong, hnone] using h

theorem follow_append {qs : List Path.Part} {l'' : Location} (h : t.follow l ps = .ok l')
    (h' : t.follow l' qs = .ok l'') : t.follow l (ps ++ qs) = .ok l'' := by
  induction ps generalizing l with
  | nil =>
    cases h
    exact h'
  | cons p ps ih =>
    obtain ⟨l₁, hturn, hrest⟩ := follow_cons_eq_ok.1 h
    exact follow_cons_eq_ok.2 ⟨l₁, hturn, ih hrest⟩

theorem Turns.put {p : Path.Part} (hm : m ≠ []) (hfree : t.get? m ≠ some .directory) (e : Entry)
    (h : t.Turns p l l') : (t.put m e).Turns p l l' := by
  have hlm : l ≠ m := fun heq => hfree (heq ▸ h.directory)
  refine ⟨by rw [get?_put hm, if_neg hlm, h.directory], h.place.imp id (.imp id ?_)⟩
  rintro ⟨hidle, hup, hlong, hthere, rfl⟩
  refine ⟨hidle, hup, hlong, ?_, rfl⟩
  rw [get?_put hm]
  split
  · rfl
  · exact hthere

theorem follow_put (hm : m ≠ []) (hfree : t.get? m ≠ some .directory) (e : Entry)
    (h : t.follow l ps = .ok l') : (t.put m e).follow l ps = .ok l' := by
  induction ps generalizing l with
  | nil => exact h
  | cons p ps ih =>
    obtain ⟨l₁, hturn, hrest⟩ := follow_cons_eq_ok.1 h
    exact follow_cons_eq_ok.2 ⟨l₁, hturn.put hm hfree e, ih hrest⟩

theorem find_put {before : List Path.Part} {name : Path.Part} (hcheck : check path = .ok ())
    (hparts : Path.parts path = before ++ [name])
    (hbefore : t.follow (t.start path) before = .ok l) (hdir : t.get? l = some .directory)
    (hname : namesNoEntry name = false) (hlong : nameTooLong name = false)
    (hfree : t.get? (l ++ [name]) ≠ some .directory) (content : Bytes) :
    (t.put (l ++ [name]) (.file content)).find path = .ok (.file content) := by
  obtain ⟨hidle, hup⟩ := Bool.or_eq_false_iff.1 hname
  have hne : l ++ [name] ≠ [] := List.append_ne_nil_of_right_ne_nil _ (List.cons_ne_nil _ _)
  have hput := get?_put (t := t) hne (.file content)
  have hlast : (t.put (l ++ [name]) (.file content)).Turns name l (l ++ [name]) := by
    refine ⟨?_, .inr (.inr ⟨hidle, of_decide_eq_false hup, hlong, ?_, rfl⟩)⟩
    · rw [hput, if_neg (by simp), hdir]
    · rw [hput, if_pos rfl]
      rfl
  have hway : (t.put (l ++ [name]) (.file content)).follow (t.start path) (Path.parts path) =
      .ok (l ++ [name]) := by
    rw [hparts]
    exact follow_append (follow_put hne hfree _ hbefore) (follow_cons_eq_ok.2 ⟨_, hlast, rfl⟩)
  have hstart : (t.put (l ++ [name]) (.file content)).start path = t.start path := rfl
  simp only [find, hcheck, hstart, hway, bind, Except.bind, hput, if_pos]

theorem findParent_eq_ok {name : Path.Part} (h : t.findParent path = .ok (l, name)) :
    check path = .ok () ∧ Path.splitLast path = ((Path.splitLast path).1, name) ∧
      t.follow (t.start path) (Path.splitLast path).1 = .ok l ∧ t.get? l = some .directory := by
  unfold findParent at h
  cases hcheck : check path with
  | error e => simp [hcheck, bind, Except.bind] at h
  | ok _ =>
    cases hbefore : t.follow (t.start path) (Path.splitLast path).1 with
    | error e => simp [hcheck, hbefore, bind, Except.bind] at h
    | ok m =>
      simp only [hcheck, hbefore, bind, Except.bind] at h
      split at h
      · next hdir =>
        obtain ⟨rfl, rfl⟩ := Prod.mk.inj (Except.ok.inj h)
        exact ⟨rfl, rfl, rfl, hdir⟩
      · cases h
      · cases h

/-- **A path leads to the file that was written** under it. -/
theorem find_write {content : Bytes} (h : t.write path content = (.ok (), t')) :
    t'.find path = .ok (.file content) := by
  unfold write filePlace at h
  cases hparent : t.findParent path with
  | error e => simp [hparent, bind, Except.bind] at h
  | ok r =>
    obtain ⟨l, name⟩ := r
    obtain ⟨hcheck, hsplit, hbefore, hdir⟩ := findParent_eq_ok hparent
    simp only [hparent, bind, Except.bind] at h
    split at h
    · next m hplace =>
      split at hplace
      · cases hplace
      · next hentry =>
        split at hplace
        · cases hplace
        · next hlong =>
          split at hplace
          · cases hplace
          · next hfree =>
            obtain ⟨hslash, hname⟩ : Path.endsInSlash path = false ∧ namesNoEntry name = false := by
              simpa using hentry
            have hparts := Path.parts_eq_of_splitLast hsplit hslash (Bool.or_eq_false_iff.1 hname).1
            rw [← (Prod.mk.inj h).2, ← Except.ok.inj hplace]
            exact find_put hcheck hparts hbefore hdir hname (by simpa using hlong) hfree content
    · cases h

theorem holds_write {content : Bytes} (h : t.write path content = (.ok (), t')) :
    t'.holds path = true := by
  rw [holds, find_write h]
  rfl

/-- **A text is read back** from the file it was written to. -/
theorem readText_write {s : String} (h : t.write path (Utf8.encode s) = (.ok (), t')) :
    t'.readText path = .ok s := by
  simp only [readText, read, find_write h, bind, Except.bind, Utf8.decode?, Utf8.decodeLossy_encode,
    if_pos]

end FileTree

end Corelink
