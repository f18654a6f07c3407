import Corelink.Proofs.Files.Tree
import Mathlib.Data.List.TakeWhile

/-!
# What stands above a path

The parent of a path is the beginning of its parts, up to before the last one that counts
(`Path.exists_of_parent?`), and it is written as the beginning of its text. So where a path leads
anywhere, all the paths above it lead to directories (`FileTree.isDirectory_of_above`). Making the
directories above a path adds directories and changes nothing else (`FileTree.makeParents_grown`),
and it does not fail because one of them is missing (`FileTree.makeParents_ne_notFound`).
-/

namespace Corelink

namespace Path

variable {absolute : Bool} {cs : List Char} {p q : Part} {ps qs : List Part} {path parent : String}

/-! ### Parts and their text -/

theorem slash_notMem_of_mem_split (h : p ∈ split cs) : '/' ∉ p := by
  induction cs generalizing p with
  | nil =>
    rw [List.mem_singleton.1 h]
    exact List.not_mem_nil
  | cons c cs ih =>
    by_cases hc : c = '/'
    · rw [split, if_pos hc, List.mem_cons] at h
      obtain rfl | h := h
      · exact List.not_mem_nil
      · exact ih h
    · cases hs : split cs with
      | nil => exact absurd hs (split_ne_nil cs)
      | cons q qs =>
        rw [hs] at ih
        rw [split, if_neg hc, hs, List.mem_cons] at h
        obtain rfl | h := h
        · rw [List.mem_cons, not_or]
          exact ⟨Ne.symm hc, ih List.mem_cons_self⟩
        · exact ih (List.mem_cons_of_mem _ h)

theorem joinParts_cons_cons (p q : Part) (ps : List Part) :
    joinParts (p :: q :: ps) = p ++ '/' :: joinParts (q :: ps) :=
  rfl

theorem joinParts_split (cs : List Char) : joinParts (split cs) = cs := by
  induction cs with
  | nil => rfl
  | cons c cs ih =>
    cases hs : split cs with
    | nil => exact absurd hs (split_ne_nil cs)
    | cons q qs =>
      rw [hs] at ih
      by_cases hc : c = '/'
      · rw [split, if_pos hc, hs, joinParts_cons_cons, ih, hc]
        rfl
      · rw [split, if_neg hc, hs]
        cases qs with
        | nil => exact congrArg (c :: ·) ih
        | cons r rs => exact congrArg (c :: ·) ih

theorem split_append_slash (h : '/' ∉ p) (cs : List Char) :
    split (p ++ '/' :: cs) = p :: split cs := by
  induction p with
  | nil => exact if_pos rfl
  | cons c p ih =>
    rw [List.mem_cons, not_or] at h
    rw [List.cons_append, split, if_neg (Ne.symm h.1), ih h.2]

theorem split_of_slash_notMem (h : '/' ∉ p) : split p = [p] := by
  induction p with
  | nil => rfl
  | cons c p ih =>
    rw [List.mem_cons, not_or] at h
    rw [split, if_neg (Ne.symm h.1), ih h.2]

theorem split_joinParts (hne : ps ≠ []) (h : ∀ p ∈ ps, '/' ∉ p) : split (joinParts ps) = ps := by
  induction ps with
  | nil => exact absurd rfl hne
  | cons p ps ih =>
    rw [List.forall_mem_cons] at h
    cases ps with
    | nil => exact split_of_slash_notMem h.1
    | cons q ps =>
      rw [joinParts_cons_cons, split_append_slash h.1, ih (List.cons_ne_nil _ _) h.2]

theorem joinParts_isPrefix (ps qs : List Part) : joinParts ps <+: joinParts (ps ++ qs) := by
  induction ps with
  | nil => exact List.nil_prefix
  | cons p ps ih =>
    cases ps with
    | nil =>
      cases qs with
      | nil => exact List.prefix_rfl
      | cons q qs => exact List.prefix_append p _
    | cons q ps => exact (List.prefix_append_right_inj p).2 ((List.prefix_cons_inj '/').2 ih)

/-! ### Parts that can be written as a path -/

/-- No part holds a slash, and the text of a relative path does not begin with one. -/
structure Sound (absolute : Bool) (ps : List Part) : Prop where
  plain : ∀ p ∈ ps, '/' ∉ p
  relative : absolute = false → (joinParts ps).head? ≠ some '/'

theorem Sound.front (h : Sound absolute (ps ++ qs)) : Sound absolute ps where
  plain p hp := h.plain p (List.mem_append_left _ hp)
  relative habs hhead := by
    obtain ⟨rest, hrest⟩ := joinParts_isPrefix ps qs
    obtain ⟨cs, hcs⟩ := List.head?_eq_some_iff.1 hhead
    refine h.relative habs ?_
    rw [← hrest, hcs]
    rfl

theorem parts_eq (path : String) :
    parts path = (if isAbsolute path then [[]] else []) ++ body path := by
  unfold body
  cases habs : isAbsolute path with
  | false => rfl
  | true =>
    obtain ⟨cs, hcs⟩ := List.head?_eq_some_iff.1 (of_decide_eq_true habs)
    rw [parts, hcs, split, if_pos rfl]
    rfl

theorem joinParts_body (path : String) :
    (if isAbsolute path then ['/'] else []) ++ joinParts (body path) = path.toList := by
  have hjoin := joinParts_split path.toList
  cases habs : isAbsolute path with
  | false =>
    rw [body, habs]
    exact hjoin
  | true =>
    obtain ⟨cs, hcs⟩ := List.head?_eq_some_iff.1 (of_decide_eq_true habs)
    rw [body, habs, parts, hcs, split, if_pos rfl]
    exact congrArg ('/' :: ·) (joinParts_split cs)

theorem sound_body (path : String) : Sound (isAbsolute path) (body path) where
  plain p hp := by
    have hmem : p ∈ parts path := by
      rw [parts_eq]
      exact List.mem_append_right _ hp
    exact slash_notMem_of_mem_split hmem
  relative habs hhead := by
    have htext := joinParts_body path
    rw [habs] at htext
    rw [isAbsolute, ← htext] at habs
    exact of_decide_eq_false habs hhead

theorem isAbsolute_render (h : Sound absolute ps) : isAbsolute (render absolute ps) = absolute := by
  rw [isAbsolute, render, String.toList_ofList]
  cases absolute with
  | true => rfl
  | false => exact decide_eq_false (h.relative rfl)

theorem body_render (h : Sound absolute ps) (hne : ps ≠ []) : body (render absolute ps) = ps := by
  rw [body, isAbsolute_render h, parts, render, String.toList_ofList]
  cases absolute with
  | true => exact split_joinParts hne h.plain
  | false => exact split_joinParts hne h.plain

/-! ### Parents -/

theorem idle_of_not_counts (h : counts absolute p ps = false) : idle p = true := by
  simpa using (Bool.or_eq_false_iff.1 h).1

theorem ne_nil_of_counts (h : counts absolute p ps = true) : p ≠ [] := by
  rintro rfl
  cases h

theorem exists_of_fromLast (absolute : Bool) (ps : List Part) :
    ∃ skipped, ps = skipped ++ fromLast absolute ps ∧ (∀ p ∈ skipped, idle p = true) ∧
      ∀ p before, fromLast absolute ps = p :: before → counts absolute p before = true := by
  induction ps with
  | nil => exact ⟨[], rfl, List.forall_mem_nil _, nofun⟩
  | cons p before ih =>
    cases hcounts : counts absolute p before with
    | true =>
      rw [fromLast, if_pos hcounts]
      refine ⟨[], rfl, List.forall_mem_nil _, ?_⟩
      rintro _ _ ⟨⟩
      exact hcounts
    | false =>
      rw [fromLast, hcounts, if_neg Bool.false_ne_true]
      obtain ⟨skipped, heq, hidle, hlast⟩ := ih
      refine ⟨p :: skipped, congrArg (p :: ·) heq, List.forall_mem_cons.2 ⟨?_, hidle⟩, hlast⟩
      exact idle_of_not_counts hcounts

theorem exists_of_parent? (h : parent? path = some parent) : ∃ ps idles p skipped,
    body path = ps ++ (idles ++ p :: skipped) ∧ parent = render (isAbsolute path) ps ∧ p ≠ [] ∧
      (∀ q ∈ idles, idle q = true) ∧ ∀ q ∈ skipped, idle q = true := by
  unfold parent? at h
  obtain ⟨skipped, hbody, hskipped, hcounts⟩ :=
    exists_of_fromLast (isAbsolute path) (body path).reverse
  split at h
  · cases h
  · next p before hlast =>
    obtain ⟨idles, hbefore, hidles, -⟩ := exists_of_fromLast (isAbsolute path) before
    cases h
    refine ⟨_, idles.reverse, p, skipped.reverse, ?_, rfl, ne_nil_of_counts (hcounts _ _ hlast),
      fun q hq => hidles q ?_, fun q hq => hskipped q ?_⟩
    · rw [← List.reverse_reverse (body path), hbody, hlast, List.reverse_append, List.reverse_cons,
        List.append_assoc, ← List.append_assoc _ idles.reverse, ← List.reverse_append, ← hbefore]
      rfl
    · exact List.mem_reverse.1 hq
    · exact List.mem_reverse.1 hq

/-- Where the last part of a path leads somewhere, what is passed over at the end is empty: the last
part is looked for before any that is passed over and not empty. -/
theorem eq_nil_of_mem_skipped {front skipped : List Part}
    (hname : idle (splitLast path).2 = false) (hparts : parts path = front ++ skipped)
    (hidle : ∀ q ∈ skipped, idle q = true) : ∀ q ∈ skipped, q = [] := by
  rw [splitLast, hparts, List.reverse_append, List.dropWhile_append] at hname
  cases hlast : skipped.reverse.dropWhile (·.isEmpty) with
  | nil =>
    have hall := List.dropWhile_eq_nil_iff.1 hlast
    exact fun q hq => List.isEmpty_iff.1 (hall q (List.mem_reverse.2 hq))
  | cons q rest =>
    have hmem : q ∈ skipped.reverse :=
      (List.dropWhile_sublist _).mem (hlast ▸ List.mem_cons_self)
    rw [hlast] at hname
    cases (hidle q (List.mem_reverse.1 hmem)).symm.trans hname

theorem idle_of_parent?_eq_none (h : parent? path = none) : ∀ p ∈ parts path, idle p = true := by
  obtain ⟨skipped, hbody, hidle, -⟩ := exists_of_fromLast (isAbsolute path) (body path).reverse
  unfold parent? at h
  split at h
  · next hnone =>
    rw [hnone, List.append_nil] at hbody
    intro p hp
    rw [parts_eq, List.mem_append] at hp
    obtain hp | hp := hp
    · split at hp
      · rw [List.mem_singleton.1 hp]
        rfl
      · cases hp
    · exact hidle p (hbody ▸ List.mem_reverse.2 hp)
  · cases h

/-- A path whose last part leads somewhere has a parent, and no other part behind that one. -/
theorem exists_parent? (hname : idle (splitLast path).2 = false) : ∃ ps idles p skipped,
    body path = ps ++ (idles ++ p :: skipped) ∧
      parent? path = some (render (isAbsolute path) ps) ∧ p ≠ [] ∧
      (∀ q ∈ idles, idle q = true) ∧ ∀ q ∈ skipped, q = [] := by
  cases hparent : parent? path with
  | none =>
    have hempty := eq_nil_of_mem_skipped hname (List.nil_append _).symm
      (idle_of_parent?_eq_none hparent)
    have hall : (parts path).reverse.dropWhile (·.isEmpty) = [] :=
      List.dropWhile_eq_nil_iff.2 fun q hq => by rw [hempty q (List.mem_reverse.1 hq)]; rfl
    rw [splitLast, hall] at hname
    cases hname
  | some parent =>
    obtain ⟨ps, idles, p, skipped, hbody, rfl, hp, hidles, hskipped⟩ := exists_of_parent? hparent
    have hparts : parts path =
        ((if isAbsolute path then [[]] else []) ++ (ps ++ (idles ++ [p]))) ++ skipped := by
      rw [parts_eq, hbody]
      simp only [List.append_assoc, List.singleton_append]
    exact ⟨ps, idles, p, skipped, hbody, rfl, hp, hidles,
      eq_nil_of_mem_skipped hname hparts hskipped⟩

/-- The path `parent` stands above `path`: it is its parent, or stands above that. -/
inductive Above (parent : String) : String → Prop where
  | parent {path : String} : parent? path = some parent → Above parent path
  | further {path next : String} : parent? path = some next → Above parent next →
    Above parent path

theorem Above.ne_empty (h : Above parent path) : path ≠ "" := by
  rintro rfl
  cases h with
  | parent h => cases h
  | further h => cases h

end Path

namespace FileTree

variable {t t' : FileTree} {l l' m : Location} {p : Path.Part} {ps qs : List Path.Part}
  {absolute : Bool} {path parent : String} {r : Except FileError Unit} {e : FileError}

/-! ### Paths that are looked up -/

theorem check_eq_ok_iff : check path = .ok () ↔
    '\x00' ∉ path.toList ∧ path ≠ "" ∧ Utf8.size path < pathSizeLimit := by
  unfold check
  split
  · next h => simpa using fun hnot => absurd h (by simpa using hnot)
  · next h =>
    split
    · next hempty => simp_all
    · next hempty =>
      split <;> simp_all

theorem check_of_isPrefix (hne : parent ≠ "") (hfront : parent.toList <+: path.toList)
    (h : check path = .ok ()) : check parent = .ok () := by
  obtain ⟨hnul, -, hsize⟩ := check_eq_ok_iff.1 h
  refine check_eq_ok_iff.2 ⟨fun hmem => hnul (hfront.mem hmem), hne, Nat.lt_of_le_of_lt ?_ hsize⟩
  obtain ⟨rest, hrest⟩ := hfront
  rw [Utf8.size, Utf8.size, Utf8.encode, Utf8.encode, ← hrest, List.flatMap_append,
    List.length_append]
  exact Nat.le_add_right _ _

/-- Where the parts of a path begin, the slash in front aside. -/
def base (t : FileTree) (absolute : Bool) : Location :=
  if absolute then [] else t.here

/-- Following these parts from `l` ends at a directory. -/
def LeadsFrom (t : FileTree) (l : Location) (ps : List Path.Part) : Prop :=
  ∃ l', t.follow l ps = .ok l' ∧ t.get? l' = some .directory

theorem follow_append_eq_ok : t.follow l (ps ++ qs) = .ok l' ↔
    ∃ m, t.follow l ps = .ok m ∧ t.follow m qs = .ok l' := by
  constructor
  · intro h
    induction ps generalizing l with
    | nil => exact ⟨l, rfl, h⟩
    | cons p ps ih =>
      obtain ⟨l₁, hturn, hrest⟩ := follow_cons_eq_ok.1 h
      obtain ⟨m, hm, hqs⟩ := ih hrest
      exact ⟨m, follow_cons_eq_ok.2 ⟨l₁, hturn, hm⟩, hqs⟩
  · rintro ⟨m, hps, hqs⟩
    exact follow_append hps hqs

theorem follow_front (t : FileTree) (path : String) (ps : List Path.Part) :
    t.follow (t.start path) ((if Path.isAbsolute path then [[]] else []) ++ ps) =
      t.follow (t.base (Path.isAbsolute path)) ps := by
  rw [start, base]
  cases Path.isAbsolute path with
  | false => rfl
  | true => rfl

theorem follow_parts (t : FileTree) (path : String) :
    t.follow (t.start path) (Path.parts path) =
      t.follow (t.base (Path.isAbsolute path)) (Path.body path) := by
  rw [Path.parts_eq, follow_front]

theorem follow_idles (hdir : t.get? l = some .directory) (h : ∀ p ∈ ps, Path.idle p = true) :
    t.follow l ps = .ok l := by
  induction ps with
  | nil => rfl
  | cons p ps ih =>
    rw [List.forall_mem_cons] at h
    exact follow_cons_eq_ok.2 ⟨l, ⟨hdir, .inl ⟨h.1, rfl⟩⟩, ih h.2⟩

namespace LeadsFrom

theorem of_follow (h : t.follow l (ps ++ p :: qs) = .ok l') : t.LeadsFrom l ps := by
  obtain ⟨m, hps, hqs⟩ := follow_append_eq_ok.1 h
  obtain ⟨_, hturn, -⟩ := follow_cons_eq_ok.1 hqs
  exact ⟨m, hps, hturn.directory⟩

theorem append_idles (h : t.LeadsFrom l ps) (hidle : ∀ p ∈ qs, Path.idle p = true) :
    t.LeadsFrom l (ps ++ qs) := by
  obtain ⟨m, hps, hdir⟩ := h
  exact ⟨m, follow_append hps (follow_idles hdir hidle), hdir⟩

theorem put (hps : t.follow l ps = .ok m) (hdir : t.get? m = some .directory)
    (hname : namesNoEntry p = false) (hlong : nameTooLong p = false)
    (hfree : t.get? (m ++ [p]) = none) :
    (t.put (m ++ [p]) .directory).LeadsFrom l (ps ++ [p]) := by
  obtain ⟨hidle, hup⟩ := Bool.or_eq_false_iff.1 hname
  have hne : m ++ [p] ≠ [] := List.append_ne_nil_of_right_ne_nil _ (List.cons_ne_nil _ _)
  have hnew : (t.put (m ++ [p]) .directory).get? (m ++ [p]) = some .directory := by
    rw [get?_put hne, if_pos rfl]
  have hturn : (t.put (m ++ [p]) .directory).Turns p m (m ++ [p]) := by
    refine ⟨?_, .inr (.inr ⟨hidle, of_decide_eq_false hup, hlong, ?_, rfl⟩)⟩
    · rw [get?_put hne, if_neg (by simp), hdir]
    · rw [hnew]
      rfl
  refine ⟨m ++ [p], follow_append ?_ (follow_cons_eq_ok.2 ⟨_, hturn, rfl⟩), hnew⟩
  exact follow_put hne (by rw [hfree]; exact nofun) _ hps

theorem body_iff (h : Path.Sound absolute ps) :
    t.LeadsFrom (t.base absolute) (Path.body (Path.render absolute ps)) ↔
      t.LeadsFrom (t.base absolute) ps := by
  by_cases hne : ps = []
  · subst hne
    have hbody : Path.body (Path.render absolute []) = [[]] := by
      rw [Path.body, Path.isAbsolute_render h, Path.parts, Path.render, String.toList_ofList]
      cases absolute <;> rfl
    rw [hbody]
    constructor
    · rintro ⟨m, hm, hdir⟩
      exact @of_follow t _ _ [] [] [] hm
    · intro hnil
      have hidle : ∀ q ∈ [([] : Path.Part)], Path.idle q = true := by decide
      exact hnil.append_idles hidle
  · rw [Path.body_render h hne]

end LeadsFrom

theorem find_eq_ok {entry : Entry} : t.find path = .ok entry ↔ check path = .ok () ∧
    ∃ l, t.follow (t.base (Path.isAbsolute path)) (Path.body path) = .ok l ∧
      t.get? l = some entry := by
  rw [find, follow_parts]
  cases check path with
  | error e =>
    constructor
    · rintro ⟨⟩
    · rintro ⟨⟨⟩, -⟩
  | ok _ =>
    cases t.follow (t.base (Path.isAbsolute path)) (Path.body path) with
    | error e =>
      constructor
      · rintro ⟨⟩
      · rintro ⟨-, _, ⟨⟩, -⟩
    | ok l =>
      simp only [bind, Except.bind]
      constructor
      · intro h
        split at h
        · next found hentry =>
          cases h
          exact ⟨trivial, l, rfl, hentry⟩
        · cases h
      · rintro ⟨-, _, ⟨⟩, hentry⟩
        rw [hentry]

theorem isDirectory_iff : t.isDirectory path = true ↔
    check path = .ok () ∧ t.LeadsFrom (t.base (Path.isAbsolute path)) (Path.body path) := by
  rw [LeadsFrom, ← find_eq_ok, isDirectory, decide_eq_true_eq]
  cases t.find path with
  | error e => exact ⟨nofun, nofun⟩
  | ok entry =>
    exact ⟨fun h => congrArg _ (Option.some.inj h), fun h => congrArg _ (Except.ok.inj h)⟩

/-! ### Above a path that is there -/

/-- A parent is written with the beginning of its path's text. -/
theorem isPrefix_of_body (h : Path.body path = ps ++ qs) :
    (Path.render (Path.isAbsolute path) ps).toList <+: path.toList := by
  have htext := Path.joinParts_body path
  rw [h] at htext
  rw [Path.render, String.toList_ofList, ← htext]
  exact (List.prefix_append_right_inj _).2 (Path.joinParts_isPrefix ps qs)

theorem isDirectory_of_parent? {entry : Entry} (h : t.find path = .ok entry)
    (hparent : Path.parent? path = some parent) (hne : parent ≠ "") :
    t.isDirectory parent = true := by
  obtain ⟨hcheck, l, hfollow, -⟩ := find_eq_ok.1 h
  obtain ⟨ps, idles, p, skipped, hbody, rfl, -⟩ := Path.exists_of_parent? hparent
  obtain ⟨q, rest, hrest⟩ := @List.exists_cons_of_ne_nil _ (idles ++ p :: skipped) (by simp)
  rw [hrest] at hbody
  have hsound := Path.sound_body path
  rw [hbody] at hsound hfollow
  refine isDirectory_iff.2 ⟨check_of_isPrefix hne (isPrefix_of_body hbody) hcheck, ?_⟩
  rw [Path.isAbsolute_render hsound.front, LeadsFrom.body_iff hsound.front]
  exact .of_follow hfollow

/-- **Whatever stands above a path that is there is a directory.** -/
theorem isDirectory_of_above {entry : Entry} (h : t.find path = .ok entry)
    (habove : Path.Above parent path) (hne : parent ≠ "") : t.isDirectory parent = true := by
  induction habove generalizing entry with
  | parent hparent => exact isDirectory_of_parent? h hparent hne
  | further hnext habove ih =>
    have hdir := isDirectory_of_parent? h hnext habove.ne_empty
    exact ih (find_eq_ok.2 (isDirectory_iff.1 hdir))

/-! ### Making directories -/

theorem splitLast_eq (hbody : Path.body path = ps ++ p :: qs) (hp : p ≠ [])
    (hqs : ∀ q ∈ qs, q = []) :
    Path.splitLast path = ((if Path.isAbsolute path then [[]] else []) ++ ps, p) := by
  have hskipped : ∀ q ∈ qs.reverse, q.isEmpty = true := fun q hq => by
    rw [hqs q (List.mem_reverse.1 hq)]
    rfl
  rw [Path.splitLast, Path.parts_eq, hbody, ← List.append_assoc, List.reverse_append,
    List.reverse_cons, List.append_assoc, List.dropWhile_append_of_pos hskipped,
    List.singleton_append, List.dropWhile_cons_of_neg (by simpa using hp)]
  simp only [List.reverse_reverse]

section
variable (hbody : Path.body path = ps ++ p :: qs) (hp : p ≠ []) (hqs : ∀ q ∈ qs, q = [])
include hbody hp hqs

theorem eq_of_findParent {name : Path.Part} (h : t.findParent path = .ok (l, name)) :
    name = p ∧ t.follow (t.base (Path.isAbsolute path)) ps = .ok l ∧
      t.get? l = some .directory := by
  obtain ⟨-, hname, hfollow, hdir⟩ := findParent_eq_ok h
  rw [splitLast_eq hbody hp hqs] at hname hfollow
  rw [follow_front] at hfollow
  exact ⟨(congrArg Prod.snd hname).symm, hfollow, hdir⟩

theorem findParent_ne_notFound (h : t.LeadsFrom (t.base (Path.isAbsolute path)) ps) :
    t.findParent path ≠ .error .notFound := by
  obtain ⟨l, hfollow, hdir⟩ := h
  have hne : path ≠ "" := by
    rintro rfl
    have hempty : [[]] = ps ++ p :: qs := hbody
    have hmem : p ∈ [([] : Path.Part)] := hempty ▸ List.mem_append_right ps List.mem_cons_self
    exact hp (List.mem_singleton.1 hmem)
  have hfound : check path ≠ .error .notFound := by
    unfold check
    split
    · exact nofun
    · split
      · next hempty => exact absurd (by simpa using hempty) hne
      · split <;> exact nofun
  unfold findParent
  rw [splitLast_eq hbody hp hqs]
  cases hcheck : check path with
  | error e =>
    intro h
    rw [hcheck, Except.error.inj h] at hfound
    exact hfound rfl
  | ok _ =>
    simp only [follow_front, hfollow, bind, Except.bind, hdir]
    exact nofun

end

theorem makeDirectory_cases (t : FileTree) (path : String) :
    (∃ l name, t.findParent path = .ok (l, name) ∧ namesNoEntry name = false ∧
      nameTooLong name = false ∧ t.get? (l ++ [name]) = none ∧
      t.makeDirectory path = (.ok (), t.put (l ++ [name]) .directory)) ∨
    ∃ e, t.makeDirectory path = (.error e, t) ∧
      (e = .notFound → t.findParent path = .error .notFound) := by
  unfold makeDirectory directoryPlace
  cases hparent : t.findParent path with
  | error e => exact .inr ⟨e, rfl, fun he => he ▸ rfl⟩
  | ok found =>
    obtain ⟨l, name⟩ := found
    simp only [bind, Except.bind]
    cases hname : namesNoEntry name with
    | true => exact .inr ⟨_, rfl, nofun⟩
    | false =>
      cases hlong : nameTooLong name with
      | true => exact .inr ⟨_, rfl, nofun⟩
      | false =>
        cases hfree : t.get? (l ++ [name]) with
        | some entry => exact .inr ⟨.alreadyExists, by simp, nofun⟩
        | none => exact .inl ⟨l, name, rfl, hname, hlong, hfree, by simp⟩

/-- What comes of making the directory of a path, if a directory that is there already will do. -/
theorem orThere_makeDirectory (h : orThere path (t.makeDirectory path) = (r, t')) :
    t' = (t.makeDirectory path).2 ∧
    (r = .ok () → t.makeDirectory path = (.ok (), t') ∨ t'.isDirectory path = true) ∧
    ∀ e, r = .error e → t.makeDirectory path = (.error e, t) := by
  obtain ⟨l, name, -, -, -, -, hmake⟩ | ⟨e, hmake, -⟩ := t.makeDirectory_cases path
  · rw [hmake] at h ⊢
    cases h
    exact ⟨rfl, fun _ => .inl rfl, nofun⟩
  · rw [hmake] at h ⊢
    rw [orThere] at h
    split at h
    · next hdir =>
      cases h
      exact ⟨rfl, fun _ => .inr hdir, nofun⟩
    · cases h
      exact ⟨rfl, nofun, fun _ h => by rw [h]⟩

theorem makeAll_cons {before : List Path.Part} (hcounts : Path.counts absolute p before = true)
    (h : t.makeAll absolute (p :: before) = (r, t')) :
    (orThere (Path.render absolute (p :: before).reverse)
        (t.makeDirectory (Path.render absolute (p :: before).reverse)) = (r, t') ∧
      r ≠ .error .notFound) ∨
    (t.makeAll absolute before = (r, t') ∧ r ≠ .ok ()) ∨
    ∃ t₁, t.makeAll absolute before = (.ok (), t₁) ∧
      orThere (Path.render absolute (p :: before).reverse)
        (t₁.makeDirectory (Path.render absolute (p :: before).reverse)) = (r, t') := by
  rw [makeAll, if_pos hcounts] at h
  dsimp only at h
  generalize Path.render absolute (p :: before).reverse = path at h ⊢
  obtain ⟨l, name, -, -, -, -, hmake⟩ | ⟨e, hmake, -⟩ := t.makeDirectory_cases path
  · rw [hmake] at h ⊢
    cases h
    exact .inl ⟨rfl, nofun⟩
  · simp only [hmake] at h
    split at h
    · next heq =>
      cases heq
      split at h
      · next t₁ hbefore => exact .inr (.inr ⟨t₁, hbefore, h⟩)
      · next hfailed =>
        refine .inr (.inl ⟨h, ?_⟩)
        rintro rfl
        exact hfailed _ _ h
    · next hother =>
      rw [hmake]
      refine .inl ⟨h, ?_⟩
      rintro rfl
      obtain ⟨-, -, herror⟩ := orThere_makeDirectory (hmake ▸ h)
      have hnot := herror _ rfl
      rw [hmake] at hnot
      cases hnot
      exact hother _ rfl

/-- All that was there is there, and what is new is directories. -/
structure Grown (t t' : FileTree) : Prop where
  here : t'.here = t.here
  entry : ∀ l, t'.get? l = t.get? l ∨ t.get? l = none ∧ t'.get? l = some .directory

namespace Grown

theorem refl (t : FileTree) : t.Grown t :=
  ⟨rfl, fun _ => .inl rfl⟩

theorem trans {t'' : FileTree} (h : t.Grown t') (h' : t'.Grown t'') : t.Grown t'' where
  here := h'.here.trans h.here
  entry l := by
    obtain hsame | ⟨hnone, hdir⟩ := h.entry l
    · rw [← hsame]
      exact h'.entry l
    · obtain hsame' | ⟨hnone', -⟩ := h'.entry l
      · exact .inr ⟨hnone, hsame'.trans hdir⟩
      · cases hdir.symm.trans hnone'

theorem of_makeDirectory (t : FileTree) (path : String) : t.Grown (t.makeDirectory path).2 := by
  obtain ⟨l, name, -, -, -, hfree, h⟩ | ⟨e, h, -⟩ := t.makeDirectory_cases path
  · rw [h]
    refine ⟨rfl, fun m => ?_⟩
    rw [get?_put (List.append_ne_nil_of_right_ne_nil _ (List.cons_ne_nil _ _))]
    split
    · next hm =>
      subst hm
      exact .inr ⟨hfree, rfl⟩
    · exact .inl rfl
  · rw [h]
    exact .refl t

theorem of_orThere (h : orThere path (t.makeDirectory path) = (r, t')) : t.Grown t' := by
  rw [(orThere_makeDirectory h).1]
  exact of_makeDirectory t path

theorem of_makeAll (h : t.makeAll absolute ps = (r, t')) : t.Grown t' := by
  induction ps generalizing r t' with
  | nil =>
    cases h
    exact .refl t
  | cons p before ih =>
    cases hcounts : Path.counts absolute p before with
    | false =>
      rw [makeAll, hcounts, if_neg Bool.false_ne_true] at h
      exact ih h
    | true =>
      obtain ⟨hmake, -⟩ | ⟨hfailed, -⟩ | ⟨t₁, hbefore, hmake⟩ := makeAll_cons hcounts h
      · exact of_orThere hmake
      · exact ih hfailed
      · exact (ih hbefore).trans (of_orThere hmake)

end Grown

/-! ### Nothing above a path is missing -/

theorem leadsFrom_of_orThere (hbody : Path.body path = ps ++ [p]) (hp : p ≠ [])
    (h : orThere path (t.makeDirectory path) = (.ok (), t')) :
    t'.LeadsFrom (t'.base (Path.isAbsolute path)) (ps ++ [p]) := by
  obtain hmake | hdir := (orThere_makeDirectory h).2.1 rfl
  · obtain ⟨l, name, hparent, hname, hlong, hfree, hnew⟩ | ⟨e, hfailed, -⟩ :=
      t.makeDirectory_cases path
    · obtain ⟨rfl, hfollow, hl⟩ := eq_of_findParent hbody hp (List.forall_mem_nil _) hparent
      obtain rfl : t.put (l ++ [name]) .directory = t' :=
        congrArg Prod.snd (hnew.symm.trans hmake)
      exact .put hfollow hl hname hlong hfree
    · cases hfailed.symm.trans hmake
  · rw [← hbody]
    exact (isDirectory_iff.1 hdir).2

theorem ne_notFound_of_orThere (hbody : Path.body path = ps ++ [p]) (hp : p ≠ [])
    (hleads : t.LeadsFrom (t.base (Path.isAbsolute path)) ps)
    (h : orThere path (t.makeDirectory path) = (r, t')) : r ≠ .error .notFound := by
  intro hr
  have hfailed := (orThere_makeDirectory h).2.2 _ hr
  obtain ⟨_, _, -, -, -, -, hnew⟩ | ⟨e, hmake, hmissing⟩ := t.makeDirectory_cases path
  · cases hnew.symm.trans hfailed
  · cases hmake.symm.trans hfailed
    exact findParent_ne_notFound hbody hp (List.forall_mem_nil _) hleads (hmissing rfl)

/-- **Nothing is missing once the directories above are made.** -/
theorem leadsFrom_of_makeAll (hsound : Path.Sound absolute ps.reverse)
    (hbase : t.get? (t.base absolute) = some .directory) (h : t.makeAll absolute ps = (r, t')) :
    r ≠ .error .notFound ∧ (r = .ok () → t'.LeadsFrom (t'.base absolute) ps.reverse) := by
  induction ps generalizing r t' with
  | nil =>
    cases h
    exact ⟨nofun, fun _ => ⟨_, rfl, hbase⟩⟩
  | cons p before ih =>
    rw [List.reverse_cons] at hsound ⊢
    cases hcounts : Path.counts absolute p before with
    | false =>
      rw [makeAll, hcounts, if_neg Bool.false_ne_true] at h
      obtain ⟨hfound, hleads⟩ := ih hsound.front h
      refine ⟨hfound, fun hr => (hleads hr).append_idles ?_⟩
      exact List.forall_mem_singleton.2 (Path.idle_of_not_counts hcounts)
    | true =>
      have hp := Path.ne_nil_of_counts hcounts
      have hmakes := makeAll_cons hcounts h
      generalize hpath : Path.render absolute (p :: before).reverse = path at hmakes
      rw [List.reverse_cons] at hpath
      have hbody : Path.body path = before.reverse ++ [p] :=
        hpath ▸ Path.body_render hsound (List.append_ne_nil_of_right_ne_nil _ (by simp))
      have habs : Path.isAbsolute path = absolute := hpath ▸ Path.isAbsolute_render hsound
      -- a directory that is made here is what all of these parts lead to
      have made : ∀ {t₁ : FileTree}, orThere path (t₁.makeDirectory path) = (r, t') →
          r = .ok () → t'.LeadsFrom (t'.base absolute) (before.reverse ++ [p]) := by
        rintro t₁ hmake rfl
        exact habs ▸ leadsFrom_of_orThere hbody hp hmake
      obtain ⟨hmake, hfound⟩ | ⟨hfailed, hr⟩ | ⟨t₁, hbefore, hmake⟩ := hmakes
      · exact ⟨hfound, made hmake⟩
      · exact ⟨(ih hsound.front hfailed).1, fun hok => absurd hok hr⟩
      · have hleads := (ih hsound.front hbefore).2 rfl
        exact ⟨ne_notFound_of_orThere hbody hp (habs ▸ hleads) hmake, made hmake⟩

/-! ### Making the directories above a path -/

theorem makeParents_grown (h : t.makeParents path = (r, t')) : t.Grown t' := by
  unfold makeParents at h
  split at h
  · exact .of_makeAll h
  · cases h
    exact .refl t

/-- **No missing directory above a path is why it cannot be written**, if its last part leads
somewhere. -/
theorem makeParents_ne_notFound (hname : Path.idle (Path.splitLast path).2 = false)
    (hbase : t.get? (t.start path) = some .directory) (h : t.makeParents path = (r, t')) :
    r ≠ .error .notFound ∧ (r = .ok () → t'.findParent path ≠ .error .notFound) := by
  obtain ⟨ps, idles, p, skipped, hbody, hparent, hp, hidles, hskipped⟩ :=
    Path.exists_parent? hname
  have hsound : Path.Sound (Path.isAbsolute path) ps := (hbody ▸ Path.sound_body path).front
  rw [makeParents, hparent] at h
  simp only [makeDirectories, Path.isAbsolute_render hsound] at h
  have hbody' := Path.sound_body (Path.render (Path.isAbsolute path) ps)
  rw [Path.isAbsolute_render hsound] at hbody'
  obtain ⟨hfound, hleads⟩ := leadsFrom_of_makeAll
    ((List.reverse_reverse (Path.body (Path.render (Path.isAbsolute path) ps))).symm ▸ hbody')
    hbase h
  refine ⟨hfound, fun hr => ?_⟩
  have hps := hleads hr
  rw [List.reverse_reverse, LeadsFrom.body_iff hsound] at hps
  rw [← List.append_assoc] at hbody
  exact findParent_ne_notFound hbody hp hskipped (hps.append_idles hidles)

end FileTree

end Corelink
