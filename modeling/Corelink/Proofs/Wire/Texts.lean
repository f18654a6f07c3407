import Corelink.Proofs.Wire.Reads

/-!
# Texts one after another

Texts go into one buffer, each behind its length; one that is too long is refused and leaves the
buffer alone. So what has been added in the end is the texts that fit, in order, whatever was
refused between them (`Field.texts_eq`). As many texts are read back from it, and then nothing is
left (`Field.texts_read_back`).
-/

namespace Corelink.Wire

namespace Field

variable {buffer : Bytes} {field s : String}

/-- A text with its length in front. -/
def written (s : String) : Bytes :=
  BigEndian.ofNat 2 (Utf8.size s) ++ Utf8.encode s

/-- Whether a text fits behind a length of two bytes. -/
def fits (s : String) : Bool :=
  Utf8.size s ≤ maxFieldSize

/-- What is answered to a text for a field. -/
def answer (field s : String) : Except ValidationError Unit :=
  if fits s then .ok () else .error (.fieldTooLong field (Utf8.size s))

theorem text_of_fits (field : String) (h : fits s = true) : text field s = .ok (written s) :=
  text_eq_ok_iff.2 ⟨of_decide_eq_true h, rfl⟩

theorem text_of_not_fits (field : String) (h : fits s = false) :
    text field s = .error (.fieldTooLong field (Utf8.size s)) :=
  if_pos (Nat.not_le.1 (of_decide_eq_false h))

theorem texts_of_fits (h : fits s = true) (fields : List (String × String)) :
    texts buffer ((field, s) :: fields) =
      (.ok () :: (texts (buffer ++ written s) fields).1, (texts (buffer ++ written s) fields).2) := by
  rw [texts, text_of_fits field h]

theorem texts_of_not_fits (h : fits s = false) (fields : List (String × String)) :
    texts buffer ((field, s) :: fields) =
      (.error (.fieldTooLong field (Utf8.size s)) :: (texts buffer fields).1,
        (texts buffer fields).2) := by
  rw [texts, text_of_not_fits field h]

/-- **The texts that fit are written one after another**, and each text is answered by itself. -/
theorem texts_eq (buffer : Bytes) (fields : List (String × String)) :
    texts buffer fields = (fields.map fun f => answer f.1 f.2,
      buffer ++ ((fields.map (·.2)).filter fits).flatMap written) := by
  induction fields generalizing buffer with
  | nil => exact congrArg _ (List.append_nil buffer).symm
  | cons f fields ih =>
    obtain ⟨field, s⟩ := f
    cases hs : fits s with
    | true =>
      rw [texts_of_fits hs, ih, List.map_cons, List.map_cons, List.filter_cons_of_pos hs,
        List.flatMap_cons, List.append_assoc, answer, if_pos hs]
    | false =>
      have hnot : ¬ fits s = true := Bool.eq_false_iff.1 hs
      rw [texts_of_not_fits hs, ih, List.map_cons, List.map_cons, List.filter_cons_of_neg hnot,
        answer, if_neg hnot]

/-- **Texts are read back one after another**, whatever they are asked for as. -/
theorem play_texts {ss names : List String} (h : ∀ s ∈ ss, fits s = true)
    (hlength : names.length = ss.length) (rest : Bytes) :
    Read.play (names.map .text) (ss.flatMap written ++ rest) =
      (ss.map fun s => .ok (.text s), rest) := by
  induction ss generalizing names with
  | nil =>
    rw [List.eq_nil_of_length_eq_zero hlength]
    rfl
  | cons s ss ih =>
    obtain ⟨name, names, rfl⟩ := List.exists_cons_of_length_eq_add_one hlength
    rw [List.forall_mem_cons] at h
    have htakes : (Reader.text name).Takes (written s) s :=
      Reader.takes_text (text_of_fits name h.1)
    have hread : (Read.text name).reader (written s ++ (ss.flatMap written ++ rest)) = _ :=
      htakes.map Read.Value.text _
    rw [List.map_cons, Read.play_cons, List.flatMap_cons, List.append_assoc, hread,
      ih h.2 (Nat.succ.inj hlength), List.map_cons]

/-- **Texts that fit are kept and read back**, whatever is refused between them. The buffer ends as
it was with the texts that fit behind it, in order. A text that is too long leaves it alone, and is
answered with its own field and size. Reading as many texts from what was added gives just these,
and nothing is left. -/
theorem texts_read_back (buffer : Bytes) (fields : List (String × String)) :
    let kept := (fields.map (·.2)).filter (Utf8.size · ≤ maxFieldSize)
    let added := kept.flatMap fun s => BigEndian.ofNat 2 (Utf8.size s) ++ Utf8.encode s
    (texts buffer fields).2 = buffer ++ added ∧
    (∀ before field s after, fields = before ++ (field, s) :: after →
      (Utf8.size s ≤ maxFieldSize → (texts buffer fields).1[before.length]? = some (.ok ())) ∧
      (maxFieldSize < Utf8.size s →
        (texts buffer fields).1[before.length]? =
          some (.error (.fieldTooLong field (Utf8.size s))) ∧
        (texts buffer (before ++ [(field, s)])).2 = (texts buffer before).2)) ∧
    ∀ names : List String, names.length = kept.length →
      Read.play (names.map .text) added = (kept.map fun s => .ok (.text s), []) ∧
      (Reader.finish (Read.play (names.map .text) added).2).1 = .ok () := by
  intro kept added
  refine ⟨by rw [texts_eq]; rfl, ?_, fun names hlength => ?_⟩
  · rintro before field s after rfl
    have hanswer : (texts buffer (before ++ (field, s) :: after)).1[before.length]? =
        some (answer field s) := by
      simp [texts_eq]
    refine ⟨fun hs => ?_, fun hs => ⟨?_, ?_⟩⟩
    · have hfits : fits s = true := decide_eq_true hs
      rw [hanswer, answer, if_pos hfits]
    · have hnot : ¬ fits s = true := by simpa [fits] using hs
      rw [hanswer, answer, if_neg hnot]
    · have hnot : fits s = false := decide_eq_false (Nat.not_le.2 hs)
      simp [texts_eq, hnot]
  · have hplay : Read.play (names.map .text) added = (kept.map fun s => .ok (.text s), []) := by
      have hfits : ∀ s ∈ kept, fits s = true := fun s hs => (List.mem_filter.1 hs).2
      have h := play_texts hfits hlength []
      rwa [List.append_nil] at h
    exact ⟨hplay, by rw [hplay]; rfl⟩

/-- Between two texts that fit, one that is a byte too long. -/
theorem long_text_is_refused :
    let long := String.ofList (List.replicate 65536 'x')
    let fields := [("username", "né"), ("email", long), ("password", "")]
    (texts [1] fields).2 = [1, 0, 3, 0x6E, 0xC3, 0xA9, 0, 0] ∧
    (texts [1] fields).1[1]? = some (.error (.fieldTooLong "email" 65536)) ∧
    (texts [1] [("username", "né"), ("email", long)]).2 = (texts [1] [("username", "né")]).2 ∧
    Read.play [.text "first", .text "second"] [0, 3, 0x6E, 0xC3, 0xA9, 0, 0] =
      ([.ok (.text "né"), .ok (.text "")], []) := by
  intro long fields
  have hsize : ∀ n, Utf8.size (String.ofList (List.replicate n 'x')) = n := by
    have hx : String.utf8EncodeChar 'x' = [0x78] := by decide
    intro n
    simp [Utf8.size, Utf8.encode, List.flatMap_replicate, hx]
  have hlong : Utf8.size long = 65536 := hsize 65536
  have hkept : (fields.map (·.2)).filter (Utf8.size · ≤ maxFieldSize) = ["né", ""] := by
    have hfirst : Utf8.size "né" ≤ maxFieldSize := by decide
    have hthird : Utf8.size "" ≤ maxFieldSize := by decide
    have hsecond : ¬ Utf8.size long ≤ maxFieldSize := by
      rw [hlong]
      decide
    simp [fields, hfirst, hsecond, hthird]
  clear_value long
  obtain ⟨hbuffer, hanswers, hread⟩ := texts_read_back [1] fields
  rw [hkept] at hbuffer hread
  obtain ⟨-, hrefused⟩ := hanswers [("username", "né")] "email" long [("password", "")] rfl
  obtain ⟨hanswer, halone⟩ := hrefused (by rw [hlong]; decide)
  exact ⟨hbuffer, hlong ▸ hanswer, halone, (hread ["first", "second"] rfl).1⟩

end Field

end Corelink.Wire
