import Corelink.OnlineUsers
import Corelink.Proofs.Text.Order
import Mathlib.Data.Finset.Card
import Mathlib.Data.List.Sort

/-!
# Sets of names

A canonical list holds the names of the list it is made of and no others
(`OnlineUsers.mem_canonical`), ascending by their bytes (`OnlineUsers.ascending_canonical`). There
is only one such list, so the names alone decide what online users are
(`OnlineUsers.ofList_eq_iff`), and neither order nor repetition does.
-/

namespace Corelink.OnlineUsers

theorem mem_dropRepeats {u : String} (names : List String) :
    u ∈ dropRepeats names ↔ u ∈ names := by
  fun_induction dropRepeats names with
  | case1 => rfl
  | case2 s => rfl
  | case3 s rest ih =>
    rw [ih]
    simp
  | case4 s t rest hne ih => rw [List.mem_cons, List.mem_cons, ih]

theorem pairwise_lt_dropRepeats {names : List String} (h : names.Pairwise (· ≤ ·)) :
    (dropRepeats names).Pairwise (· < ·) := by
  fun_induction dropRepeats names with
  | case1 => exact .nil
  | case2 s => exact List.pairwise_singleton _ s
  | case3 s rest ih => exact ih h.of_cons
  | case4 s t rest hne ih =>
    have hst : s < t := lt_of_le_of_ne (List.rel_of_pairwise_cons h List.mem_cons_self) hne
    refine List.pairwise_cons.2 ⟨fun u hu => ?_, ih h.of_cons⟩
    rcases List.mem_cons.1 ((mem_dropRepeats _).1 hu) with rfl | hu
    · exact hst
    · exact lt_of_lt_of_le hst (List.rel_of_pairwise_cons h.of_cons hu)

theorem mem_canonical {u : String} {names : List String} : u ∈ canonical names ↔ u ∈ names := by
  rw [canonical, mem_dropRepeats, List.mem_mergeSort]

theorem pairwise_lt_canonical (names : List String) : (canonical names).Pairwise (· < ·) := by
  have hsorted := @List.pairwise_mergeSort _ (fun s t : String => decide (s ≤ t))
    (fun s t u hst htu => decide_eq_true (le_trans (of_decide_eq_true hst) (of_decide_eq_true htu)))
    (fun s t => by simpa using le_total s t) names
  exact pairwise_lt_dropRepeats (hsorted.imp of_decide_eq_true)

theorem ascending_canonical (names : List String) :
    (canonical names).Pairwise fun u v => Utf8.encode u < Utf8.encode v :=
  (pairwise_lt_canonical names).imp Utf8.encode_lt_iff.2

variable {xs ys names : List String}

/-- **The names alone make the canonical list.** -/
theorem canonical_eq_iff : canonical xs = canonical ys ↔ ∀ u, u ∈ xs ↔ u ∈ ys := by
  constructor
  · intro h u
    rw [← mem_canonical, h, mem_canonical]
  · intro h
    refine (pairwise_lt_canonical xs).eq_of_mem_iff (pairwise_lt_canonical ys) fun u => ?_
    rw [mem_canonical, mem_canonical, h]

theorem ofList_eq_iff : ofList xs = ofList ys ↔ ∀ u, u ∈ xs ↔ u ∈ ys := by
  rw [← canonical_eq_iff]
  constructor
  · exact congrArg usernames
  · intro h
    rw [ofList, ofList, h]

theorem canonical_eq_self_iff :
    canonical names = names ↔ names.Pairwise fun u v => Utf8.encode u < Utf8.encode v := by
  constructor
  · intro h
    rw [← h]
    exact ascending_canonical names
  · intro h
    exact (pairwise_lt_canonical names).eq_of_mem_iff (h.imp Utf8.encode_lt_iff.1)
      fun _ => mem_canonical

theorem length_canonical (names : List String) :
    (canonical names).length = names.toFinset.card := by
  have hsame : (canonical names).toFinset = names.toFinset := by
    ext u
    rw [List.mem_toFinset, List.mem_toFinset, mem_canonical]
  have hnodup : (canonical names).Nodup := (pairwise_lt_canonical names).imp ne_of_lt
  rw [← hsame, List.toFinset_card_of_nodup hnodup]

/-- **Online users are a set of names in canonical form**: ascending by bytes, each name of the list
once, as many as are counted. Which list the set was given by is no matter, and a set may be put
together from others. -/
theorem set_in_canonical_form (names : List String) :
    (ofList names).usernames.Pairwise (fun u v => Utf8.encode u < Utf8.encode v) ∧
    (∀ u, u ∈ (ofList names).usernames ↔ u ∈ names) ∧
    (ofList names).count = (ofList names).usernames.length ∧
    (ofList names).count = names.toFinset.card ∧
    (∀ others, ofList names = ofList others ↔ ∀ u, u ∈ names ↔ u ∈ others) ∧
    ofList (ofList names).usernames = ofList names ∧
    ((ofList names).usernames = names ↔
      names.Pairwise fun u v => Utf8.encode u < Utf8.encode v) ∧
    ∀ others,
      ofList (names ++ others) = ofList ((ofList names).usernames ++ (ofList others).usernames) ∧
      ofList (names ++ others) =
        ofList ((ofList others).usernames ++ (ofList names).usernames) := by
  have hmem : ∀ (xs : List String) u, u ∈ (ofList xs).usernames ↔ u ∈ xs := fun _ _ => mem_canonical
  refine ⟨ascending_canonical names, hmem names, rfl, length_canonical names,
    fun others => ofList_eq_iff, ofList_eq_iff.2 (hmem names), canonical_eq_self_iff,
    fun others => ⟨?_, ?_⟩⟩
  · refine ofList_eq_iff.2 fun u => ?_
    rw [List.mem_append, List.mem_append, hmem, hmem]
  · refine ofList_eq_iff.2 fun u => ?_
    rw [List.mem_append, List.mem_append, hmem, hmem, or_comm]

end Corelink.OnlineUsers
