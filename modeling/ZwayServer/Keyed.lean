import Mathlib.Data.List.Basic
import Mathlib.Data.List.Nodup
import Std.Data.TreeMap.Lemmas

/-!
# Lists of keyed elements

Two things that are done with a list whose elements have keys: its elements are grouped by
their keys in a sorted map, and those whose keys have not been seen before are picked out.

* `IsGrouping` — what a grouping is: sorted by key, without empty groups, each group what the
  list has under its key.
* `isGrouping_foldl` — the map built by a fold over the list is one.
* `IsGrouping.perm` — a grouping has the elements of the list, each as often.
* `fresh` — the elements whose keys are new.
* `perm_fresh_iff` — these are all elements exactly if the keys are different.
-/

namespace Keyed

variable {κ α β γ : Type} [DecidableEq κ] {key : α → κ} {f : α → β}

/-! ## Groups -/

/-- What the list has under a key. -/
def ofKey (key : α → κ) (f : α → β) (k : κ) (xs : List α) : List β :=
  (xs.filter (key · = k)).map f

section

variable {k : κ} {x : α} {xs ys : List α}

@[simp] theorem ofKey_nil : ofKey key f k [] = [] := rfl

theorem ofKey_cons : ofKey key f k (x :: xs) =
    if key x = k then f x :: ofKey key f k xs else ofKey key f k xs := by
  by_cases h : key x = k <;> simp [ofKey, h]

theorem ofKey_ne_nil : ofKey key f k xs ≠ [] ↔ ∃ x ∈ xs, key x = k := by
  simp [ofKey]

end

/-- The groups of the list, by key. -/
structure IsGrouping [Ord κ] (key : α → κ) (f : α → β) (xs : List α) (gs : List (κ × List β)) :
    Prop where
  ordered : gs.Pairwise fun g g' => compare g.1 g'.1 = .lt
  nonempty : ∀ g ∈ gs, g.2 ≠ []
  elements : ∀ g ∈ gs, g.2 = ofKey key f g.1 xs
  complete : ∀ x ∈ xs, ∃ g ∈ gs, g.1 = key x

/-- Put an element into its group. -/
def insertGroup [Ord κ] (key : α → κ) (f : α → β) (m : Std.TreeMap κ (List β)) (x : α) :
    Std.TreeMap κ (List β) :=
  m.insert (key x) (m.getD (key x) [] ++ [f x])

section Fold

variable [Ord κ] [Std.TransOrd κ] [Std.LawfulEqOrd κ]

theorem getD_foldl_insertGroup (key : α → κ) (f : α → β) (xs : List α)
    (m : Std.TreeMap κ (List β)) (k : κ) :
    (xs.foldl (insertGroup key f) m).getD k [] = m.getD k [] ++ ofKey key f k xs := by
  induction xs generalizing m with
  | nil => simp
  | cons x xs ih =>
    rw [List.foldl_cons, ih, insertGroup, Std.TreeMap.getD_insert, ofKey_cons]
    by_cases h : key x = k
    · subst h
      simp
    · simp [h]

omit [DecidableEq κ] in
theorem mem_foldl_insertGroup (xs : List α) (m : Std.TreeMap κ (List β)) (k : κ) :
    k ∈ xs.foldl (insertGroup key f) m ↔ k ∈ m ∨ ∃ x ∈ xs, key x = k := by
  induction xs generalizing m with
  | nil => simp
  | cons x xs ih =>
    rw [List.foldl_cons, ih, insertGroup, Std.TreeMap.mem_insert, Std.LawfulEqOrd.compare_eq_iff_eq]
    simp only [List.mem_cons, exists_eq_or_imp]
    tauto

/-- **Grouping by a fold.** -/
theorem isGrouping_foldl (key : α → κ) (f : α → β) (xs : List α) :
    IsGrouping key f xs (xs.foldl (insertGroup key f) ∅).toList := by
  have hmem : ∀ g, g ∈ (xs.foldl (insertGroup key f) ∅).toList →
      g.2 = ofKey key f g.1 xs ∧ ∃ x ∈ xs, key x = g.1 := by
    intro g hg
    have hget := Std.TreeMap.mem_toList_iff_getElem?_eq_some.mp hg
    constructor
    · have hvalue := getD_foldl_insertGroup key f xs ∅ g.1
      rw [Std.TreeMap.getD_eq_getD_getElem?, hget] at hvalue
      simpa using hvalue
    · have hin : g.1 ∈ xs.foldl (insertGroup key f) ∅ := by
        rw [← Std.TreeMap.contains_iff_mem, Std.TreeMap.contains_eq_isSome_getElem?, hget]
        rfl
      simpa [mem_foldl_insertGroup] using hin
  refine ⟨Std.TreeMap.ordered_keys_toList, fun g hg => ?_, fun g hg => (hmem g hg).1,
    fun x hx => ?_⟩
  · rw [(hmem g hg).1, ofKey_ne_nil]
    exact (hmem g hg).2
  · have hin : key x ∈ xs.foldl (insertGroup key f) ∅ :=
      (mem_foldl_insertGroup xs ∅ (key x)).mpr (Or.inr ⟨x, hx, rfl⟩)
    refine ⟨(key x, (xs.foldl (insertGroup key f) ∅)[key x]), ?_, rfl⟩
    exact Std.TreeMap.mem_toList_iff_getElem?_eq_some.mpr (Std.TreeMap.getElem?_eq_some_getElem hin)

end Fold

/-- The elements under one key, and those under others. -/
theorem filter_mem_cons_perm {k : κ} {ks : List κ} (hk : k ∉ ks) (xs : List α) :
    (xs.filter (key · ∈ k :: ks)).Perm (xs.filter (key · = k) ++ xs.filter (key · ∈ ks)) := by
  induction xs with
  | nil => exact List.Perm.nil
  | cons x xs ih =>
    by_cases hx : key x = k
    · subst hx
      simpa [hk] using ih
    · by_cases hks : key x ∈ ks
      · simpa [hx, hks] using (ih.cons x).trans List.perm_middle.symm
      · simpa [hx, hks] using ih

/-- A grouping loses nothing and adds nothing. -/
theorem IsGrouping.perm [Ord κ] [Std.TransOrd κ] [Std.LawfulEqOrd κ] {xs : List α}
    {gs : List (κ × List β)} (h : IsGrouping key f xs gs) :
    (gs.flatMap fun g => g.2.map (Prod.mk g.1)).Perm (xs.map fun x => (key x, f x)) := by
  -- by induction on the groups: they have the elements whose keys are theirs
  have hpart : ∀ hs : List (κ × List β), (hs.map Prod.fst).Nodup →
      (∀ g ∈ hs, g.2 = ofKey key f g.1 xs) →
      (hs.flatMap fun g => g.2.map (Prod.mk g.1)).Perm
        ((xs.filter (key · ∈ hs.map Prod.fst)).map fun x => (key x, f x)) := by
    intro hs
    induction hs with
    | nil => simp
    | cons g hs ih =>
      intro hnodup helements
      obtain ⟨hg, hnodup⟩ := List.nodup_cons.mp hnodup
      have hgroup : g.2.map (Prod.mk g.1) =
          (xs.filter (key · = g.1)).map fun x => (key x, f x) := by
        rw [helements g (List.mem_cons_self ..), ofKey, List.map_map]
        refine List.map_congr_left fun x hx => ?_
        have hkey : key x = g.1 := by simpa using (List.mem_filter.mp hx).2
        simp [hkey]
      rw [List.flatMap_cons, hgroup, List.map_cons]
      refine ((ih hnodup fun g' hg' => helements g' (List.mem_cons_of_mem _ hg')).append_left
        _).trans ?_
      rw [← List.map_append]
      exact (filter_mem_cons_perm hg xs).symm.map _
  have hnodup : (gs.map Prod.fst).Nodup := by
    rw [List.Nodup, List.pairwise_map]
    refine h.ordered.imp fun hlt he => ?_
    rw [he, Std.ReflOrd.compare_self] at hlt
    cases hlt
  have hall : xs.filter (key · ∈ gs.map Prod.fst) = xs := by
    refine List.filter_eq_self.mpr fun x hx => ?_
    obtain ⟨g, hg, hkey⟩ := h.complete x hx
    exact decide_eq_true (List.mem_map.mpr ⟨g, hg, hkey⟩)
  have hperm := hpart gs hnodup h.elements
  rwa [hall] at hperm

/-! ## Fresh keys -/

/-- The elements whose keys have not been seen before. -/
def fresh (key : α → κ) : List κ → List α → List α
  | _, [] => []
  | seen, x :: xs =>
    if key x ∈ seen then fresh key seen xs else x :: fresh key (seen ++ [key x]) xs

section

variable {seen : List κ} {xs : List α}

theorem fresh_sublist : (fresh key seen xs).Sublist xs := by
  induction xs generalizing seen with
  | nil => exact List.Sublist.slnil
  | cons x xs ih =>
    rw [fresh]
    split
    · exact ih.cons x
    · exact ih.cons_cons x

/-- With the keys of the fresh elements, those of all elements have been seen. -/
theorem mem_seen_fresh {x : α} (hx : x ∈ xs) :
    key x ∈ seen ++ (fresh key seen xs).map key := by
  induction xs generalizing seen with
  | nil => exact absurd hx List.not_mem_nil
  | cons y ys ih =>
    rw [fresh]
    split
    · next hseen =>
      rcases List.mem_cons.mp hx with rfl | hx
      · exact List.mem_append_left _ hseen
      · exact ih hx
    · rcases List.mem_cons.mp hx with rfl | hx
      · simp
      · have hrest : key x ∈ (seen ++ [key y]) ++ (fresh key (seen ++ [key y]) ys).map key := ih hx
        simpa using hrest

/-- The keys of the fresh elements are different, and new. -/
theorem nodup_fresh (key : α → κ) (xs : List α) (h : seen.Nodup) :
    (seen ++ (fresh key seen xs).map key).Nodup := by
  induction xs generalizing seen with
  | nil => simpa [fresh] using h
  | cons x xs ih =>
    rw [fresh]
    split
    · exact ih h
    · next hnew =>
      have hsnoc : (seen ++ [key x]).Nodup := List.nodup_append_comm.mp (by simpa using ⟨hnew, h⟩)
      simpa using ih hsnoc

/-- The fresh ones among the elements with certain keys. -/
theorem filter_fresh (key : α → κ) {p : α → Bool} (q : κ → Bool) (hp : ∀ x, p x = q (key x))
    {seen' : List κ} (hseen : ∀ k, q k = true → (k ∈ seen ↔ k ∈ seen')) :
    (fresh key seen xs).filter p = fresh key seen' (xs.filter p) := by
  induction xs generalizing seen seen' with
  | nil => rfl
  | cons x xs ih =>
    by_cases hx : p x = true
    · rw [List.filter_cons_of_pos hx, fresh, fresh]
      have hiff := hseen (key x) (hp x ▸ hx)
      by_cases hmem : key x ∈ seen
      · rw [if_pos hmem, if_pos (hiff.mp hmem)]
        exact ih hseen
      · rw [if_neg hmem, if_neg fun h => hmem (hiff.mpr h), List.filter_cons_of_pos hx]
        refine congrArg (x :: ·) (ih fun k hk => ?_)
        simp [hseen k hk]
    · rw [List.filter_cons_of_neg hx, fresh]
      split
      · exact ih hseen
      · rw [List.filter_cons_of_neg hx]
        refine ih fun k hk => ?_
        have hne : k ≠ key x := by
          rintro rfl
          exact hx ((hp x).trans hk)
        simp [hseen k hk, hne]

/-- Elements with different keys are all fresh. -/
theorem fresh_eq_self (h : (seen ++ xs.map key).Nodup) : fresh key seen xs = xs := by
  induction xs generalizing seen with
  | nil => rfl
  | cons x xs ih =>
    have hsnoc : ((seen ++ [key x]) ++ xs.map key).Nodup := by simpa using h
    have hnew : key x ∉ seen := by
      have := (List.nodup_append.mp h).2.2
      intro hmem
      exact this (key x) hmem (key x) (List.mem_cons_self ..) rfl
    rw [fresh, if_neg hnew, ih hsnoc]

/-- **All are fresh.**  Picking out the fresh elements keeps them all exactly if their keys are
different. -/
theorem perm_fresh_iff {g : α → γ} :
    ((fresh key [] xs).map g).Perm (xs.map g) ↔ (xs.map key).Nodup := by
  constructor
  · intro h
    have hlen : (fresh key [] xs).length = xs.length := by simpa using h.length_eq
    have hall : fresh key [] xs = xs := fresh_sublist.eq_of_length hlen
    have hnodup := nodup_fresh key xs List.nodup_nil
    rwa [hall, List.nil_append] at hnodup
  · intro h
    rw [fresh_eq_self (by simpa using h)]

end

end Keyed
