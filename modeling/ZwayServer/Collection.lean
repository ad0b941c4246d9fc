import Mathlib

/-!
# Collections with unique keys

A collection is a list of documents in the order in which they were inserted; a key
tells its documents apart.  Removing "just one" document removes the first that matches
a query, which is the same as filtering out the key of that document.

* `eraseP_eq_self_iff` — nothing is removed exactly if nothing matches.
* `eraseP_eq_filter_key` — what is removed is the first match and nothing else.
* `eraseP_eq_filter_key_iff` — a given document is what is removed exactly if it is the
  first match.
-/

namespace Collection

variable {α κ : Type} {key : α → κ} {p : α → Bool} {l : List α} {a b : α}

/-- Documents with the same key are the same document. -/
theorem eq_of_key (h : (l.map key).Nodup) (ha : a ∈ l) (hb : b ∈ l) (hkey : key a = key b) :
    a = b :=
  List.inj_on_of_nodup_map h ha hb hkey

theorem eraseP_eq_self_iff : l.eraseP p = l ↔ ∀ a ∈ l, p a = false := by
  constructor
  · intro h a ha
    by_contra hpa
    have hlen := List.length_eraseP_of_mem ha (by simpa using hpa)
    have hpos := List.length_pos_of_mem ha
    rw [h] at hlen
    omega
  · intro h
    exact List.eraseP_of_forall_not fun a ha => by simp [h a ha]

/-- A match among the first documents is removed from among them. -/
theorem eraseP_append_of_find? {l' : List α} (hfind : l.find? p = some a) :
    (l ++ l').eraseP p = l.eraseP p ++ l' :=
  List.eraseP_append_left (List.find?_some hfind) l' (List.mem_of_find?_eq_some hfind)

/-- The first match of a query is the first match of any narrower one that it satisfies. -/
theorem find?_of_imp {q : α → Bool} (hfind : l.find? p = some a) (ha : q a = true)
    (himp : ∀ b, q b = true → p b = true) : l.find? q = some a := by
  obtain ⟨_, before, behind, rfl, hbefore⟩ := List.find?_eq_some_iff_append.mp hfind
  refine List.find?_eq_some_iff_append.mpr ⟨ha, before, behind, rfl, fun b hb => ?_⟩
  have hpb := hbefore b hb
  cases hqb : q b with
  | false => rfl
  | true => rw [himp b hqb] at hpb; cases hpb

variable [DecidableEq κ]

/-- Filtering out a key that no document has leaves the collection alone. -/
theorem filter_key_eq_self_iff {k : κ} : l.filter (key · ≠ k) = l ↔ ∀ a ∈ l, key a ≠ k := by
  simp [List.filter_eq_self]

/-- Removing the first match filters out its key. -/
theorem eraseP_eq_filter_key (h : (l.map key).Nodup) (hfind : l.find? p = some a) :
    l.eraseP p = l.filter (key · ≠ key a) := by
  obtain ⟨hpa, before, behind, rfl, hbefore⟩ := List.find?_eq_some_iff_append.mp hfind
  have hnd := List.nodup_append.mp (by simpa using h)
  have hcons := List.nodup_cons.mp hnd.2.1
  have herase : (before ++ a :: behind).eraseP p = before ++ behind := by
    rw [List.eraseP_append_right _ fun b hb => by simpa using hbefore b hb,
      List.eraseP_cons_of_pos hpa]
  have hleft : before.filter (key · ≠ key a) = before :=
    filter_key_eq_self_iff.mpr fun b hb hkey =>
      hnd.2.2 (key b) (List.mem_map_of_mem hb) (key a) (List.mem_cons_self ..) hkey
  have hright : behind.filter (key · ≠ key a) = behind :=
    filter_key_eq_self_iff.mpr fun b hb hkey => hcons.1 (hkey ▸ List.mem_map_of_mem hb)
  rw [herase, List.filter_append, hleft, List.filter_cons_of_neg (by simp), hright]

/-- The document `b` and no other is removed exactly if it is the first match. -/
theorem eraseP_eq_filter_key_iff (h : (l.map key).Nodup) (hb : b ∈ l) :
    l.eraseP p = l.filter (key · ≠ key b) ↔ l.find? p = some b := by
  constructor
  · intro heq
    cases hfind : l.find? p with
    | none =>
      have hself : l.eraseP p = l :=
        eraseP_eq_self_iff.mpr fun a ha => by simpa using List.find?_eq_none.mp hfind a ha
      rw [hself] at heq
      exact absurd rfl (filter_key_eq_self_iff.mp heq.symm b hb)
    | some a =>
      have ha := List.mem_of_find?_eq_some hfind
      rw [eraseP_eq_filter_key h hfind] at heq
      by_contra hne
      have hkey : key b ≠ key a := fun hkey => hne (by rw [eq_of_key h hb ha hkey])
      have hmem : b ∈ l.filter (key · ≠ key a) := List.mem_filter.mpr ⟨hb, by simpa using hkey⟩
      rw [heq] at hmem
      simp at hmem
  · exact fun hfind => eraseP_eq_filter_key h hfind

end Collection
