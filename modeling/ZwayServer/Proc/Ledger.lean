import Mathlib

/-!
# Ledgers

A ledger has entries under numbers.  What is filed comes last and gets the next number;
what is struck is gone, and its number is not given out again.  So a ledger never says more
than its history does: what stands in it is what was ever filed, in the order in which it was
filed, without what was struck.

* `Book`, `Deed`, `Book.after` — a ledger, what is done to it, and what a list of deeds makes of it.
* `filed`, `struck` — what a history has filed and struck.
* `Lawful` — only what stands is struck.
* `entries_after` — the entries after a history.
* `Lawful.nodup_struck` — nothing is struck twice.
-/

namespace Ledger

variable {ι : Type}

/-! ## Books and deeds -/

/-- A ledger: the entries that stand, each under its number, and the next number. -/
structure Book (ι : Type) where
  entries : List (ℕ × ι) := []
  issued : ℕ := 0

/-- What can be done to it. -/
inductive Deed (ι : Type) where
  /-- An entry is filed under the next number. -/
  | file (i : ι)
  /-- The entry under a number is struck. -/
  | strike (n : ℕ)

namespace Book

variable (b : Book ι)

/-- The ledger after a deed. -/
def perform : Deed ι → Book ι
  | .file i => { entries := b.entries ++ [(b.issued, i)], issued := b.issued + 1 }
  | .strike n => { b with entries := b.entries.filter (·.1 ≠ n) }

/-- The ledger after some deeds, the earliest first. -/
def after (ds : List (Deed ι)) : Book ι := ds.foldl perform b

@[simp] theorem after_nil : b.after [] = b := rfl

@[simp] theorem after_cons (d : Deed ι) (ds : List (Deed ι)) :
    b.after (d :: ds) = (b.perform d).after ds := rfl

@[simp] theorem after_append (ds ds' : List (Deed ι)) :
    b.after (ds ++ ds') = (b.after ds).after ds' :=
  List.foldl_append

end Book

/-! ## Histories -/

/-- What has been filed, in order. -/
def filed : List (Deed ι) → List ι
  | [] => []
  | .file i :: ds => i :: filed ds
  | .strike _ :: ds => filed ds

/-- The numbers that have been struck, in order. -/
def struck : List (Deed ι) → List ℕ
  | [] => []
  | .file _ :: ds => struck ds
  | .strike n :: ds => n :: struck ds

/-- Entries that are filed one after the other, from the number `n` on. -/
def numbered (n : ℕ) : List ι → List (ℕ × ι)
  | [] => []
  | i :: is => (n, i) :: numbered (n + 1) is

section

variable {ds ds' : List (Deed ι)}

@[simp] theorem filed_append : filed (ds ++ ds') = filed ds ++ filed ds' := by
  induction ds with
  | nil => rfl
  | cons d ds ih => cases d <;> simp [filed, ih]

@[simp] theorem struck_append : struck (ds ++ ds') = struck ds ++ struck ds' := by
  induction ds with
  | nil => rfl
  | cons d ds ih => cases d <;> simp [struck, ih]

@[simp] theorem filed_map_file (is : List ι) : filed (is.map Deed.file) = is := by
  induction is with
  | nil => rfl
  | cons i is ih => simp [filed, ih]

@[simp] theorem struck_map_file (is : List ι) : struck (is.map Deed.file) = [] := by
  induction is with
  | nil => rfl
  | cons i is ih => simp [struck, ih]

/-- The numbers start at `n`. -/
theorem le_of_mem_numbered {n : ℕ} {is : List ι} {x : ℕ × ι} (hx : x ∈ numbered n is) :
    n ≤ x.1 ∧ x.1 < n + is.length := by
  induction is generalizing n with
  | nil => cases hx
  | cons i is ih =>
    rw [List.length_cons]
    rcases List.mem_cons.mp hx with rfl | hx
    · exact ⟨le_refl _, by show n < _; omega⟩
    · have hrest := ih hx
      omega

end

/-- Filing alone. -/
theorem after_map_file (b : Book ι) (is : List ι) : b.after (is.map Deed.file) =
    { entries := b.entries ++ numbered b.issued is, issued := b.issued + is.length } := by
  induction is generalizing b with
  | nil => simp [numbered]
  | cons i is ih =>
    rw [List.map_cons, Book.after_cons, ih]
    simp [Book.perform, numbered, Nat.add_assoc, Nat.add_comm 1]

/-! ## Lawful histories -/

/-- Only entries that stand are struck. -/
def Lawful : Book ι → List (Deed ι) → Prop
  | _, [] => True
  | b, .file i :: ds => Lawful (b.perform (.file i)) ds
  | b, .strike n :: ds => n ∈ b.entries.map Prod.fst ∧ Lawful (b.perform (.strike n)) ds

/-- A well-kept ledger: the numbers grow, and none is larger than those given out. -/
structure Kept (b : Book ι) : Prop where
  pairwise : b.entries.Pairwise fun x y => x.1 < y.1
  issued : ∀ x ∈ b.entries, x.1 < b.issued

section

variable {b : Book ι} {ds ds' : List (Deed ι)}

@[simp] theorem lawful_nil : Lawful b [] := trivial

theorem lawful_append : Lawful b (ds ++ ds') ↔ Lawful b ds ∧ Lawful (b.after ds) ds' := by
  induction ds generalizing b with
  | nil => simp
  | cons d ds ih =>
    cases d with
    | file i => exact ih
    | strike n =>
      show _ ∧ Lawful _ (ds ++ ds') ↔ (_ ∧ Lawful _ ds) ∧ _
      rw [ih, and_assoc]
      rfl

theorem lawful_map_file (is : List ι) : Lawful b (is.map Deed.file) := by
  induction is generalizing b with
  | nil => exact trivial
  | cons i is ih => exact ih

theorem issued_after : (b.after ds).issued = b.issued + (filed ds).length := by
  induction ds generalizing b with
  | nil => rfl
  | cons d ds ih =>
    rw [Book.after_cons, ih]
    cases d with
    | file i =>
      show b.issued + 1 + _ = b.issued + ((filed ds).length + 1)
      omega
    | strike n => rfl

namespace Kept

theorem init : Kept ({} : Book ι) := ⟨.nil, fun x hx => by cases hx⟩

theorem perform (h : Kept b) (d : Deed ι) : Kept (b.perform d) := by
  cases d with
  | file i =>
    refine ⟨List.pairwise_append.mpr ⟨h.pairwise, List.pairwise_singleton .., ?_⟩, fun x hx => ?_⟩
    · intro x hx y hy
      rw [List.mem_singleton.mp hy]
      exact h.issued x hx
    · show x.1 < b.issued + 1
      rcases List.mem_append.mp hx with hx | hx
      · have hlt := h.issued x hx
        omega
      · rw [List.mem_singleton.mp hx]
        exact Nat.lt_succ_self _
  | strike n =>
    exact ⟨h.pairwise.filter _, fun x hx => h.issued x (List.mem_filter.mp hx).1⟩

theorem after (h : Kept b) (ds : List (Deed ι)) : Kept (b.after ds) := by
  induction ds generalizing b with
  | nil => exact h
  | cons d ds ih => exact ih (h.perform d)

end Kept

/-- **The entries after a history.**  What stood at the start and what was filed since stands,
in this order, unless it was struck. -/
theorem entries_after (hk : Kept b) (h : Lawful b ds) : (b.after ds).entries =
    (b.entries ++ numbered b.issued (filed ds)).filter fun x => decide (x.1 ∉ struck ds) := by
  induction ds generalizing b with
  | nil => simp [filed, struck, numbered]
  | cons d ds ih =>
    cases d with
    | file i =>
      rw [Book.after_cons, ih (hk.perform _) h]
      show (b.entries ++ [(b.issued, i)] ++ numbered (b.issued + 1) (filed ds)).filter _ =
        (b.entries ++ numbered b.issued (i :: filed ds)).filter _
      rw [List.append_assoc]
      rfl
    | strike n =>
      rw [Book.after_cons, ih (hk.perform _) h.2]
      -- what is filed later has another number than what is struck now
      have hlater : ∀ x ∈ numbered b.issued (filed ds), x.1 ≠ n := by
        intro x hx
        obtain ⟨y, hy, rfl⟩ := List.mem_map.mp h.1
        have hlt := hk.issued y hy
        have hge := (le_of_mem_numbered hx).1
        omega
      have hall : (numbered b.issued (filed ds)).filter (·.1 ≠ n) = numbered b.issued (filed ds) :=
        List.filter_eq_self.mpr fun x hx => by simpa using hlater x hx
      show (b.entries.filter (·.1 ≠ n) ++ numbered b.issued (filed ds)).filter _ =
        (b.entries ++ numbered b.issued (filed ds)).filter _
      rw [← hall, ← List.filter_append, List.filter_filter, hall]
      refine List.filter_congr fun x _ => ?_
      by_cases hx : x.1 = n <;> simp [struck, hx]

/-- An entry stands after a history exactly if it stood before, or was filed under its number,
and was not struck. -/
theorem mem_after (hk : Kept b) (h : Lawful b ds) {x : ℕ × ι} : x ∈ (b.after ds).entries ↔
    (x ∈ b.entries ∨ x ∈ numbered b.issued (filed ds)) ∧ x.1 ∉ struck ds := by
  rw [entries_after hk h, List.mem_filter, List.mem_append]
  simp

/-- What has been struck does not come back. -/
theorem Lawful.notMem_struck (hk : Kept b) (h : Lawful b ds) {n : ℕ} (hn : n < b.issued)
    (hgone : n ∉ b.entries.map Prod.fst) : n ∉ struck ds := by
  induction ds generalizing b with
  | nil => exact List.not_mem_nil
  | cons d ds ih =>
    cases d with
    | file i =>
      refine ih (hk.perform _) h (Nat.lt_succ_of_lt hn) fun hmem => hgone ?_
      have hmem' : n ∈ (b.entries ++ [(b.issued, i)]).map Prod.fst := hmem
      rw [List.map_append, List.mem_append] at hmem'
      refine hmem'.resolve_right fun he => ?_
      have heq : n = b.issued := by simpa using he
      omega
    | strike m =>
      intro hmem
      rcases List.mem_cons.mp hmem with rfl | hmem
      · exact hgone h.1
      · refine ih (hk.perform _) h.2 hn (fun hin => hgone ?_) hmem
        obtain ⟨x, hx, rfl⟩ := List.mem_map.mp hin
        exact List.mem_map.mpr ⟨x, (List.mem_filter.mp hx).1, rfl⟩

/-- **Nothing is struck twice.** -/
theorem Lawful.nodup_struck (hk : Kept b) (h : Lawful b ds) : (struck ds).Nodup := by
  induction ds generalizing b with
  | nil => exact .nil
  | cons d ds ih =>
    cases d with
    | file i => exact ih (hk.perform _) h
    | strike n =>
      refine List.nodup_cons.mpr ⟨h.2.notMem_struck (hk.perform _) ?_ ?_, ih (hk.perform _) h.2⟩
      · obtain ⟨x, hx, rfl⟩ := List.mem_map.mp h.1
        exact hk.issued x hx
      · intro hin
        obtain ⟨x, hx, rfl⟩ := List.mem_map.mp hin
        simpa using (List.mem_filter.mp hx).2

end

end Ledger
