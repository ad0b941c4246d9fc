import ZwayServer.Proc.Logic

/-!
# Mutexes taken in order

Threads that take and give back mutexes, any number of each.  A thread is the program that
it still has to perform; of an operation only its effect on the mutexes counts, and its
answer is left to the outside world, so that one program stands for all its executions.

* `Config`, `MoveOf`, `Step`, `Reachable` — who holds which mutex, and what can happen.
* `Ordered` — from the mutexes in its hand, a program takes only mutexes of a higher rank
  than those, gives back only what it holds, and returns with what it had.
* `Ordered.locked` — a section under a mutex, the rule by which programs are checked.
* `progress` — where all threads are ordered, nobody is stuck: a thread that cannot move
  waits, along a chain of holders, for a thread that can.
* `Shape` — code of which only the sections and their nesting is kept, with a condition on
  its text (`Shape.Ordered`) under which its program is ordered (`Shape.ordered_prog`).
-/

namespace Locks

variable {Op M : Type} {Res : Op → Type} {α β : Type}

/-- What an operation does to the mutexes. -/
inductive Effect (M : Type) where
  | acquire (m : M)
  | release (m : M)
  | none

/-! ## Threads -/

/-- The programs of the threads, and for each mutex the thread that holds it. -/
structure Config (Op M : Type) (Res : Op → Type) where
  threads : List (Proc Op Res Unit) := []
  holder : M → Option ℕ := fun _ => none

variable (eff : Op → Effect M)

section Semantics

variable [DecidableEq M]

/-- The thread in place `i` performs its next operation.  A mutex that is held cannot be
taken, not even by its holder, and only its holder can give it back. -/
inductive MoveOf (i : ℕ) (C : Config Op M Res) : Config Op M Res → Prop
  | acquire {o : Op} {k : Res o → Proc Op Res Unit} {m : M} (r : Res o)
      (hi : C.threads[i]? = some (.op o k)) (ho : eff o = .acquire m)
      (hfree : C.holder m = none) :
      MoveOf i C ⟨C.threads.set i (k r), Function.update C.holder m (some i)⟩
  | release {o : Op} {k : Res o → Proc Op Res Unit} {m : M} (r : Res o)
      (hi : C.threads[i]? = some (.op o k)) (ho : eff o = .release m)
      (hheld : C.holder m = some i) :
      MoveOf i C ⟨C.threads.set i (k r), Function.update C.holder m none⟩
  | other {o : Op} {k : Res o → Proc Op Res Unit} (r : Res o)
      (hi : C.threads[i]? = some (.op o k)) (ho : eff o = .none) :
      MoveOf i C ⟨C.threads.set i (k r), C.holder⟩

/-- A thread begins, or one of them moves. -/
inductive Step (Entry : Proc Op Res Unit → Prop) (C : Config Op M Res) : Config Op M Res → Prop
  | begin {p : Proc Op Res Unit} (h : Entry p) : Step Entry C { C with threads := C.threads ++ [p] }
  | move {i : ℕ} {C' : Config Op M Res} (h : MoveOf eff i C C') : Step Entry C C'

/-- What can come about, when threads begin only with programs of `Entry`. -/
inductive Reachable (Entry : Proc Op Res Unit → Prop) : Config Op M Res → Prop
  | start : Reachable Entry {}
  | step {C C' : Config Op M Res} (h : Reachable Entry C) (hs : Step eff Entry C C') :
      Reachable Entry C'

/-- The thread in place `i` can perform its next operation. -/
def CanMove (C : Config Op M Res) (i : ℕ) : Prop := ∃ C', MoveOf eff i C C'

end Semantics

/-- The thread in place `i` has not returned. -/
def Unfinished (C : Config Op M Res) (i : ℕ) : Prop :=
  ∃ o k, C.threads[i]? = some (.op o k)

/-- The thread in place `i` wants a mutex that the thread in place `j` holds. -/
def WaitsFor (C : Config Op M Res) (i j : ℕ) : Prop :=
  ∃ o k m, C.threads[i]? = some (.op o k) ∧ eff o = .acquire m ∧ C.holder m = some j

/-! ## The discipline -/

section Discipline

variable [DecidableEq M] (rank : M → ℕ)

/-- The mutexes in the hand of a thread after an operation, if it may perform it. -/
def order (o : Op) (held : Finset M) : Option (Finset M) :=
  match eff o with
  | .acquire m => if ∀ h ∈ held, rank h < rank m then some (insert m held) else none
  | .release m => if m ∈ held then some (held.erase m) else none
  | .none => some held

/-- With only mutexes of a rank below `n` in its hand, the program keeps the order and
returns with the same mutexes. -/
def Ordered (n : ℕ) (p : Proc Op Res α) : Prop :=
  ∀ held : Finset M, (∀ h ∈ held, rank h < n) →
    Proc.Follows (order eff rank) p held fun _ held' => held' = held

namespace Ordered

variable {eff rank} {n : ℕ}

theorem pure (a : α) : Ordered eff rank n (Pure.pure a : Proc Op Res α) := by
  intro held _
  exact rfl

/-- An operation that has nothing to do with mutexes. -/
theorem perform {o : Op} (ho : eff o = .none) :
    Ordered eff rank n (Proc.perform o : Proc Op Res (Res o)) := by
  intro held _
  rw [Proc.follows_perform]
  exact ⟨held, by rw [order, ho], fun _ => rfl⟩

/-- One part after the other. -/
theorem bind {p : Proc Op Res α} {f : α → Proc Op Res β} (hp : Ordered eff rank n p)
    (hf : ∀ a, Ordered eff rank n (f a)) : Ordered eff rank n (p >>= f) := by
  intro held hheld
  rw [Proc.follows_bind]
  refine Proc.Follows.weaken (hp held hheld) ?_
  rintro a _ rfl
  exact hf a _ hheld

theorem ite {c : Prop} [Decidable c] {p q : Proc Op Res α} (hp : Ordered eff rank n p)
    (hq : Ordered eff rank n q) : Ordered eff rank n (if c then p else q) := by
  split
  · exact hp
  · exact hq

/-- A loop whose rounds are ordered. -/
theorem forM {xs : List β} {f : β → Proc Op Res PUnit} (h : ∀ x, Ordered eff rank n (f x)) :
    Ordered eff rank n (ForM.forM xs f) := by
  induction xs with
  | nil => exact pure _
  | cons x xs ih =>
    rw [List.forM_cons]
    exact (h x).bind fun _ => ih

/-- **A section under a mutex.**  Take `m`, do something that takes higher mutexes only, and
give `m` back. -/
theorem locked {m : M} {a r : Op} {p : Proc Op Res α} (ha : eff a = .acquire m)
    (hr : eff r = .release m) (hn : n ≤ rank m) (hp : Ordered eff rank (rank m + 1) p) :
    Ordered eff rank n (do
      let _ ← Proc.perform a
      let x ← p
      let _ ← Proc.perform r
      return x) := by
  intro held hheld
  have hbelow : ∀ h ∈ held, rank h < rank m := fun h hh => lt_of_lt_of_le (hheld h hh) hn
  have hnew : m ∉ held := fun hm => lt_irrefl _ (hbelow m hm)
  have hinner : ∀ h ∈ insert m held, rank h < rank m + 1 := by
    intro h hh
    rcases Finset.mem_insert.mp hh with rfl | hh
    · omega
    · have := hbelow h hh
      omega
  rw [Proc.follows_bind, Proc.follows_perform]
  refine ⟨insert m held, by rw [order, ha]; exact if_pos hbelow, fun _ => ?_⟩
  rw [Proc.follows_bind]
  refine Proc.Follows.weaken (hp _ hinner) ?_
  rintro x _ rfl
  rw [Proc.follows_bind, Proc.follows_perform]
  refine ⟨held, ?_, fun _ => rfl⟩
  rw [order, hr]
  show (if m ∈ insert m held then some ((insert m held).erase m) else none) = some held
  rw [if_pos (Finset.mem_insert_self m held), Finset.erase_insert hnew]

end Ordered

/-! ## The invariant -/

/-- Every thread keeps the order from the mutexes that it holds. -/
structure Disciplined (C : Config Op M Res) (held : ℕ → Finset M) : Prop where
  follows : ∀ i p, C.threads[i]? = some p →
    Proc.Follows (order eff rank) p (held i) fun _ held' => held' = ∅
  holder : ∀ m i, C.holder m = some i ↔ m ∈ held i
  exists_of_mem : ∀ m i, m ∈ held i → i < C.threads.length

variable {eff rank} {C C' : Config Op M Res} {held : ℕ → Finset M}

theorem disciplined_start : Disciplined eff rank ({} : Config Op M Res) fun _ => ∅ where
  follows i p hi := by simp at hi
  holder m i := by simp
  exists_of_mem m i hm := absurd hm (Finset.notMem_empty m)

theorem Disciplined.begin (h : Disciplined eff rank C held) {p : Proc Op Res Unit}
    (hp : Ordered eff rank 0 p) :
    Disciplined eff rank { C with threads := C.threads ++ [p] } held where
  follows i q hi := by
    rw [List.getElem?_append] at hi
    split at hi
    · exact h.follows i q hi
    · next hlt =>
      have hnone : held i = ∅ :=
        Finset.eq_empty_of_forall_notMem fun m hm => hlt (h.exists_of_mem m i hm)
      obtain rfl : p = q := by
        rw [List.getElem?_singleton] at hi
        split at hi
        · exact Option.some.inj hi
        · cases hi
      rw [hnone]
      exact hp ∅ fun m hm => absurd hm (Finset.notMem_empty m)
  holder := h.holder
  exists_of_mem m i hm := by
    have := h.exists_of_mem m i hm
    simp only [List.length_append, List.length_singleton]
    omega

/-- After a move of thread `i` its hand is what the order says, and the other hands are as
they were. -/
theorem Disciplined.moved (h : Disciplined eff rank C held) {i : ℕ} {o : Op}
    {k : Res o → Proc Op Res Unit} (r : Res o) {hand : Finset M} {holder' : M → Option ℕ}
    (hi : C.threads[i]? = some (.op o k)) (hhand : order eff rank o (held i) = some hand)
    (hholder : ∀ m j, holder' m = some j ↔ m ∈ Function.update held i hand j) :
    Disciplined eff rank ⟨C.threads.set i (k r), holder'⟩ (Function.update held i hand) where
  follows j q hj := by
    rw [List.getElem?_set] at hj
    by_cases hij : i = j
    · subst hij
      have hlt : i < C.threads.length := (List.getElem?_eq_some_iff.mp hi).1
      rw [if_pos rfl, if_pos hlt] at hj
      obtain rfl := Option.some.inj hj
      rw [Function.update_self]
      obtain ⟨hand', hhand', hrest⟩ := Proc.follows_op.mp (h.follows i _ hi)
      obtain rfl : hand = hand' := Option.some.inj (hhand.symm.trans hhand')
      exact hrest r
    · rw [if_neg hij] at hj
      rw [Function.update_of_ne (Ne.symm hij)]
      exact h.follows j q hj
  holder := hholder
  exists_of_mem m j hm := by
    rw [List.length_set]
    by_cases hij : j = i
    · subst hij
      exact (List.getElem?_eq_some_iff.mp hi).1
    · rw [Function.update_of_ne hij] at hm
      exact h.exists_of_mem m j hm

/-- One move keeps the discipline. -/
theorem Disciplined.move (h : Disciplined eff rank C held) {i : ℕ} (hm : MoveOf eff i C C') :
    ∃ held', Disciplined eff rank C' held' := by
  cases hm with
  | @acquire o k m r hi ho hfree =>
    obtain ⟨hand, hhand, -⟩ := Proc.follows_op.mp (h.follows i _ hi)
    refine ⟨_, h.moved r hi hhand fun m' j => ?_⟩
    obtain rfl : insert m (held i) = hand := by
      rw [order, ho] at hhand
      simp only at hhand
      split at hhand
      · exact Option.some.inj hhand
      · cases hhand
    have hothers : ∀ j, m ∉ held j := fun j hj => by
      rw [← h.holder, hfree] at hj
      cases hj
    by_cases hm' : m' = m
    · subst hm'
      by_cases hj : j = i
      · subst hj
        simp
      · simp [hj, hothers, Ne.symm hj]
    · rw [Function.update_of_ne hm', h.holder]
      by_cases hj : j = i
      · subst hj
        simp [hm']
      · simp [hj]
  | @release o k m r hi ho hheld =>
    obtain ⟨hand, hhand, -⟩ := Proc.follows_op.mp (h.follows i _ hi)
    refine ⟨_, h.moved r hi hhand fun m' j => ?_⟩
    obtain rfl : (held i).erase m = hand := by
      rw [order, ho] at hhand
      simp only at hhand
      split at hhand
      · exact Option.some.inj hhand
      · cases hhand
    by_cases hm' : m' = m
    · subst hm'
      by_cases hj : j = i
      · subst hj
        simp
      · have hother : m' ∉ held j := fun hmem => by
          rw [← h.holder, hheld] at hmem
          exact hj (Option.some.inj hmem).symm
        simp [hj, hother]
    · rw [Function.update_of_ne hm', h.holder]
      by_cases hj : j = i
      · subst hj
        simp [hm']
      · simp [hj]
  | @other o k r hi ho =>
    have hhand : order eff rank o (held i) = some (held i) := by rw [order, ho]
    refine ⟨_, h.moved r hi hhand fun m' j => ?_⟩
    rw [Function.update_eq_self]
    exact h.holder m' j

/-- Whatever begins in order stays in order. -/
theorem disciplined_of_reachable {Entry : Proc Op Res Unit → Prop}
    (hentry : ∀ p, Entry p → Ordered eff rank 0 p) (h : Reachable eff Entry C) :
    ∃ held, Disciplined eff rank C held := by
  induction h with
  | start => exact ⟨_, disciplined_start⟩
  | step _ hs ih =>
    obtain ⟨held, hheld⟩ := ih
    cases hs with
    | begin hp => exact ⟨held, hheld.begin (hentry _ hp)⟩
    | move hm => exact hheld.move hm

/-! ## Nobody is stuck -/

/-- A thread that has not returned can move, or wants a mutex that is held and has a higher
rank than all it holds itself. -/
theorem Disciplined.canMove_or (h : Disciplined eff rank C held) [∀ o, Nonempty (Res o)] {i : ℕ}
    (hi : Unfinished C i) : CanMove eff C i ∨ ∃ o k m j, C.threads[i]? = some (.op o k) ∧
      eff o = .acquire m ∧ C.holder m = some j ∧ ∀ m' ∈ held i, rank m' < rank m := by
  obtain ⟨o, k, hi⟩ := hi
  obtain ⟨hand, hhand, -⟩ := Proc.follows_op.mp (h.follows i _ hi)
  obtain ⟨r⟩ := ‹∀ o, Nonempty (Res o)› o
  cases ho : eff o with
  | none => exact Or.inl ⟨_, .other r hi ho⟩
  | release m =>
    -- the order lets a thread give back only what it holds
    have hmem : m ∈ held i := by
      rw [order, ho] at hhand
      simp only at hhand
      split at hhand
      · assumption
      · cases hhand
    exact Or.inl ⟨_, .release r hi ho ((h.holder m i).mpr hmem)⟩
  | acquire m =>
    cases hfree : C.holder m with
    | none => exact Or.inl ⟨_, .acquire r hi ho hfree⟩
    | some j =>
      refine Or.inr ⟨o, k, m, j, hi, ho, hfree, ?_⟩
      rw [order, ho] at hhand
      simp only at hhand
      split at hhand
      · assumption
      · cases hhand

/-- Who holds a mutex has not returned. -/
theorem Disciplined.unfinished (h : Disciplined eff rank C held) {m : M} {j : ℕ}
    (hm : C.holder m = some j) : Unfinished C j := by
  have hmem : m ∈ held j := (h.holder m j).mp hm
  have hlt := h.exists_of_mem m j hmem
  have hget := List.getElem?_eq_getElem hlt
  cases hp : C.threads[j] with
  | op o k => exact ⟨o, k, by rw [hget, hp]⟩
  | ret a =>
    rw [hp] at hget
    have hnone : held j = ∅ := h.follows j _ hget
    rw [hnone] at hmem
    exact absurd hmem (Finset.notMem_empty m)

/-- Along a chain of waiting threads the ranks of the mutexes that they want rise. -/
theorem Disciplined.progress (h : Disciplined eff rank C held) [∀ o, Nonempty (Res o)] {B : ℕ}
    (hB : ∀ m, rank m ≤ B) {i : ℕ} (hi : Unfinished C i) :
    ∃ j, Relation.ReflTransGen (WaitsFor eff C) i j ∧ CanMove eff C j := by
  -- how much the ranks of what the thread holds can still rise
  have key : ∀ d i, Unfinished C i → (∃ m ∈ held i, B ≤ rank m + d) →
      ∃ j, Relation.ReflTransGen (WaitsFor eff C) i j ∧ CanMove eff C j := by
    intro d
    induction d with
    | zero =>
      rintro i hi ⟨m, hm, hd⟩
      rcases h.canMove_or hi with hmove | ⟨o, k, m', j, -, -, -, habove⟩
      · exact ⟨i, .refl, hmove⟩
      · have hlt := habove m hm
        have hle := hB m'
        omega
    | succ d ih =>
      rintro i hi ⟨m, hm, hd⟩
      rcases h.canMove_or hi with hmove | ⟨o, k, m', j, hget, ho, hholder, habove⟩
      · exact ⟨i, .refl, hmove⟩
      · have hlt := habove m hm
        obtain ⟨j', hchain, hmove⟩ := ih j (h.unfinished hholder)
          ⟨m', (h.holder m' j).mp hholder, by omega⟩
        exact ⟨j', .head ⟨o, k, m', hget, ho, hholder⟩ hchain, hmove⟩
  rcases h.canMove_or hi with hmove | ⟨o, k, m', j, hget, ho, hholder, -⟩
  · exact ⟨i, .refl, hmove⟩
  · obtain ⟨j', hchain, hmove⟩ := key B j (h.unfinished hholder)
      ⟨m', (h.holder m' j).mp hholder, by omega⟩
    exact ⟨j', .head ⟨o, k, m', hget, ho, hholder⟩ hchain, hmove⟩

/-- **No deadlock.**  If all programs with which threads begin keep the order of the ranks,
then in every configuration that can come about, a thread that has not returned can move or
waits, along a chain of holders, for one that can. -/
theorem progress {Entry : Proc Op Res Unit → Prop} [∀ o, Nonempty (Res o)] {B : ℕ}
    (hB : ∀ m, rank m ≤ B) (hentry : ∀ p, Entry p → Ordered eff rank 0 p)
    (h : Reachable eff Entry C) {i : ℕ} (hi : Unfinished C i) :
    ∃ j, Relation.ReflTransGen (WaitsFor eff C) i j ∧ CanMove eff C j := by
  obtain ⟨held, hheld⟩ := disciplined_of_reachable hentry h
  exact hheld.progress hB hi

end Discipline

/-! ## Code without data -/

/-- Code of which only the sections under mutexes and their nesting is kept.  Which branch is
taken, and over what a loop runs, is left open. -/
inductive Shape (M : Type) where
  | skip
  | seq (a b : Shape M)
  | either (a b : Shape M)
  | many (round : ℕ → Shape M)
  | under (m : M) (body : Shape M)

/-- What a shape performs: it takes and gives back mutexes, and it asks. -/
inductive ShapeOp (M : Type) where
  | lock (m : M)
  | unlock (m : M)
  | test
  | choose

/-- The type of an answer. -/
@[reducible] def ShapeOp.Answer : ShapeOp M → Type
  | .test => Bool
  | .choose => List ℕ
  | _ => Unit

/-- Only the first two have to do with mutexes. -/
def ShapeOp.effect : ShapeOp M → Effect M
  | .lock m => .acquire m
  | .unlock m => .release m
  | _ => .none

instance (o : ShapeOp M) : Nonempty o.Answer := by
  cases o <;> exact ⟨default⟩

namespace Shape

variable {rank : M → ℕ}

/-- The program that a shape stands for. -/
def prog : Shape M → Proc (ShapeOp M) ShapeOp.Answer Unit
  | skip => return
  | seq a b => do
    a.prog
    b.prog
  | either a b => do
    if ← Proc.perform ShapeOp.test then a.prog else b.prog
  | many round => do
    forM (← Proc.perform ShapeOp.choose) fun i => (round i).prog
  | under m body => do
    let _ ← Proc.perform (ShapeOp.lock m)
    let x ← body.prog
    let _ ← Proc.perform (ShapeOp.unlock m)
    return x

/-- One after the other. -/
def all : List (Shape M) → Shape M
  | [] => skip
  | a :: as => seq a (all as)

/-- Checks, each of which may end in `refusal`, and then `rest`. -/
def checked (refusal : Shape M) : List (Shape M) → Shape M → Shape M
  | [], rest => rest
  | a :: as, rest => seq a (either refusal (checked refusal as rest))

/-- The sections of the text are nested in the order of the ranks, which are `n` or more. -/
def Ordered (rank : M → ℕ) : ℕ → Shape M → Prop
  | _, skip => True
  | n, seq a b => a.Ordered rank n ∧ b.Ordered rank n
  | n, either a b => a.Ordered rank n ∧ b.Ordered rank n
  | n, many round => ∀ i, (round i).Ordered rank n
  | n, under m body => n ≤ rank m ∧ body.Ordered rank (rank m + 1)

@[simp] theorem ordered_all {n : ℕ} {as : List (Shape M)} :
    (all as).Ordered rank n ↔ ∀ a ∈ as, a.Ordered rank n := by
  induction as with
  | nil => simp [all, Ordered]
  | cons a as ih => simp [all, Ordered, ih]

@[simp] theorem ordered_checked {n : ℕ} {refusal rest : Shape M} {as : List (Shape M)} :
    (checked refusal as rest).Ordered rank n ↔
      (∀ a ∈ as, a.Ordered rank n ∧ refusal.Ordered rank n) ∧ rest.Ordered rank n := by
  induction as with
  | nil => simp [checked]
  | cons a as ih =>
    simp only [checked, Ordered, ih, List.forall_mem_cons]
    tauto

/-- What the text promises, the program keeps. -/
theorem ordered_prog [DecidableEq M] {s : Shape M} {n : ℕ} (h : s.Ordered rank n) :
    Locks.Ordered ShapeOp.effect rank n s.prog := by
  induction s generalizing n with
  | skip => exact .pure _
  | seq a b iha ihb => exact (iha h.1).bind fun _ => ihb h.2
  | either a b iha ihb =>
    exact (Locks.Ordered.perform rfl).bind fun _ => Locks.Ordered.ite (iha h.1) (ihb h.2)
  | many round ih => exact (Locks.Ordered.perform rfl).bind fun _ => .forM fun i => ih i (h i)
  | under m body ih => exact .locked rfl rfl h.1 (ih h.2)

end Shape

end Locks
