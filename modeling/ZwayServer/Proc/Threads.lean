import Mathlib

/-!
# Threads over a shared state

Code that any number of threads run at once over one shared state, cut into atomic
sections.  A thread is no more than the point it has reached, with what it keeps in local
variables there; threads at one point are interchangeable, so a configuration is the shared
state together with the *multiset* of points.

* `Code` — at which points a thread may begin, and what the section at a point does.
* `Config`, `next`, `after` — configurations, one move, and a run of moves, newest first.
* `Step`, `step_or_eq` — all that a move can do.
* `Meets` — the runs whose moves were made under a condition.
* `Alone` — a thread from some point to its return, while no other thread moves.
* `invariant`, `Meets.invariant` — the induction over runs: an invariant of the state and the
  points is checked once for beginning and once for a section, with the other threads left
  arbitrary.
-/

namespace Threads

variable {S P C : Type}

/-- Code over a shared state `S` with points `P`, where `C` settles what the code leaves open. -/
structure Code (S P C : Type) where
  /-- Whether a thread may begin at a point, and what becomes of the shared state when it does. -/
  enter : P → S → Option S
  /-- The section at a point: what becomes of the shared state, and where the thread goes on
  unless it returns. -/
  perform : P → C → S → S × Option P

/-- The shared state and the points that the threads have reached. -/
structure Config (S P : Type) where
  shared : S
  points : Multiset P := 0

/-- What happens next. -/
inductive Move (P C : Type) where
  /-- A thread begins at `p`. -/
  | begin (p : P)
  /-- One of the threads at `p` performs its section. -/
  | proceed (p : P) (c : C)
  deriving DecidableEq

/-- The points, when a thread goes on at `o` beside others at `w`. -/
def rejoin (o : Option P) (w : Multiset P) : Multiset P := o.elim w (· ::ₘ w)

@[simp] theorem rejoin_none (w : Multiset P) : rejoin none w = w := rfl

@[simp] theorem rejoin_some (p : P) (w : Multiset P) : rejoin (some p) w = p ::ₘ w := rfl

variable (K : Code S P C)

section Moves

variable [DecidableEq P]

/-- One move; a move that is not possible changes nothing. -/
def next (m : Move P C) (X : Config S P) : Config S P :=
  match m with
  | .begin p =>
    match K.enter p X.shared with
    | some s => ⟨s, p ::ₘ X.points⟩
    | none => X
  | .proceed p c =>
    if p ∈ X.points then
      ⟨(K.perform p c X.shared).1, rejoin (K.perform p c X.shared).2 (X.points.erase p)⟩
    else X

/-- Where a run leads that starts with no threads; the newest move is the first of the list. -/
def after (s : S) : List (Move P C) → Config S P
  | [] => ⟨s, 0⟩
  | m :: ms => next K m (after s ms)

/-- Every move of the run was made in a configuration where it meets the condition. -/
def Meets (Ok : Move P C → Config S P → Prop) (s : S) : List (Move P C) → Prop
  | [] => True
  | m :: ms => Ok m (after K s ms) ∧ Meets Ok s ms

instance Meets.decidable {Ok : Move P C → Config S P → Prop} [∀ m X, Decidable (Ok m X)]
    (s : S) : ∀ ms, Decidable (Meets K Ok s ms)
  | [] => inferInstanceAs (Decidable True)
  | m :: ms =>
    have : Decidable (Meets K Ok s ms) := Meets.decidable s ms
    inferInstanceAs (Decidable (Ok m (after K s ms) ∧ Meets K Ok s ms))

end Moves

/-! ## What a move can do -/

/-- A move that takes place. -/
inductive Step : Config S P → Move P C → Config S P → Prop
  | begin {s s' : S} {w : Multiset P} {p : P} (h : K.enter p s = some s') :
      Step ⟨s, w⟩ (.begin p) ⟨s', p ::ₘ w⟩
  | proceed {s : S} {w : Multiset P} {p : P} {c : C} :
      Step ⟨s, p ::ₘ w⟩ (.proceed p c) ⟨(K.perform p c s).1, rejoin (K.perform p c s).2 w⟩

section Runs

variable [DecidableEq P]

theorem step_or_eq (m : Move P C) (X : Config S P) : Step K X m (next K m X) ∨ next K m X = X := by
  obtain ⟨s, w⟩ := X
  cases m with
  | begin p =>
    cases h : K.enter p s with
    | none => exact Or.inr (by simp [next, h])
    | some s' =>
      have hnext : next K (.begin p) ⟨s, w⟩ = ⟨s', p ::ₘ w⟩ := by simp [next, h]
      rw [hnext]
      exact Or.inl (Step.begin h)
  | proceed p c =>
    by_cases hp : p ∈ w
    · obtain ⟨w, rfl⟩ := Multiset.exists_cons_of_mem hp
      refine Or.inl ?_
      rw [next, if_pos hp, Multiset.erase_cons_head]
      exact Step.proceed
    · exact Or.inr (by simp [next, hp])

/-! ## A thread that nobody disturbs -/

/-- A thread at `p` performs its sections one after the other until it returns. -/
inductive Alone : P → S → S → Prop
  | return {p : P} {c : C} {s s' : S} (h : K.perform p c s = (s', none)) : Alone p s s'
  | go {p q : P} {c : C} {s s' s'' : S} (h : K.perform p c s = (s', some q))
      (hrest : Alone q s' s'') : Alone p s s''

/-- Such a thread is a part of a run, whatever threads stand beside it. -/
theorem Alone.moves {p : P} {s s' : S} (h : Alone K p s s') (w : Multiset P) :
    ∃ ms : List (Move P C), ms.foldr (next K) ⟨s, p ::ₘ w⟩ = ⟨s', w⟩ := by
  induction h with
  | @«return» p c s s' h =>
    refine ⟨[.proceed p c], ?_⟩
    simp [next, h]
  | @go p q c s s' s'' h _ ih =>
    obtain ⟨ms, hms⟩ := ih
    refine ⟨ms ++ [.proceed p c], ?_⟩
    rw [List.foldr_append, ← hms]
    simp [next, h]

/-! ## Invariants of runs -/

variable {K} {Ok : Move P C → Config S P → Prop} {s₀ : S}

/-- What is preserved by every move that meets the condition holds after every run whose moves
meet it. -/
theorem Meets.induction {I : Config S P → Prop} (hinit : I ⟨s₀, 0⟩)
    (hstep : ∀ X m X', Ok m X → Step K X m X' → I X → I X') :
    ∀ ms, Meets K Ok s₀ ms → I (after K s₀ ms) := by
  intro ms
  induction ms with
  | nil => intro _; exact hinit
  | cons m ms ih =>
    rintro ⟨hok, hmeets⟩
    rcases step_or_eq K m (after K s₀ ms) with h | h
    · exact hstep _ m _ hok h (ih hmeets)
    · rw [after, h]
      exact ih hmeets

/-- An invariant of the shared state and the points, along the runs that meet a condition. -/
theorem Meets.invariant {I : S → Multiset P → Prop} (hinit : I s₀ 0)
    (henter : ∀ p s s' w, Ok (.begin p) ⟨s, w⟩ → I s w → K.enter p s = some s' → I s' (p ::ₘ w))
    (hperform : ∀ p c s w, Ok (.proceed p c) ⟨s, p ::ₘ w⟩ → I s (p ::ₘ w) →
      I (K.perform p c s).1 (rejoin (K.perform p c s).2 w))
    {ms : List (Move P C)} (h : Meets K Ok s₀ ms) :
    I (after K s₀ ms).shared (after K s₀ ms).points := by
  refine Meets.induction (I := fun X => I X.shared X.points) hinit ?_ ms h
  rintro X m X' hok hstep hI
  cases hstep with
  | begin h => exact henter _ _ _ _ hok hI h
  | proceed => exact hperform _ _ _ _ hok hI

theorem meets_of_forall {Q : Move P C → Prop} {ms : List (Move P C)} (h : ∀ m ∈ ms, Q m) :
    Meets K (fun m _ => Q m) s₀ ms := by
  induction ms with
  | nil => exact trivial
  | cons m ms ih =>
    exact ⟨h m (List.mem_cons_self ..), ih fun m' hm => h m' (List.mem_cons_of_mem _ hm)⟩

theorem meets_true (ms : List (Move P C)) : Meets K (fun _ _ => True) s₀ ms := by
  induction ms with
  | nil => exact trivial
  | cons m ms ih => exact ⟨trivial, ih⟩

/-- An invariant of the shared state and the points, along all runs. -/
theorem invariant {I : S → Multiset P → Prop} (hinit : I s₀ 0)
    (henter : ∀ p s s' w, I s w → K.enter p s = some s' → I s' (p ::ₘ w))
    (hperform : ∀ p c s w, I s (p ::ₘ w) → I (K.perform p c s).1 (rejoin (K.perform p c s).2 w))
    (ms : List (Move P C)) : I (after K s₀ ms).shared (after K s₀ ms).points :=
  (meets_true ms).invariant hinit (fun p s s' w _ => henter p s s' w)
    (fun p c s w _ => hperform p c s w)

end Runs

end Threads
