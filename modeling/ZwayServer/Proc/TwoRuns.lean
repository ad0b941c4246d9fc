import ZwayServer.Proc.Logic

/-!
# Two runs of one program

When do two runs of a program from different states go the same way?  If the answers that
they get agree, or if they differ only in what the program makes no use of.

* `Blind f p` — `p` makes use only of what `f` leaves of an answer.
* `Blind.run` — two runs of a program from states in a simulation end with the same result,
  in states in the simulation.
-/

namespace Proc

variable {Op : Type} {Res : Op → Type} {α β : Type} {f : (o : Op) → Res o → Res o}

/-- The program goes on in the same way if `f` is applied to an answer. -/
def Blind (f : (o : Op) → Res o → Res o) : Proc Op Res α → Prop
  | .ret _ => True
  | .op o k => ∀ r, k (f o r) = k r ∧ (k r).Blind f

@[simp] theorem blind_pure {a : α} : Blind f (pure a : Proc Op Res α) := trivial

@[simp] theorem blind_op {o : Op} {k : Res o → Proc Op Res α} :
    Blind f (.op o k) ↔ ∀ r, k (f o r) = k r ∧ Blind f (k r) := Iff.rfl

/-- A sequence is blind if its parts are. -/
theorem Blind.bind {p : Proc Op Res α} {q : α → Proc Op Res β} (hp : Blind f p)
    (hq : ∀ a, Blind f (q a)) : Blind f (p >>= q) := by
  induction p with
  | ret a => exact hq a
  | op o k ih =>
    intro r
    exact ⟨congrArg (· >>= q) (hp r).1, ih r (hp r).2⟩

/-- One operation whose answer is read through `f`. -/
theorem Blind.perform_bind {o : Op} {q : Res o → Proc Op Res β} (hread : ∀ r, q (f o r) = q r)
    (hq : ∀ r, Blind f (q r)) : Blind f (perform o >>= q) := by
  intro r
  exact ⟨hread r, hq r⟩

/-- A program without operations that `f` changes the answer of. -/
theorem Blind.of_within {G : Op → Prop} {p : Proc Op Res α} (hp : Within G p)
    (hf : ∀ o r, G o → f o r = r) : Blind f p := by
  induction p with
  | ret a => exact trivial
  | op o k ih =>
    intro r
    exact ⟨congrArg k (hf o r hp.1), ih r (hp.2 r trivial)⟩

/-- A loop is blind if each of its rounds is. -/
theorem Blind.forM {xs : List β} {q : β → Proc Op Res PUnit} (h : ∀ x ∈ xs, Blind f (q x)) :
    Blind f (forM xs q) := by
  induction xs with
  | nil => exact trivial
  | cons x xs ih =>
    rw [List.forM_cons]
    refine (h x (List.mem_cons_self ..)).bind fun _ => ih ?_
    intro y hy
    exact h y (List.mem_cons_of_mem _ hy)

theorem Blind.mapM {γ : Type} {xs : List β} {q : β → Proc Op Res γ} (h : ∀ x ∈ xs, Blind f (q x)) :
    Blind f (xs.mapM q) := by
  induction xs with
  | nil => exact trivial
  | cons x xs ih =>
    rw [List.mapM_cons]
    refine (h x (List.mem_cons_self ..)).bind fun _ => ?_
    exact (ih fun y hy => h y (List.mem_cons_of_mem _ hy)).bind fun _ => trivial

/-- **Two runs.**  If related states answer every operation of the program alike, up to what
the program is blind to, then its runs from related states give the same result and end in
related states. -/
theorem Blind.run {S : Type} {I : Interp Op Res S} {G : Op → Prop} {R : S → S → Prop}
    {p : Proc Op Res α} (hb : Blind f p) (hp : Within G p)
    (hsim : ∀ o s s', G o → R s s' → f o (I o s').1 = f o (I o s).1 ∧ R (I o s).2 (I o s').2)
    {s s' : S} (h : R s s') : (run I p s').1 = (run I p s).1 ∧ R (run I p s).2 (run I p s').2 := by
  induction p generalizing s s' with
  | ret a => exact ⟨rfl, h⟩
  | op o k ih =>
    obtain ⟨hanswer, hstate⟩ := hsim o s s' hp.1 h
    have hsame : k (I o s').1 = k (I o s).1 := by
      rw [← (hb _).1, hanswer, (hb _).1]
    rw [run_op, run_op, hsame]
    exact ih _ (hb _).2 (hp.2 _ trivial) hstate

end Proc
