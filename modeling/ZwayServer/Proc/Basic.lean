import Mathlib

/-!
# Programs over atomic operations

A program that works on shared state is a tree: it either returns, or performs
one atomic operation and goes on with the answer.  The same tree is read in two
ways.  `Proc.run` executes it alone, one operation after the other, against an
interpreter of the operations; an interleaving semantics performs one operation
of one tree at a time.  A function of the modelled program is therefore written
once and used under both readings.

* `Proc` — the trees, with their monad and its laws, so that programs are
  written in `do`-notation.
* `Proc.run` — sequential execution; `run_bind` and `run_forM_cons` are the
  rules by which it is computed.
-/

/-- A program over the operations `Op`, where performing `o : Op` is answered by
a value of type `Res o`. -/
inductive Proc (Op : Type) (Res : Op → Type) (α : Type) : Type where
  /-- Return a value. -/
  | ret (a : α) : Proc Op Res α
  /-- Perform `o` and continue with its answer. -/
  | op (o : Op) (k : Res o → Proc Op Res α) : Proc Op Res α

namespace Proc

variable {Op : Type} {Res : Op → Type} {α β γ : Type}

/-! ## The monad -/

/-- Sequencing: graft `f` onto every leaf. -/
protected def bind : Proc Op Res α → (α → Proc Op Res β) → Proc Op Res β
  | .ret a, f => f a
  | .op o k, f => .op o fun r => (k r).bind f

instance : Monad (Proc Op Res) where
  pure := .ret
  bind := Proc.bind

/-- The program that performs one operation and returns its answer. -/
def perform (o : Op) : Proc Op Res (Res o) := .op o .ret

@[simp] theorem ret_eq_pure (a : α) : (Proc.ret a : Proc Op Res α) = pure a := rfl

@[simp] theorem bind_eq_bind (p : Proc Op Res α) (f : α → Proc Op Res β) :
    p.bind f = p >>= f := rfl

@[simp] theorem op_bind (o : Op) (k : Res o → Proc Op Res α) (f : α → Proc Op Res β) :
    (Proc.op o k >>= f) = .op o fun r => k r >>= f := rfl

instance : LawfulMonad (Proc Op Res) := LawfulMonad.mk' _
  (by
    intro α x
    induction x with
    | ret a => rfl
    | op o k ih => exact congrArg (Proc.op o) (funext ih))
  (fun _ _ => rfl)
  (by
    intro α β γ x f g
    induction x with
    | ret a => rfl
    | op o k ih => exact congrArg (Proc.op o) (funext ih))

/-! ## Sequential execution -/

/-- An interpreter: what an operation answers and how it changes the state. -/
abbrev Interp (Op : Type) (Res : Op → Type) (S : Type) := (o : Op) → S → Res o × S

variable {S : Type} (I : Interp Op Res S)

/-- Run a program to its end, with nobody in between. -/
def run : Proc Op Res α → S → α × S
  | .ret a, s => (a, s)
  | .op o k, s => (k (I o s).1).run (I o s).2

@[simp] theorem run_pure (a : α) (s : S) : run I (pure a : Proc Op Res α) s = (a, s) := rfl

@[simp] theorem run_op (o : Op) (k : Res o → Proc Op Res α) (s : S) :
    run I (.op o k) s = run I (k (I o s).1) (I o s).2 := rfl

@[simp] theorem run_perform (o : Op) (s : S) : run I (perform o) s = I o s := rfl

/-- Running a sequence runs its first part and then the rest from where that left. -/
theorem run_bind (p : Proc Op Res α) (f : α → Proc Op Res β) (s : S) :
    run I (p >>= f) s = run I (f (run I p s).1) (run I p s).2 := by
  induction p generalizing s with
  | ret a => rfl
  | op o k ih => exact ih _ _

@[simp] theorem run_map (f : α → β) (p : Proc Op Res α) (s : S) :
    run I (f <$> p) s = (f (run I p s).1, (run I p s).2) := by
  rw [← bind_pure_comp, run_bind]; rfl

theorem run_ite (c : Prop) [Decidable c] (p q : Proc Op Res α) (s : S) :
    run I (if c then p else q) s = if c then run I p s else run I q s := by
  split <;> rfl

@[simp] theorem run_forM_nil (f : β → Proc Op Res PUnit) (s : S) :
    run I (forM ([] : List β) f) s = (⟨⟩, s) := rfl

theorem run_forM_cons (x : β) (xs : List β) (f : β → Proc Op Res PUnit) (s : S) :
    run I (forM (x :: xs) f) s = run I (forM xs f) (run I (f x) s).2 := by
  rw [List.forM_cons, run_bind]

end Proc
