import Mathlib

/-!
# Exceptions over a state

Blocks of statements that change a state and may throw.  When a statement throws, the state
stays as the statements before it, and it itself, have left it: catching an exception undoes
nothing.

* `tried` — a block whose exceptions are caught, and whether it got to its end.
* `tried_bind_of_ok`, `tried_bind_of_error` — a block is gone through from its first statement
  to the one that throws.
-/

namespace Exceptions

variable {ε σ α β : Type} {x : EStateM ε σ α} {f : α → EStateM ε σ β} {s s' : σ}

/-- `try { x } catch (...) { return false; } return true;` -/
def tried (x : EStateM ε σ α) (s : σ) : σ × Bool :=
  match x.run s with
  | .ok _ s' => (s', true)
  | .error _ s' => (s', false)

/-- A first part that does not throw hands its state on. -/
theorem tried_bind_of_ok {a : α} (h : x.run s = .ok a s') :
    tried (x >>= f) s = tried (f a) s' := by
  rw [tried, tried, EStateM.run_bind, h]

/-- If the first part throws, the rest is left out. -/
theorem tried_bind_of_error {e : ε} (h : x.run s = .error e s') :
    tried (x >>= f) s = (s', false) := by
  rw [tried, EStateM.run_bind, h]

end Exceptions
