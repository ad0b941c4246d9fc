import ZwayServer.Proc.Basic

/-!
# Reasoning about programs

Rules for showing what a program does without executing it.  All of them are
one fold over the tree, `Proc.wp`, which turns a description of the single
operations into a description of the whole program and commutes with
sequencing (`wp_bind`).

* `Safe G R p Q` — every operation `p` performs satisfies `G`, and its result
  satisfies `Q`, provided the answers satisfy `R`.  `Safe.run` turns this into
  an invariant of the sequential execution.
* `Reaches G R p Q` — on every path with answers in `R`, `p` performs an
  operation in `G` or returns with `Q`.
* `Honours D p` — every operation of `p` incurs a duty `D`, which the rest of the program
  honours.
* `Follows δ p m Q` — started in the mode `m`, the operations of `p` are all
  allowed by the automaton `δ`.
* `Tracks R δ p m Q` — the same for an automaton that also reads the answers.
-/

namespace Proc

variable {Op : Type} {Res : Op → Type} {α β γ : Type} {l : Type}

/-! ## The fold -/

/-- Fold a program, given what each operation contributes. -/
def wp (Φ : (o : Op) → (Res o → l) → l) : Proc Op Res α → (α → l) → l
  | .ret a, Q => Q a
  | .op o k, Q => Φ o fun r => (k r).wp Φ Q

@[simp] theorem wp_pure (Φ : (o : Op) → (Res o → l) → l) (a : α) (Q : α → l) :
    wp Φ (pure a : Proc Op Res α) Q = Q a := rfl

@[simp] theorem wp_op (Φ : (o : Op) → (Res o → l) → l) (o : Op) (k : Res o → Proc Op Res α)
    (Q : α → l) : wp Φ (.op o k) Q = Φ o fun r => wp Φ (k r) Q := rfl

@[simp] theorem wp_perform (Φ : (o : Op) → (Res o → l) → l) (o : Op) (Q : Res o → l) :
    wp Φ (perform o) Q = Φ o Q := rfl

@[simp] theorem wp_bind (Φ : (o : Op) → (Res o → l) → l) (p : Proc Op Res α)
    (f : α → Proc Op Res β) (Q : β → l) :
    wp Φ (p >>= f) Q = wp Φ p fun a => wp Φ (f a) Q := by
  induction p with
  | ret a => rfl
  | op o k ih => exact congrArg (Φ o) (funext ih)

/-! ## Safety under answers -/

/-- Every operation of `p` satisfies `G` and its result satisfies `Q`, as long as
the operations are answered as `R` says. -/
def Safe (G : Op → Prop) (R : (o : Op) → Res o → Prop) (p : Proc Op Res α) (Q : α → Prop) :
    Prop :=
  wp (fun o K => G o ∧ ∀ r, R o r → K r) p Q

section Safe

variable {G G' : Op → Prop} {R : (o : Op) → Res o → Prop} {Q Q' : α → Prop}

@[simp] theorem safe_pure {a : α} : Safe G R (pure a : Proc Op Res α) Q ↔ Q a := Iff.rfl

@[simp] theorem safe_op {o : Op} {k : Res o → Proc Op Res α} :
    Safe G R (.op o k) Q ↔ G o ∧ ∀ r, R o r → Safe G R (k r) Q := Iff.rfl

@[simp] theorem safe_perform {o : Op} {Q : Res o → Prop} :
    Safe G R (perform o) Q ↔ G o ∧ ∀ r, R o r → Q r := Iff.rfl

@[simp] theorem safe_bind {p : Proc Op Res α} {f : α → Proc Op Res β} {Q : β → Prop} :
    Safe G R (p >>= f) Q ↔ Safe G R p fun a => Safe G R (f a) Q := by
  rw [Safe, wp_bind]; rfl

@[simp] theorem safe_map {p : Proc Op Res β} {f : β → α} :
    Safe G R (f <$> p) Q ↔ Safe G R p fun b => Q (f b) := by
  rw [← bind_pure_comp, safe_bind]; rfl

@[simp] theorem safe_ite {c : Prop} [Decidable c] {p q : Proc Op Res α} :
    Safe G R (if c then p else q) Q ↔ (c → Safe G R p Q) ∧ (¬ c → Safe G R q Q) := by
  split <;> simp [*]

/-- More operations allowed, and less asked of the result. -/
theorem Safe.mono {p : Proc Op Res α} (h : Safe G R p Q) (hG : ∀ o, G o → G' o)
    (hQ : ∀ a, Q a → Q' a) : Safe G' R p Q' := by
  induction p with
  | ret a => exact hQ a h
  | op o k ih => exact ⟨hG o h.1, fun r hr => ih r (h.2 r hr)⟩

theorem Safe.weaken {p : Proc Op Res α} (h : Safe G R p Q) (hQ : ∀ a, Q a → Q' a) :
    Safe G R p Q' :=
  h.mono (fun _ ho => ho) hQ

/-- A loop is safe if each of its rounds is. -/
theorem Safe.forM {xs : List β} {f : β → Proc Op Res PUnit}
    (h : ∀ x ∈ xs, Safe G R (f x) fun _ => True) : Safe G R (forM xs f) fun _ => True := by
  induction xs with
  | nil => exact trivial
  | cons x xs ih =>
    rw [List.forM_cons, safe_bind]
    exact (h x (List.mem_cons_self ..)).weaken fun _ _ =>
      ih fun y hy => h y (List.mem_cons_of_mem _ hy)

theorem Safe.mapM {xs : List β} {f : β → Proc Op Res γ}
    (h : ∀ x ∈ xs, Safe G R (f x) fun _ => True) : Safe G R (xs.mapM f) fun _ => True := by
  induction xs with
  | nil => exact trivial
  | cons x xs ih =>
    rw [List.mapM_cons, safe_bind]
    refine (h x (List.mem_cons_self ..)).weaken fun _ _ => ?_
    rw [safe_bind]
    exact (ih fun y hy => h y (List.mem_cons_of_mem _ hy)).weaken fun _ _ => trivial

variable {S : Type} {I : Interp Op Res S} {P : S → Prop}

/-- **The invariant rule.**  If the operations in `G` keep `P`, and `P` makes the
answers satisfy `R`, then running a safe program keeps `P` and gives a result
with `Q`. -/
theorem Safe.run {p : Proc Op Res α} {s : S} (h : Safe G R p Q)
    (hkeep : ∀ o s, G o → P s → P (I o s).2) (hanswer : ∀ o s, P s → R o (I o s).1) (hs : P s) :
    P (run I p s).2 ∧ Q (run I p s).1 := by
  induction p generalizing s with
  | ret a => exact ⟨hs, h⟩
  | op o k ih => exact ih _ (h.2 _ (hanswer o s hs)) (hkeep o s h.1 hs)

end Safe

/-- Every operation of `p` satisfies `G`, whatever the answers. -/
abbrev Within (G : Op → Prop) (p : Proc Op Res α) : Prop := Safe G (fun _ _ => True) p fun _ => True

/-- What a part of a program performs does not depend on its place. -/
theorem Within.safe {G : Op → Prop} {R : (o : Op) → Res o → Prop} {p : Proc Op Res α}
    {Q : α → Prop} (h : Within G p) (hQ : ∀ a, Q a) : Safe G R p Q := by
  induction p with
  | ret a => exact hQ a
  | op o k ih => exact ⟨h.1, fun r _ => ih r (h.2 r trivial)⟩

/-- A program one part of which follows another. -/
theorem Within.bind {G : Op → Prop} {p : Proc Op Res α} {f : α → Proc Op Res β}
    (hp : Within G p) (hf : ∀ a, Within G (f a)) : Within G (p >>= f) :=
  safe_bind.mpr (hp.safe hf)

/-- More operations allowed. -/
theorem Within.sub {G G' : Op → Prop} {p : Proc Op Res α} (h : Within G p) (hG : ∀ o, G o → G' o) :
    Within G' p :=
  h.mono hG fun _ => id

/-- Operations that keep `P` keep it over a whole run. -/
theorem Within.run {G : Op → Prop} {S : Type} {I : Interp Op Res S} {P : S → Prop}
    {p : Proc Op Res α} {s : S} (h : Within G p) (hkeep : ∀ o s, G o → P s → P (I o s).2)
    (hs : P s) : P (run I p s).2 :=
  (Safe.run h hkeep (fun _ _ _ => trivial) hs).1

/-! ## Reaching an operation -/

/-- On every path whose answers satisfy `R`, the program performs an operation in
`G`, or else returns a result with `Q`. -/
def Reaches (G : Op → Prop) (R : (o : Op) → Res o → Prop) (p : Proc Op Res α) (Q : α → Prop) :
    Prop :=
  wp (fun o K => G o ∨ ∀ r, R o r → K r) p Q

section Reaches

variable {G : Op → Prop} {R : (o : Op) → Res o → Prop} {Q : α → Prop}

@[simp] theorem reaches_pure {a : α} : Reaches G R (pure a : Proc Op Res α) Q ↔ Q a := Iff.rfl

@[simp] theorem reaches_op {o : Op} {k : Res o → Proc Op Res α} :
    Reaches G R (.op o k) Q ↔ G o ∨ ∀ r, R o r → Reaches G R (k r) Q := Iff.rfl

@[simp] theorem reaches_perform {o : Op} {Q : Res o → Prop} :
    Reaches G R (perform o) Q ↔ G o ∨ ∀ r, R o r → Q r := Iff.rfl

@[simp] theorem reaches_bind {p : Proc Op Res α} {f : α → Proc Op Res β} {Q : β → Prop} :
    Reaches G R (p >>= f) Q ↔ Reaches G R p fun a => Reaches G R (f a) Q := by
  rw [Reaches, wp_bind]; rfl

/-- A part of the program that does not matter is skipped. -/
theorem Reaches.skip {p : Proc Op Res α} (h : ∀ a, Q a) : Reaches G R p Q := by
  induction p with
  | ret a => exact h a
  | op o k ih => exact Or.inr fun r _ => ih r

/-- Less asked of the result. -/
theorem Reaches.weaken {p : Proc Op Res α} {Q' : α → Prop} (h : Reaches G R p Q)
    (hQ : ∀ a, Q a → Q' a) : Reaches G R p Q' := by
  induction p with
  | ret a => exact hQ a h
  | op o k ih =>
    rcases h with ho | hk
    · exact Or.inl ho
    · exact Or.inr fun r hr => ih r (hk r hr)

/-- In a loop it is enough that one of the rounds gets there. -/
theorem Reaches.forM {xs : List β} {f : β → Proc Op Res PUnit} {x : β} (hx : x ∈ xs)
    (h : Reaches G R (f x) fun _ => False) : Reaches G R (forM xs f) fun _ => False := by
  induction xs with
  | nil => exact absurd hx List.not_mem_nil
  | cons y ys ih =>
    rw [List.forM_cons, reaches_bind]
    rcases List.mem_cons.mp hx with rfl | hys
    · exact h.weaken fun _ => False.elim
    · exact Reaches.skip fun _ => ih hys

end Reaches

/-! ## Duties -/

/-- Every operation of the program incurs a duty, which the rest of the program honours. -/
def Honours (D : (o : Op) → Res o → Proc Op Res α → Prop) : Proc Op Res α → Prop
  | .ret _ => True
  | .op o k => ∀ r, D o r (k r) ∧ (k r).Honours D

section Honours

variable {D : (o : Op) → Res o → Proc Op Res β → Prop}

@[simp] theorem honours_pure {b : β} : Honours D (pure b) := trivial

@[simp] theorem honours_op {o : Op} {k : Res o → Proc Op Res β} :
    Honours D (.op o k) ↔ ∀ r, D o r (k r) ∧ Honours D (k r) := Iff.rfl

/-- A part whose operations incur no duty passes them by. -/
theorem Honours.bind_of_within {p : Proc Op Res α} {f : α → Proc Op Res β}
    (hp : Within (fun o => ∀ r q, D o r q) p) (hf : ∀ a, Honours D (f a)) :
    Honours D (p >>= f) := by
  induction p with
  | ret a => exact hf a
  | op o k ih => exact fun r => ⟨hp.1 r _, ih r (hp.2 r trivial)⟩

/-- A program whose operations incur no duty. -/
theorem Honours.of_within {p : Proc Op Res β} (hp : Within (fun o => ∀ r q, D o r q) p) :
    Honours D p := by
  induction p with
  | ret a => exact trivial
  | op o k ih => exact fun r => ⟨hp.1 r _, ih r (hp.2 r trivial)⟩

/-- What every duty says of its operation holds of all operations. -/
theorem Honours.within {G : Op → Prop} {p : Proc Op Res β} (h : Honours D p)
    (hD : ∀ o r q, D o r q → G o) (hres : ∀ o, Nonempty (Res o)) : Within G p := by
  induction p with
  | ret a => exact trivial
  | op o k ih =>
    obtain ⟨r⟩ := hres o
    exact ⟨hD o r _ (h r).1, fun r _ => ih r (h r).2⟩

end Honours

/-! ## Modes -/

/-- Started in mode `m`, every operation is allowed by the automaton `δ`, and the
program returns in a mode with `Q`. -/
def Follows {M : Type} (δ : Op → M → Option M) (p : Proc Op Res α) (m : M) (Q : α → M → Prop) :
    Prop :=
  wp (fun o (K : Res o → M → Prop) m => ∃ m', δ o m = some m' ∧ ∀ r, K r m') p Q m

section Follows

variable {M : Type} {δ : Op → M → Option M} {m : M}

@[simp] theorem follows_pure {a : α} {Q : α → M → Prop} :
    Follows δ (pure a : Proc Op Res α) m Q ↔ Q a m := Iff.rfl

@[simp] theorem follows_op {o : Op} {k : Res o → Proc Op Res α} {Q : α → M → Prop} :
    Follows δ (.op o k) m Q ↔ ∃ m', δ o m = some m' ∧ ∀ r, Follows δ (k r) m' Q := Iff.rfl

@[simp] theorem follows_perform {o : Op} {Q : Res o → M → Prop} :
    Follows δ (perform o) m Q ↔ ∃ m', δ o m = some m' ∧ ∀ r, Q r m' := Iff.rfl

@[simp] theorem follows_bind {p : Proc Op Res α} {f : α → Proc Op Res β} {Q : β → M → Prop} :
    Follows δ (p >>= f) m Q ↔ Follows δ p m fun a m' => Follows δ (f a) m' Q := by
  rw [Follows, wp_bind]; rfl

/-- Less asked of the result. -/
theorem Follows.weaken {p : Proc Op Res α} {Q Q' : α → M → Prop} (h : Follows δ p m Q)
    (hQ : ∀ a m', Q a m' → Q' a m') : Follows δ p m Q' := by
  induction p generalizing m with
  | ret a => exact hQ a m h
  | op o k ih =>
    obtain ⟨m', hm', hrest⟩ := h
    exact ⟨m', hm', fun r => ih r (hrest r)⟩

/-- Operations that the automaton ignores leave the mode alone. -/
theorem Follows.of_within {G : Op → Prop} {p : Proc Op Res α} {Q : α → M → Prop}
    (hp : Within G p) (hδ : ∀ o m, G o → δ o m = some m) (hQ : ∀ a, Q a m) :
    Follows δ p m Q := by
  induction p with
  | ret a => exact hQ a
  | op o k ih => exact ⟨m, hδ o m hp.1, fun r => ih r (hp.2 r trivial)⟩

/-- **The mode rule.**  If every operation that the automaton allows keeps the state in step with
the mode, the whole program does. -/
theorem Follows.run {S : Type} {I : Interp Op Res S} {Rel : M → S → Prop} {p : Proc Op Res α}
    {s : S} {Q : α → M → Prop} (h : Follows δ p m Q)
    (hstep : ∀ o m m' s, δ o m = some m' → Rel m s → Rel m' (I o s).2) (hs : Rel m s) :
    ∃ m', Rel m' (run I p s).2 ∧ Q (run I p s).1 m' := by
  induction p generalizing m s with
  | ret a => exact ⟨m, hs, h⟩
  | op o k ih =>
    obtain ⟨m', hm', hrest⟩ := h
    exact ih _ (hrest _) (hstep o m m' s hm' hs)

end Follows

/-! ## Modes that depend on the answers -/

/-- Started in mode `m`, every operation with its answer is allowed by the automaton `δ`, and
the program returns in a mode with `Q`, as long as the operations are answered as `R` says. -/
def Tracks {M : Type} (R : (o : Op) → Res o → Prop) (δ : (o : Op) → Res o → M → Option M)
    (p : Proc Op Res α) (m : M) (Q : α → M → Prop) : Prop :=
  wp (fun o (K : Res o → M → Prop) m => ∀ r, R o r → ∃ m', δ o r m = some m' ∧ K r m') p Q m

section Tracks

variable {M : Type} {R : (o : Op) → Res o → Prop} {δ : (o : Op) → Res o → M → Option M} {m : M}

@[simp] theorem tracks_pure {a : α} {Q : α → M → Prop} :
    Tracks R δ (pure a : Proc Op Res α) m Q ↔ Q a m := Iff.rfl

@[simp] theorem tracks_op {o : Op} {k : Res o → Proc Op Res α} {Q : α → M → Prop} :
    Tracks R δ (.op o k) m Q ↔
      ∀ r, R o r → ∃ m', δ o r m = some m' ∧ Tracks R δ (k r) m' Q := Iff.rfl

@[simp] theorem tracks_perform {o : Op} {Q : Res o → M → Prop} :
    Tracks R δ (perform o) m Q ↔ ∀ r, R o r → ∃ m', δ o r m = some m' ∧ Q r m' := Iff.rfl

@[simp] theorem tracks_bind {p : Proc Op Res α} {f : α → Proc Op Res β} {Q : β → M → Prop} :
    Tracks R δ (p >>= f) m Q ↔ Tracks R δ p m fun a m' => Tracks R δ (f a) m' Q := by
  rw [Tracks, wp_bind]; rfl

theorem Tracks.weaken {p : Proc Op Res α} {Q Q' : α → M → Prop} (h : Tracks R δ p m Q)
    (hQ : ∀ a m', Q a m' → Q' a m') : Tracks R δ p m Q' := by
  induction p generalizing m with
  | ret a => exact hQ a m h
  | op o k ih =>
    intro r hr
    obtain ⟨m', hm', hrest⟩ := h r hr
    exact ⟨m', hm', ih r hrest⟩

/-- A loop whose rounds return in the mode in which they started. -/
theorem Tracks.forM {xs : List β} {f : β → Proc Op Res PUnit}
    (h : ∀ x ∈ xs, Tracks R δ (f x) m fun _ m' => m' = m) :
    Tracks R δ (forM xs f) m fun _ m' => m' = m := by
  induction xs with
  | nil => exact rfl
  | cons x xs ih =>
    rw [List.forM_cons, tracks_bind]
    refine (h x (List.mem_cons_self ..)).weaken ?_
    rintro _ m' rfl
    exact ih fun y hy => h y (List.mem_cons_of_mem _ hy)

/-- Operations that the automaton ignores leave the mode alone. -/
theorem Tracks.of_within {G : Op → Prop} {p : Proc Op Res α} {Q : α → M → Prop}
    (hp : Within G p) (hδ : ∀ o r m, G o → δ o r m = some m) (hQ : ∀ a, Q a m) :
    Tracks R δ p m Q := by
  induction p with
  | ret a => exact hQ a
  | op o k ih => exact fun r _ => ⟨m, hδ o r m hp.1, ih r (hp.2 r trivial)⟩

/-- A part that the automaton ignores, and the rest. -/
theorem Tracks.skip {G : Op → Prop} {p : Proc Op Res α} {f : α → Proc Op Res β}
    {Q : β → M → Prop} (hp : Within G p) (hδ : ∀ o r m, G o → δ o r m = some m)
    (hf : ∀ a, Tracks R δ (f a) m Q) : Tracks R δ (p >>= f) m Q :=
  tracks_bind.mpr (.of_within hp hδ hf)

end Tracks

end Proc
