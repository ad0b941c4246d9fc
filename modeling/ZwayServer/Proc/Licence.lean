import ZwayServer.Proc.Logic

/-!
# What must come first

Some operations may be performed only after others: a record is removed after its replacement
was stored, an answer is given after the question was read.  Whether an operation is licensed
depends on what its program has performed before and on how it was answered.

* `Past` — what a program has performed, with the answers.
* `Licensed L p past Q` — after `past`, every operation of `p` is licensed by what comes before
  it, and `p` returns with `Q`.
* `Licensed.skip` — a part without operations that need a licence.
-/

namespace Proc

variable {Op : Type} {Res : Op → Type} {α β : Type}

/-- The operations that have been performed, each with its answer, newest first. -/
abbrev Past (Op : Type) (Res : Op → Type) := List ((o : Op) × Res o)

/-- Every operation of the program is licensed by what has been performed before it. -/
def Licensed (L : Op → Past Op Res → Prop) (p : Proc Op Res α) (past : Past Op Res)
    (Q : α → Past Op Res → Prop) : Prop :=
  wp (fun o (K : Res o → Past Op Res → Prop) past => L o past ∧ ∀ r, K r (⟨o, r⟩ :: past)) p Q past

section

variable {L : Op → Past Op Res → Prop} {past : Past Op Res}

@[simp] theorem licensed_pure {a : α} {Q : α → Past Op Res → Prop} :
    Licensed L (pure a : Proc Op Res α) past Q ↔ Q a past := Iff.rfl

@[simp] theorem licensed_op {o : Op} {k : Res o → Proc Op Res α} {Q : α → Past Op Res → Prop} :
    Licensed L (.op o k) past Q ↔ L o past ∧ ∀ r, Licensed L (k r) (⟨o, r⟩ :: past) Q := Iff.rfl

@[simp] theorem licensed_perform {o : Op} {Q : Res o → Past Op Res → Prop} :
    Licensed L (perform o) past Q ↔ L o past ∧ ∀ r, Q r (⟨o, r⟩ :: past) := Iff.rfl

@[simp] theorem licensed_bind {p : Proc Op Res α} {f : α → Proc Op Res β}
    {Q : β → Past Op Res → Prop} :
    Licensed L (p >>= f) past Q ↔ Licensed L p past fun a past' => Licensed L (f a) past' Q := by
  rw [Licensed, wp_bind]; rfl

/-- A program without operations that need a licence; the past grows. -/
theorem Licensed.of_within {G : Op → Prop} {p : Proc Op Res α} {Q : α → Past Op Res → Prop}
    (hp : Within G p) (hL : ∀ o past, G o → L o past) (hQ : ∀ a past', past ⊆ past' → Q a past') :
    Licensed L p past Q := by
  induction p generalizing past with
  | ret a => exact hQ a past fun _ => id
  | op o k ih =>
    refine ⟨hL o past hp.1, fun r => ih r (hp.2 r trivial) fun a past' h => hQ a past' ?_⟩
    exact fun x hx => h (List.mem_cons_of_mem _ hx)

/-- Such a part, and the rest. -/
theorem Licensed.skip {G : Op → Prop} {p : Proc Op Res α} {f : α → Proc Op Res β}
    {Q : β → Past Op Res → Prop} (hp : Within G p) (hL : ∀ o past, G o → L o past)
    (hf : ∀ a past', past ⊆ past' → Licensed L (f a) past' Q) : Licensed L (p >>= f) past Q :=
  licensed_bind.mpr (.of_within hp hL hf)

end

end Proc
