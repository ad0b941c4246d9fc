import ZwayServer.System

/-!
# Handlers that interleave

The server again as a transition system, now with several handlers under way at once:
a move begins a handler, lets one of those under way perform its next operation, or
ends one.  The packets of one session are handled one after the other, since the next
one is read only when the handler has returned; between sessions, and with the tasks
of the `io_service`, everything interleaves.

* `Conc` — the server, the handlers under way, and a log of what was performed.
* `Conc.next`, `afterMoves` — one move, and a run of moves, newest first.
* `Conc.Step`, `step_or_eq` — what a move can do.
-/

namespace ZwayServer

open ClientSession

/-! ## Threads -/

/-- The session on whose connection an event arrives. -/
def Event.owner : Event → Option SessionId
  | connect s => some s
  | handshake s _ => some s
  | request s _ => some s
  | response s _ _ => some s
  | createReceiver s _ => some s
  | receive s _ _ => some s
  | received s _ => some s
  | disconnect s => some s
  | userRequests _ => none
  | send .. => none
  | timer _ => none
  | removeSessions => none

/-- The handler of an event, with the result of `processIncomingRequest`. -/
def Event.program (env : Env) (σ : ServerState) : Event → Prog Bool
  | request s head => processIncomingRequest env s head
  | e => do
    e.handler env σ
    return false

/-- A handler under way: its event, and what is left of its program. -/
structure Thread where
  event : Event
  rest : Prog Bool

/-- Something that has happened. -/
inductive Entry where
  /-- The handler of `e` has performed `o`, which was answered by `r`. -/
  | performed (e : Event) (o : Op) (r : o.Res)
  /-- The handler of `e` has returned. -/
  | ended (e : Event) (result : Bool)

/-- The server with the handlers under way.  A handler keeps its place when others end;
`log` is newest first. -/
structure Conc where
  server : ServerState := {}
  threads : List (Option Thread) := []
  log : List Entry := []

/-- What happens next. -/
inductive Move where
  /-- The handler of an event begins. -/
  | begin (e : Event)
  /-- The handler in place `i` goes on. -/
  | proceed (i : Nat) (c : Choice)

namespace Conc

variable (C : Conc)

/-- The handler in place `i`. -/
def thread (i : Nat) : Option Thread := C.threads.getD i none

/-- The handlers under way. -/
def running : List Thread := C.threads.reduceOption

/-- No handler is under way for the connection that the event is about. -/
def Free (e : Event) : Prop := ∀ t ∈ C.running, e.owner ≠ none → t.event.owner ≠ e.owner

instance (e : Event) : Decidable (C.Free e) := by
  unfold Free
  infer_instance

/-- One move.  After an exception has left a handler, nothing happens any more. -/
def next (env : Env) : Move → Conc
  | .begin e =>
    if C.server.terminated = false ∧ e.Enabled C.server ∧ C.Free e then
      { C with
        server := e.note C.server
        threads := C.threads ++ [some { event := e, rest := e.program env C.server }] }
    else C
  | .proceed i c =>
    if C.server.terminated then C
    else
      match C.thread i with
      | some ⟨e, .op o k⟩ =>
        let out := exec env o c C.server
        { server := out.2
          threads := C.threads.set i (some { event := e, rest := k out.1 })
          log := .performed e o out.1 :: C.log }
      | some ⟨e, .ret b⟩ =>
        { C with threads := C.threads.set i none, log := .ended e b :: C.log }
      | none => C

end Conc

/-- Where a run of moves leads. -/
def afterMoves (env : Env) : List Move → Conc
  | [] => {}
  | m :: ms => (afterMoves env ms).next env m

/-! ## What a move can do -/

/-- A move that takes place. -/
inductive Conc.Step (env : Env) (C : Conc) : Move → Conc → Prop
  | begin {e : Event} (henabled : e.Enabled C.server) (hfree : C.Free e) :
      Step env C (.begin e)
        { C with
          server := e.note C.server
          threads := C.threads ++ [some { event := e, rest := e.program env C.server }] }
  | perform {i : Nat} {c : Choice} {e : Event} {o : Op} {k : o.Res → Prog Bool}
      (hthread : C.thread i = some ⟨e, .op o k⟩) :
      Step env C (.proceed i c)
        { server := (exec env o c C.server).2
          threads := C.threads.set i (some { event := e, rest := k (exec env o c C.server).1 })
          log := .performed e o (exec env o c C.server).1 :: C.log }
  | finish {i : Nat} {c : Choice} {e : Event} {b : Bool}
      (hthread : C.thread i = some ⟨e, .ret b⟩) :
      Step env C (.proceed i c)
        { C with threads := C.threads.set i none, log := .ended e b :: C.log }

namespace Conc

/-- After the handler in place `i`, of the event `e`, has performed the operation `o`. -/
abbrev performed (env : Env) (C : Conc) (i : Nat) (c : Choice) (e : Event) (o : Op)
    (k : o.Res → Prog Bool) : Conc :=
  { server := (exec env o c C.server).2
    threads := C.threads.set i (some { event := e, rest := k (exec env o c C.server).1 })
    log := .performed e o (exec env o c C.server).1 :: C.log }

variable {env : Env} {C : Conc}

/-- A move takes place, or changes nothing. -/
theorem step_or_eq (m : Move) : C.Step env m (C.next env m) ∨ C.next env m = C := by
  cases m with
  | begin e =>
    rw [next]
    split
    · next h => exact Or.inl (.begin h.2.1 h.2.2)
    · exact Or.inr rfl
  | proceed i c =>
    rw [next]
    split
    · exact Or.inr rfl
    · split
      · next e o k h => exact Or.inl (.perform h)
      · next e b h => exact Or.inl (.finish h)
      · exact Or.inr rfl

/-- **Invariants of interleavings.**  What holds at the start and is kept by every move that
takes place holds after every run of moves; the moves may be restricted by `R`. -/
theorem invariant_afterMoves {R : Move → Prop} {P : Conc → Prop} (h0 : P {})
    (hstep : ∀ C m C', R m → C.Step env m C' → P C → P C') {ms : List Move}
    (hms : ∀ m ∈ ms, R m) : P (afterMoves env ms) := by
  induction ms with
  | nil => exact h0
  | cons m ms ih =>
    have ih := ih fun m' hm' => hms m' (List.mem_cons_of_mem _ hm')
    have hcase : (afterMoves env ms).Step env m ((afterMoves env ms).next env m) ∨
        (afterMoves env ms).next env m = afterMoves env ms := step_or_eq m
    rcases hcase with hs | he
    · exact hstep _ m _ (hms m (List.mem_cons_self ..)) hs ih
    · rw [afterMoves, he]
      exact ih

/-- Every move of the run satisfies `P` in the state in which it comes. -/
def EveryMove (env : Env) (P : Conc → Move → Prop) : List Move → Prop
  | [] => True
  | m :: ms => P (afterMoves env ms) m ∧ EveryMove env P ms

/-- The same, for moves that are restricted in the state in which they come. -/
theorem invariant_everyMove {P : Conc → Move → Prop} {I : Conc → Prop} (h0 : I {})
    (hstep : ∀ C m C', C.server.terminated = false → P C m → C.Step env m C' → I C → I C')
    {ms : List Move} (hms : EveryMove env P ms) : I (afterMoves env ms) := by
  induction ms with
  | nil => exact h0
  | cons m ms ih =>
    have ih := ih hms.2
    cases hend : (afterMoves env ms).server.terminated with
    | true =>
      have he : (afterMoves env ms).next env m = afterMoves env ms := by
        cases m <;> simp [next, hend]
      rw [afterMoves, he]
      exact ih
    | false =>
      have hcase : (afterMoves env ms).Step env m ((afterMoves env ms).next env m) ∨
          (afterMoves env ms).next env m = afterMoves env ms := step_or_eq m
      rcases hcase with hs | he
      · exact hstep _ m _ hend hms.1 hs ih
      · rw [afterMoves, he]
        exact ih

/-! ## Threads after a move -/

theorem mem_running {t : Thread} : t ∈ C.running ↔ ∃ i, C.thread i = some t := by
  rw [running, List.reduceOption_mem_iff, List.mem_iff_getElem?]
  constructor
  · rintro ⟨i, hi⟩
    exact ⟨i, by rw [thread, List.getD_eq_getElem?_getD, hi]; rfl⟩
  · rintro ⟨i, hi⟩
    rw [thread, List.getD_eq_getElem?_getD] at hi
    cases hget : C.threads[i]? with
    | none =>
      rw [hget] at hi
      cases hi
    | some x =>
      rw [hget] at hi
      exact ⟨i, by rw [hget]; exact congrArg some hi⟩

/-- A place that is in use exists. -/
theorem lt_of_thread {i : Nat} {t : Thread} (h : C.thread i = some t) : i < C.threads.length := by
  by_contra hge
  rw [thread, List.getD_eq_default _ _ (by omega)] at h
  cases h

theorem getD_set {l : List (Option Thread)} {i j : Nat} {x : Option Thread} (hi : i < l.length) :
    (l.set i x).getD j none = if j = i then x else l.getD j none := by
  rw [List.getD_eq_getElem?_getD, List.getD_eq_getElem?_getD, List.getElem?_set]
  by_cases hj : j = i
  · subst hj
    simp [hi]
  · simp [Ne.symm hj, hj]

theorem getD_concat {l : List (Option Thread)} {j : Nat} {x : Option Thread} :
    (l ++ [x]).getD j none = if j = l.length then x else l.getD j none := by
  rw [List.getD_eq_getElem?_getD, List.getD_eq_getElem?_getD]
  rcases Nat.lt_trichotomy j l.length with hj | hj | hj
  · rw [List.getElem?_append_left hj, if_neg (by omega)]
  · subst hj
    simp
  · rw [List.getElem?_eq_none (by simp; omega), List.getElem?_eq_none (by omega),
      if_neg (by omega)]

/-- After a handler has begun, a place holds that handler or what it held. -/
theorem getD_concat_cases {l : List (Option Thread)} {j : Nat} {x : Option Thread} {t : Thread}
    (h : (l ++ [x]).getD j none = some t) :
    j = l.length ∧ x = some t ∨ j ≠ l.length ∧ l.getD j none = some t := by
  rw [getD_concat] at h
  split at h
  · next he => exact Or.inl ⟨he, h⟩
  · next hne => exact Or.inr ⟨hne, h⟩

/-- After a handler has gone on, a place holds what is left of it or what it held. -/
theorem getD_set_cases {l : List (Option Thread)} {i j : Nat} {x : Option Thread} {t : Thread}
    (hi : i < l.length) (h : (l.set i x).getD j none = some t) :
    j = i ∧ x = some t ∨ j ≠ i ∧ l.getD j none = some t := by
  rw [getD_set hi] at h
  split at h
  · next he => exact Or.inl ⟨he, h⟩
  · next hne => exact Or.inr ⟨hne, h⟩

/-! ## What holds of all handlers -/

section

variable {env : Env} {C : Conc} {P Q : Nat → Thread → Prop}

/-- A handler begins: it satisfies `Q`, and so do the others. -/
theorem forall_begun {e : Event} (h : ∀ i t, C.thread i = some t → P i t)
    (hnew : Q C.threads.length { event := e, rest := e.program env C.server })
    (hothers : ∀ i t, C.thread i = some t → P i t → Q i t) {i : Nat} {t : Thread}
    (hi : (C.threads ++ [some (Thread.mk e (e.program env C.server))]).getD i none = some t) :
    Q i t := by
  rcases getD_concat_cases hi with ⟨rfl, ht⟩ | ⟨-, ht⟩
  · obtain rfl := Option.some.inj ht
    exact hnew
  · exact hothers i t ht (h i t ht)

/-- A handler ends, and the others satisfy `Q`. -/
theorem forall_finished {i : Nat} {u : Thread} (hthread : C.thread i = some u)
    (h : ∀ j t, C.thread j = some t → P j t)
    (hothers : ∀ j t, C.thread j = some t → P j t → Q j t) {j : Nat} {t : Thread}
    (hj : (C.threads.set i none).getD j none = some t) : Q j t := by
  rcases getD_set_cases (lt_of_thread hthread) hj with ⟨-, ht⟩ | ⟨-, ht⟩
  · cases ht
  · exact hothers j t ht (h j t ht)

/-- The handler in place `i` goes on: what is left of it satisfies `Q`, and so do the others. -/
theorem forall_performed {i : Nat} {c : Choice} {e : Event} {o : Op} {k : o.Res → Prog Bool}
    (hthread : C.thread i = some ⟨e, .op o k⟩) (h : ∀ j t, C.thread j = some t → P j t)
    (hown : P i ⟨e, .op o k⟩ → Q i ⟨e, k (exec env o c C.server).1⟩)
    (hothers : ∀ j t, j ≠ i → C.thread j = some t → P j t → Q j t) {j : Nat} {t : Thread}
    (hj : (C.performed env i c e o k).thread j = some t) : Q j t := by
  rcases getD_set_cases (lt_of_thread hthread) hj with ⟨rfl, ht⟩ | ⟨hne, ht⟩
  · obtain rfl := Option.some.inj ht
    exact hown (h j _ hthread)
  · exact hothers j t hne ht (h j t ht)

end

end Conc
end ZwayServer
