import ZwayServer.Crash
import ZwayServer.Interleaving

/-!
# Runs are interleavings

The server is described at two levels.  In a run of `System` every handler is one step; in
`Interleaving` it is taken apart into its operations, and others come in between.  The first
level refines the second: whatever a run does, some run of moves does as well, with every
handler begun, carried to its end and over before the next one begins.  So what is shown of all
interleavings holds of all runs.

* `EndsLast` — the process ends with the last operation of a handler.
* `Conc.Idle`, `Conc.Alone` — no handler is under way, or only one.
* `OneByOne` — moves in which every handler is over before the next one begins.
* `serve` — a handler that is left alone is carried to its end.
* `interleaves` — the state after a run is reached by such moves.
* `holds_after` — an invariant of all interleavings is one of all runs.
-/

namespace ZwayServer

open ClientSession

/-! ## The end of the process comes last -/

/-- Nothing is performed after `terminate`. -/
def Last (o : Op) (_ : o.Res) (rest : Prog Bool) : Prop := o = .terminate → ∃ b, rest = pure b

/-- A handler in which the end of the process comes last. -/
def EndsLast (p : Prog Bool) : Prop := p.Honours Last

namespace EndsLast

variable {p q : Prog Bool}

theorem of_returning (hp : Proc.Within (· ≠ Op.terminate) p) : EndsLast p :=
  .of_within (hp.sub fun _ ho _ _ he => absurd he ho)

theorem skip {α : Type} {p : Prog α} {f : α → Prog Bool} (hp : Proc.Within (· ≠ Op.terminate) p)
    (hf : ∀ a, EndsLast (f a)) : EndsLast (p >>= f) :=
  .bind_of_within (hp.sub fun _ ho _ _ he => absurd he ho) hf

theorem die : EndsLast (do
    Proc.perform Op.terminate
    return false) :=
  fun _ => ⟨fun _ => ⟨false, rfl⟩, trivial⟩

theorem fail {s : SessionId} {id code : UInt32} {text : String} : EndsLast (do
    postRequestFailure s id code text
    return false) :=
  of_returning (by simp)

theorem ite {c : Prop} [Decidable c] (hp : EndsLast p) (hq : EndsLast q) :
    EndsLast (if c then p else q) := by
  split
  · exact hp
  · exact hq

end EndsLast

section

variable (env : Env) (s : SessionId) (head : UBJ.Object)

theorem endsLast_processLogin : EndsLast (processLogin env s head) := by
  rw [processLogin]
  apply EndsLast.skip (by simp)
  intro st
  refine .ite .fail (.ite .fail (.ite .fail ?_))
  apply EndsLast.skip (by simp)
  intro found
  cases found with
  | none => exact .fail
  | some account =>
    dsimp only
    split
    · exact .die
    · exact .fail
    · have hafter : Proc.Within (· ≠ Op.terminate)
          (afterLogin env s head (head.get "account").toInt) := by
        refine (within_afterLogin env s head _).sub fun o ho he => ?_
        subst he
        exact ho.elim id id
      exact .of_returning (by simp [hafter.safe])

theorem endsLast_processAcceptContact : EndsLast (processAcceptContact s head) := by
  rw [processAcceptContact]
  apply EndsLast.skip (by simp)
  intro st
  refine .ite .fail ?_
  apply EndsLast.skip (by simp)
  intro x
  apply EndsLast.skip (by simp)
  intro request
  cases request with
  | none => exact .fail
  | some request =>
    apply EndsLast.skip (by simp)
    intro y
    apply EndsLast.skip (by simp)
    intro found
    cases found with
    | none => exact .fail
    | some account =>
      dsimp only
      split
      · exact .die
      · cases publicKeyOf head with
        | none => exact .fail
        | some publicKey =>
          apply EndsLast.skip (by simp)
          intro z
          apply EndsLast.skip (by simp)
          intro added
          have hstatus : Proc.Within (· ≠ Op.terminate) (getContactStatus request.src) :=
            within_getContactStatus (by simp) (by simp) _
          exact .ite .fail (.of_returning (by simp [hstatus.safe]))

theorem endsLast_processIncomingRequest : EndsLast (processIncomingRequest env s head) := by
  by_cases hlogin : env.decode (head.get "requestType").toInt = some .login
  · simpa only [processIncomingRequest, hlogin] using endsLast_processLogin env s head
  by_cases haccept : env.decode (head.get "requestType").toInt = some .acceptContact
  · simpa only [processIncomingRequest, haccept] using endsLast_processAcceptContact s head
  exact .of_returning (within_returning env s head hlogin haccept)

/-- An upload whose file exists is given up at once. -/
theorem endsLast_createReceiver (pkt : Packet) (σ : ServerState) :
    EndsLast ((Event.createReceiver s pkt).program env σ) := by
  simp only [Event.program, Event.handler, createStreamReceiver, StreamBuffer.create]
  by_cases htype : pkt.streamType = .resource
  swap
  · rw [if_pos htype]
    exact trivial
  rw [if_neg (not_not.mpr htype)]
  rintro (_ | _)
  · -- the file does not exist, and the rest performs no `terminate`
    refine ⟨fun he => Op.noConfusion he, ?_⟩
    refine EndsLast.of_returning ?_
    simp [Server.addStreamBuffer, Proc.Within]
  · exact ⟨fun he => Op.noConfusion he, fun _ => ⟨fun _ => ⟨false, rfl⟩, trivial⟩⟩

/-- Of the events, only requests and the beginning of an upload end the process. -/
theorem Event.Footprint.ne_terminate {e : Event} {o : Op} (ho : e.Footprint env o)
    (hrequest : ∀ s head, e ≠ .request s head) (hupload : ∀ s pkt, e ≠ .createReceiver s pkt) :
    o ≠ .terminate := by
  rintro rfl
  cases e with
  | request s head => exact hrequest s head rfl
  | createReceiver s pkt => exact hupload s pkt rfl
  | userRequests k =>
    obtain ⟨s, hs⟩ := ho
    exact hs
  | _ => exact ho

theorem endsLast_program (e : Event) (σ : ServerState) : EndsLast (e.program env σ) := by
  cases e with
  | request s head => exact endsLast_processIncomingRequest env s head
  | createReceiver s pkt => exact endsLast_createReceiver env s pkt σ
  | _ =>
    refine .of_returning ((within_program env _ σ).sub fun o ho => ho.ne_terminate env ?_ ?_) <;>
      exact fun _ _ => Event.noConfusion

end

/-! ## One handler at a time -/

/-- No handler is under way. -/
def Conc.Idle (C : Conc) : Prop := ∀ i, C.thread i = none

/-- Only the handler in place `i` is under way. -/
def Conc.Alone (C : Conc) (i : Nat) (e : Event) (p : Prog Bool) : Prop :=
  ∀ j, C.thread j = if j = i then some ⟨e, p⟩ else none

theorem Conc.Idle.free {C : Conc} (h : C.Idle) (e : Event) : C.Free e := by
  intro t ht
  obtain ⟨i, hi⟩ := mem_running.mp ht
  rw [h i] at hi
  cases hi

/-- A handler that begins when no other is under way is alone. -/
theorem Conc.Idle.begin {C : Conc} (h : C.Idle) (e : Event) (p : Prog Bool) (σ : ServerState) :
    (Conc.mk σ (C.threads ++ [some ⟨e, p⟩]) C.log).Alone C.threads.length e p := by
  intro j
  show (C.threads ++ [some _]).getD j none = _
  rw [getD_concat]
  split
  · rfl
  · exact h j

theorem Conc.Alone.set {C : Conc} {i : Nat} {e : Event} {p : Prog Bool} (h : C.Alone i e p)
    (x : Option Thread) (j : Nat) :
    (C.threads.set i x).getD j none = if j = i then x else none := by
  have hi : i < C.threads.length := lt_of_thread ((h i).trans (if_pos rfl))
  rw [getD_set hi]
  split
  · rfl
  · next hj => exact (h j).trans (if_neg hj)

/-- The move carries a handler on. -/
def Move.Proceeds : Move → Prop
  | .begin _ => False
  | .proceed .. => True

/-- Whenever a handler begins, no other is under way. -/
def OneByOne (env : Env) (ms : List Move) : Prop :=
  ∀ later e earlier, ms = later ++ .begin e :: earlier → (afterMoves env earlier).Idle

/-- A handler begins, and is carried on. -/
theorem OneByOne.serve {env : Env} {ms more : List Move} {e : Event} (h : OneByOne env ms)
    (hidle : (afterMoves env ms).Idle) (hmore : ∀ m ∈ more, m.Proceeds) :
    OneByOne env (more ++ .begin e :: ms) := by
  intro later e' earlier he
  induction more generalizing later with
  | nil =>
    rcases later with _ | ⟨m, later⟩
    · obtain ⟨-, rfl⟩ := List.cons.inj he
      exact hidle
    · exact h later e' earlier (List.cons.inj he).2
  | cons m more ih =>
    rcases later with _ | ⟨m', later⟩
    · obtain ⟨rfl, -⟩ := List.cons.inj he
      exact (hmore _ (List.mem_cons_self ..)).elim
    · exact ih (fun m hm => hmore m (List.mem_cons_of_mem _ hm)) later (List.cons.inj he).2

/-- **A handler that is left alone.**  It is carried to its end, and the server is then as its
program leaves it; unless the process has ended, no handler is under way any more. -/
theorem serve (env : Env) (e : Event) (i : Nat) (p : Prog Bool) :
    ∀ (ms : List Move) (w : World), EndsLast p → (afterMoves env ms).Alone i e p →
      (afterMoves env ms).server = w.server → w.server.terminated = false →
      ∃ more : List Move, (∀ m ∈ more, m.Proceeds) ∧
        (afterMoves env (more ++ ms)).server = (Proc.run (step env) p w).2.server ∧
        ((Proc.run (step env) p w).2.server.terminated = false →
          (afterMoves env (more ++ ms)).Idle) := by
  have hproceeds : ∀ c : Choice, ∀ m ∈ [Move.proceed i c], m.Proceeds := by
    intro c m hm
    rw [List.mem_singleton.mp hm]
    exact trivial
  induction p with
  | ret b =>
    intro ms w _ halone hserver hlive
    have hthread : (afterMoves env ms).thread i = some ⟨e, .ret b⟩ := (halone i).trans (if_pos rfl)
    have hmove : afterMoves env ([.proceed i {}] ++ ms) =
        { afterMoves env ms with
          threads := (afterMoves env ms).threads.set i none
          log := .ended e b :: (afterMoves env ms).log } := by
      show (afterMoves env ms).next env (.proceed i {}) = _
      rw [Conc.next, if_neg (by rw [hserver, hlive]; simp), hthread]
    refine ⟨[.proceed i {}], hproceeds _, ?_, fun _ j => ?_⟩
    · rw [hmove]
      exact hserver
    · rw [hmove]
      exact (halone.set none j).trans (by simp)
  | op o k ih =>
    intro ms w hlast halone hserver hlive
    have hthread : (afterMoves env ms).thread i = some ⟨e, .op o k⟩ :=
      (halone i).trans (if_pos rfl)
    have hmove : afterMoves env ([.proceed i (w.tape 0)] ++ ms) =
        (afterMoves env ms).performed env i (w.tape 0) e o k := by
      show (afterMoves env ms).next env (.proceed i (w.tape 0)) = _
      rw [Conc.next, if_neg (by rw [hserver, hlive]; simp), hthread]
    have hthen : (afterMoves env ([.proceed i (w.tape 0)] ++ ms)).server =
        (step env o w).2.server := by
      rw [hmove, Conc.performed, hserver]
      rfl
    by_cases ho : o = .terminate
    · -- the process has ended, and what is left of the program performs nothing
      obtain ⟨b, hb⟩ := (hlast (step env o w).1).1 ho
      refine ⟨[.proceed i (w.tape 0)], hproceeds _, ?_, fun h => ?_⟩
      · rw [hthen, Proc.run_op, hb]
        rfl
      · rw [Proc.run_op, hb] at h
        subst ho
        cases h
    · obtain ⟨more, hmore, hrest⟩ :=
        ih (step env o w).1 ([.proceed i (w.tape 0)] ++ ms) (step env o w).2 (hlast _).2
        (by
          rw [hmove]
          intro j
          have hset :=
            halone.set (some ⟨e, k (exec env o (w.tape 0) (afterMoves env ms).server).1⟩) j
          rw [hserver] at hset
          rw [Conc.performed, hserver]
          exact hset)
        hthen ((terminated_exec env ho (w.tape 0) w.server).trans hlive)
      refine ⟨more ++ [.proceed i (w.tape 0)], fun m hm => ?_, ?_⟩
      · rcases List.mem_append.mp hm with hold | hnew
        · exact hmore m hold
        · exact hproceeds _ m hnew
      · rw [List.append_assoc]
        exact hrest

/-! ## Runs -/

/-- Both forms of a handler leave the same state. -/
theorem run_program (env : Env) (e : Event) (σ : ServerState) (w : World) :
    (Proc.run (step env) (e.program env σ) w).2 = (Proc.run (step env) (e.handler env σ) w).2 := by
  cases e <;> simp only [Event.program, Event.handler, Proc.run_bind, Proc.run_pure]

theorem terminated_note (σ : ServerState) (e : Event) :
    (e.note σ).terminated = σ.terminated := by
  cases e <;> rfl

/-- **The two levels.**  Every state to which a run of whole handlers leads is one to which
moves of interleaved handlers lead, with every handler over before the next one begins, and as
long as the process runs, no handler is then under way. -/
theorem interleaves (env : Env) (tr : List Act) :
    ∃ ms, OneByOne env ms ∧ (afterMoves env ms).server = after env tr ∧
      ((after env tr).terminated = false → (afterMoves env ms).Idle) := by
  induction tr with
  | nil => exact ⟨[], fun _ _ _ he => absurd he.symm (by simp), rfl, fun _ _ => rfl⟩
  | cons a tr ih =>
    obtain ⟨ms, hserial, hserver, hidle⟩ := ih
    by_cases hp : a.Possible (after env tr)
    swap
    · rw [after_cons, next_of_not_possible hp]
      exact ⟨ms, hserial, hserver, hidle⟩
    have hbegin : afterMoves env (.begin a.event :: ms) =
        { afterMoves env ms with
          server := a.event.note (after env tr)
          threads := (afterMoves env ms).threads ++
            [some ⟨a.event, a.event.program env (after env tr)⟩] } := by
      show (afterMoves env ms).next env (.begin a.event) = _
      rw [Conc.next, hserver, if_pos ⟨hp.1, hp.2, (hidle hp.1).free a.event⟩]
    obtain ⟨more, hproceeds, hmore⟩ := serve env a.event (afterMoves env ms).threads.length
      (a.event.program env (after env tr)) (.begin a.event :: ms) (a.world (after env tr))
      (endsLast_program env a.event _)
      (by
        rw [hbegin]
        exact (hidle hp.1).begin a.event _ _)
      (by
        rw [hbegin]
        rfl)
      ((terminated_note _ a.event).trans hp.1)
    refine ⟨more ++ .begin a.event :: ms, hserial.serve (hidle hp.1) hproceeds, ?_⟩
    rw [after_cons, next_of_possible env hp, ← run_program]
    exact hmore

/-- What is shown of all interleavings holds of all runs. -/
theorem holds_after {env : Env} {P : ServerState → Prop} (h : ∀ ms, P (afterMoves env ms).server)
    (tr : List Act) : P (after env tr) := by
  obtain ⟨ms, -, hserver, -⟩ := interleaves env tr
  rw [← hserver]
  exact h ms

end ZwayServer
