import ZwayServer.Footprint
import ZwayServer.Spec

/-!
# Refused requests leave no trace

A handler that returns `false` has turned the request down.  Whatever it had read by then, it
has changed nothing, and since nobody reads what has been sent to a client, the rest of the run
goes on as if the request had never come.

* `refusal` — a request that is turned down changes nothing but what its client is sent.
* `withOutbox`, `exec_withOutbox` — what has been sent has no part in any operation.
* `Resembles` — two states that differ only in failures that were sent.
* `refused_leave_no_trace` — a run without its refused requests comes to the same.
-/

namespace ZwayServer

open ClientSession

/-! ## A request that is turned down -/

/-- Nothing has happened but that a failure was sent, or that the process has ended. -/
def Fruitless (s : SessionId) (σ σ' : ServerState) : Prop :=
  σ' = σ ∨ (∃ id code text, σ' = σ.send s (.response (.failure id code text))) ∨
    σ' = { σ with terminated := true }

section

variable (env : Env) (w : World) (s : SessionId) (head : UBJ.Object)

/-- A handler that turns nothing down returns `true`. -/
theorem fruitless_of_refused_or {out : Bool × World} (h : Refused s w out ∨ out.1 = true)
    (hfalse : out.1 = false) : Fruitless s w.server out.2.server := by
  rcases h with hrefused | htrue
  · exact Or.inr hrefused.server
  · rw [htrue] at hfalse
    cases hfalse

/-- The removal that a dispatch request asks for is what decides about its answer. -/
theorem fruitless_processDispatchRequest (hst : (w.server.sessions s).status = .loggedIn)
    (h : (Proc.run (step env) (processDispatchRequest s head) w).1 = false) :
    Fruitless s w.server (Proc.run (step env) (processDispatchRequest s head) w).2.server := by
  rw [run_processDispatchRequest env w s head hst] at h ⊢
  split at h
  · next hid =>
    have hf : (w.tape 0).fails = true := by simpa using h
    rw [if_pos hid]
    refine Or.inr (Or.inl ⟨(head.get "requestId").toInt, 0, "invalid data", ?_⟩)
    simp [World.removeRequest, World.respond, hf]
  · next hid =>
    rw [if_neg hid]
    exact Or.inl rfl

/-- The program returns `b`, whatever it is told. -/
abbrev Prog.Returns {α : Type} (b : α) (p : Prog α) : Prop :=
  Proc.Safe (fun _ => True) (fun _ _ => True) p (· = b)

theorem Prog.Returns.run {α : Type} {b : α} {p : Prog α} (h : p.Returns b) :
    (Proc.run (step env) p w).1 = b :=
  (Proc.Safe.run (P := fun _ => True) h (fun _ _ _ _ => trivial) (fun _ _ _ => trivial) trivial).2

/-- What comes before does not matter. -/
theorem Prog.Returns.after {α β : Type} {b : β} {p : Prog α} {f : α → Prog β}
    (hf : ∀ a, (f a).Returns b) : (p >>= f).Returns b := by
  induction p with
  | ret a => exact hf a
  | op o k ih => exact ⟨trivial, fun r _ => ih r⟩

theorem Prog.Returns.ite {α : Type} {b : α} {c : Prop} [Decidable c] {p q : Prog α}
    (hp : p.Returns b) (hq : q.Returns b) : Prog.Returns b (if c then p else q) := by
  split
  · exact hp
  · exact hq

/-- `setConfig` never fails. -/
theorem returns_setConfig (newConfig : UBJ.Object) : (setConfig env s newConfig).Returns true := by
  rw [setConfig]
  dsimp only
  refine .ite (.after fun _ => .after fun _ => ?_) ?_ <;>
    exact .after fun _ => .ite
      (.after fun _ => .after fun _ => .after fun _ => .ite (.after fun _ => rfl) rfl)
      (.after fun _ => .ite (.after fun _ => rfl) rfl)

/-- **Refusals.**  A handler that returns `false` has done nothing but send a failure, unless the
process has ended. -/
theorem refusal (h : (Proc.run (step env) (processIncomingRequest env s head) w).1 = false) :
    Fruitless s w.server (Proc.run (step env) (processIncomingRequest env s head) w).2.server := by
  cases ht : env.decode (head.get "requestType").toInt with
  | none =>
    rw [processIncomingRequest, ht]
    exact Or.inl rfl
  | some t =>
    by_cases hgate : t ≠ .createAccount ∧ t ≠ .login ∧ (w.server.sessions s).status ≠ .loggedIn
    · rw [run_notPermitted ht hgate.1 hgate.2.1 hgate.2.2]
      exact Or.inr (Or.inl ⟨_, _, _, rfl⟩)
    simp only [processIncomingRequest, ht] at h ⊢
    cases t with
    | createAccount =>
      have hrun := run_processCreateAccount env w s head
      split at hrun
      · exact Or.inr hrun.server
      · dsimp only at h ⊢
        rw [hrun] at h ⊢
        split at h
        · next hf =>
          rw [if_pos hf]
          exact Or.inr (Or.inl ⟨_, _, _, rfl⟩)
        · cases h
    | login =>
      refine fruitless_of_refused_or w s ?_ h
      have hrun := run_processLogin env w s head
      split at hrun
      · exact Or.inl hrun
      · exact Or.inr (congrArg Prod.fst hrun)
    | addContact =>
      refine fruitless_of_refused_or w s ?_ h
      have hrun := run_processAddContactRequest env w s head
      split at hrun
      · exact Or.inl hrun
      · obtain ⟨data, hrun⟩ := hrun
        exact Or.inr (congrArg Prod.fst hrun)
    | createAddCode =>
      refine fruitless_of_refused_or w s ?_ h
      have hrun := run_processCreateAddCode env w s head
      split at hrun
      · exact Or.inl hrun
      · obtain ⟨data, hrun⟩ := hrun
        exact Or.inr (congrArg Prod.fst hrun)
    | acceptContact =>
      refine fruitless_of_refused_or w s ?_ h
      have hrun := run_processAcceptContact env w s head
      split at hrun
      · exact Or.inl hrun
      · obtain ⟨data, hrun⟩ := hrun
        exact Or.inr (congrArg Prod.fst hrun)
    | rejectContact =>
      refine fruitless_of_refused_or w s ?_ h
      have hrun := run_processRejectContact env w s head
      split at hrun
      · exact Or.inl hrun
      · exact Or.inr (congrArg Prod.fst hrun)
    | dispatch =>
      have hst : (w.server.sessions s).status = .loggedIn := by simpa using hgate
      exact fruitless_processDispatchRequest env w s head hst h
    | push =>
      dsimp only at h
      have hst : (w.server.sessions s).status = .loggedIn := by simpa using hgate
      obtain ⟨data, hrun⟩ := run_processPushRequest env w s head hst
      rw [hrun] at h
      cases h
    | logout =>
      have hst : (w.server.sessions s).status = .loggedIn := by simpa using hgate
      simp [processLogout, Proc.run_bind, hst] at h
    | config =>
      have hst : (w.server.sessions s).status = .loggedIn := by simpa using hgate
      simp [processConfigRequest, Proc.run_bind, hst, (returns_setConfig env s _).run,
        Proc.run_ite] at h
      split at h <;> cases h
    | contactStatus =>
      have hst : (w.server.sessions s).status = .loggedIn := by simpa using hgate
      simp [processContactStatusRequest, Proc.run_bind, hst] at h
    | findContact =>
      have hst : (w.server.sessions s).status = .loggedIn := by simpa using hgate
      refine fruitless_of_refused_or w s ?_ h
      dsimp only
      rw [processFindContactRequest, Proc.run_bind, Proc.run_perform, step_status, Proc.run_ite,
        if_neg (by simp [hst])]
      cases hquery : head.hasField "query" with
      | false => exact Or.inl (refused_fail s w w rfl rfl _ _ _)
      | true =>
        refine Or.inr (Prog.Returns.run env w ?_)
        rw [if_neg (by decide)]
        exact .ite (.after fun _ => .after fun _ => .after fun _ => rfl)
          (.after fun _ => .after fun _ => rfl)

end

/-! ## What has been sent is not read -/

/-- The state with other messages sent. -/
def ServerState.withOutbox (σ : ServerState) (f : SessionId → List Message) : ServerState :=
  { σ with sessions := fun s => { σ.sessions s with outbox := f s } }

/-- A change of a session sends certain messages, and does not read what has been sent. -/
theorem outbox_edit {o : Op} {c : Choice} {s : SessionId} {f : Session → Session}
    (h : o.edit c = some (s, f)) : ∃ ms, ∀ (x : Session) (old : List Message),
      f { x with outbox := old } = { f x with outbox := old ++ ms } ∧
        (f x).outbox = x.outbox ++ ms := by
  cases o with
  | respond t r =>
    obtain ⟨-, rfl⟩ := Prod.mk.inj (Option.some.inj h)
    exact ⟨[.response r], fun _ _ => ⟨rfl, rfl⟩⟩
  | postRequest t p =>
    obtain ⟨-, rfl⟩ := Prod.mk.inj (Option.some.inj h)
    exact ⟨[.request p.type p.id p.head], fun _ _ => ⟨rfl, rfl⟩⟩
  | addUbjSender t head =>
    obtain ⟨-, rfl⟩ := Prod.mk.inj (Option.some.inj h)
    exact ⟨[.ubj head], fun _ _ => ⟨rfl, rfl⟩⟩
  | setStatus | setAccountId | clearContacts | putContact | setConfig | takePosted =>
    obtain ⟨-, rfl⟩ := Prod.mk.inj (Option.some.inj h)
    exact ⟨[], fun _ _ => by simp⟩
  | addReceiver | addEngineSender =>
    rw [Op.edit] at h
    split at h <;> cases h
    exact ⟨[], fun _ _ => by simp⟩
  | _ => cases h

section

variable (env : Env) (c : Choice) (σ : ServerState) (f : SessionId → List Message)

/-- No operation reads what has been sent. -/
theorem answer_withOutbox (o : Op) : (exec env o c (σ.withOutbox f)).1 = (exec env o c σ).1 := by
  cases o with
  | findAccount =>
    simp only [exec]
    split
    · rfl
    · simp only [dbCall]
      split <;> rfl
  | findAccounts =>
    simp only [exec]
    split <;> rfl
  | maxAccountId | insertAccount | setFcmToken | findRequest | inboxRequests | countRequests
  | insertRequest | removeRequest =>
    simp only [exec, dbCall]
    split <;> rfl
  | addReceiver | addEngineSender | fopenAppend =>
    simp only [exec]
    split <;> rfl
  | _ => rfl

/-- An operation that changes no session leaves everything else as it does otherwise. -/
theorem exec_withOutbox_of_none {o : Op} (h : o.edit c = none) :
    (exec env o c (σ.withOutbox f)).2 = (exec env o c σ).2.withOutbox f := by
  by_cases hreads : o.Reads
  · rw [exec_of_reads env hreads, exec_of_reads env hreads]
  cases o with
  | insertAccount | setFcmToken | insertRequest | removeRequest =>
    simp only [exec, dbCall]
    split <;> rfl
  | fopenAppend =>
    simp only [exec]
    split <;> rfl
  | addReceiver | addEngineSender =>
    rw [Op.edit] at h
    simp only [exec]
    split <;> simp_all
  | removeSession s =>
    show (σ.withOutbox f).removeSession s = (σ.removeSession s).withOutbox f
    by_cases hmem : (σ.sessions s).accountId ∈ σ.registry <;>
      simp [ServerState.removeSession, ServerState.withOutbox, ServerState.getSessions, hmem]
  | _ => first | rfl | exact absurd trivial hreads | cases h

/-- **One operation.**  It answers the same, and sends the same. -/
theorem exec_withOutbox (o : Op) : ∃ ms : SessionId → List Message,
    (exec env o c (σ.withOutbox f)).2 = (exec env o c σ).2.withOutbox (fun s => f s ++ ms s) ∧
      ∀ s, ((exec env o c σ).2.sessions s).outbox = (σ.sessions s).outbox ++ ms s := by
  cases he : o.edit c with
  | none =>
    refine ⟨fun _ => [], ?_, fun s => ?_⟩
    · simpa using exec_withOutbox_of_none env c σ f he
    · rw [sessions_exec_of_none he, List.append_nil]
  | some e =>
    obtain ⟨t, g⟩ := e
    obtain ⟨ms, hms⟩ := outbox_edit he
    refine ⟨fun s => if s = t then ms else [], ?_, fun s => ?_⟩
    · rw [exec_of_edit he, exec_of_edit he]
      show { σ with sessions := _ } = { σ with sessions := _ }
      congr 1
      funext s
      by_cases hs : s = t
      · subst hs
        simp [ServerState.withOutbox, (hms (σ.sessions s) (f s)).1]
      · simp [ServerState.withOutbox, hs]
    · rw [exec_of_edit he, ServerState.sessions_modify]
      by_cases hs : s = t
      · subst hs
        rw [if_pos rfl]
        dsimp only
        rw [if_pos rfl]
        exact (hms _ []).2
      · rw [if_neg hs]
        dsimp only
        rw [if_neg hs, List.append_nil]

end

/-! ## States that differ in failures that were sent -/

/-- Not a failure. -/
def Message.isKept : Message → Bool
  | .response (.failure ..) => false
  | _ => true

/-- Everything is the same, and so is what has been sent, but for failures. -/
def Resembles (σ σ' : ServerState) : Prop :=
  ∃ f, σ' = σ.withOutbox f ∧ ∀ s, (f s).filter Message.isKept =
    (σ.sessions s).outbox.filter Message.isKept

namespace Resembles

variable {env : Env} {σ σ' σ'' : ServerState}

theorem refl (σ : ServerState) : Resembles σ σ :=
  ⟨fun s => (σ.sessions s).outbox, rfl, fun _ => rfl⟩

theorem trans (h : Resembles σ σ') (h' : Resembles σ' σ'') : Resembles σ σ'' := by
  obtain ⟨f, rfl, hf⟩ := h
  obtain ⟨g, rfl, hg⟩ := h'
  exact ⟨g, rfl, fun s => (hg s).trans (hf s)⟩

/-- A failure makes no difference. -/
theorem send (σ : ServerState) (s : SessionId) (id code : UInt32) (text : String) :
    Resembles σ (σ.send s (.response (.failure id code text))) := by
  refine ⟨fun t => if t = s then (σ.sessions t).outbox ++ [.response (.failure id code text)]
    else (σ.sessions t).outbox, ?_, fun t => ?_⟩
  · show { σ with sessions := _ } = { σ with sessions := _ }
    congr 1
    funext t
    by_cases ht : t = s
    · subst ht
      simp
    · simp [ht]
  · dsimp only
    split
    · rw [List.filter_append]
      exact List.append_nil _
    · rfl

/-- Operations are answered alike, and keep the resemblance. -/
theorem exec (h : Resembles σ σ') (o : Op) (c : Choice) :
    (ZwayServer.exec env o c σ').1 = (ZwayServer.exec env o c σ).1 ∧
      Resembles (ZwayServer.exec env o c σ).2 (ZwayServer.exec env o c σ').2 := by
  obtain ⟨f, rfl, hf⟩ := h
  obtain ⟨ms, hstate, hsent⟩ := exec_withOutbox env c σ f o
  refine ⟨answer_withOutbox env c σ f o, _, hstate, fun s => ?_⟩
  rw [hsent, List.filter_append, List.filter_append, hf]

/-- So a program does the same in both states. -/
theorem run {α : Type} (p : Prog α) {w w' : World} (h : Resembles w.server w'.server)
    (htape : w'.tape = w.tape) : (Proc.run (step env) p w').1 = (Proc.run (step env) p w).1 ∧
      Resembles (Proc.run (step env) p w).2.server (Proc.run (step env) p w').2.server := by
  induction p generalizing w w' with
  | ret a => exact ⟨rfl, h⟩
  | op o k ih =>
    obtain ⟨hanswer, hstate⟩ := @Resembles.exec env _ _ h o (w.tape 0)
    have hsame : (step env o w').1 = (step env o w).1 := by
      show (ZwayServer.exec env o (w'.tape 0) w'.server).1 = _
      rw [htape]
      exact hanswer
    rw [Proc.run_op, Proc.run_op, hsame]
    refine ih _ ?_ ?_
    · show Resembles _ (ZwayServer.exec env o (w'.tape 0) w'.server).2
      rw [htape]
      exact hstate
    · show (if o.draws then fun n => w'.tape (n + 1) else w'.tape) = _
      rw [htape]
      rfl

/-- Whether a step takes place is the same. -/
theorem possible_iff (h : Resembles σ σ') (a : Act) : a.Possible σ' ↔ a.Possible σ := by
  obtain ⟨f, rfl, -⟩ := h
  cases a with
  | mk event tape => cases event <;> exact Iff.rfl

/-- What is noted at the start of a step is the same. -/
theorem note (h : Resembles σ σ') (e : Event) : Resembles (e.note σ) (e.note σ') := by
  obtain ⟨f, rfl, hf⟩ := h
  refine ⟨f, ?_, fun s => ?_⟩
  · cases e with
    | connect t | handshake t error =>
      show { σ with sessions := _ } = { σ with sessions := _ }
      congr 1
      funext s
      by_cases hs : s = t
      · subst hs
        simp [Event.note, ServerState.withOutbox]
      · simp [Event.note, ServerState.withOutbox, hs]
    | _ => rfl
  · rw [hf]
    cases e with
    | connect t | handshake t error => by_cases hs : s = t <;> simp [Event.note, hs]
    | _ => rfl

/-- **One step** keeps the resemblance. -/
theorem next (h : Resembles σ σ') (a : Act) :
    Resembles (ZwayServer.next env σ a) (ZwayServer.next env σ' a) := by
  by_cases hp : a.Possible σ
  · rw [next_of_possible env hp, next_of_possible env ((h.possible_iff a).mpr hp)]
    have hhandler : a.event.handler env σ' = a.event.handler env σ := by
      obtain ⟨f, rfl, -⟩ := h
      cases a.event <;> rfl
    rw [hhandler]
    have hworld : Resembles (a.world σ).server (a.world σ').server := h.note a.event
    exact (Resembles.run _ hworld rfl).2
  · rw [next_of_not_possible hp, next_of_not_possible fun h' => hp ((h.possible_iff a).mp h')]
    exact h

end Resembles

/-! ## Runs without refused requests -/

/-- The step is a request that is turned down, and the process goes on. -/
def refuses (env : Env) (σ : ServerState) (a : Act) : Bool :=
  match a.event with
  | .request s head =>
    decide (a.Possible σ) && !(Prog.runOn env (processIncomingRequest env s head) a.tape σ).1 &&
      !(next env σ a).terminated
  | _ => false

/-- The run without its refused requests. -/
def withoutRefused (env : Env) : List Act → List Act
  | [] => []
  | a :: tr =>
    if refuses env (after env tr) a then withoutRefused env tr else a :: withoutRefused env tr

/-- A refused request makes no difference. -/
theorem resembles_of_refuses {env : Env} {σ : ServerState} {a : Act} (h : refuses env σ a = true) :
    Resembles σ (next env σ a) := by
  obtain ⟨event, tape⟩ := a
  cases event with
  | request s head =>
    simp only [refuses, Bool.and_eq_true, Bool.not_eq_eq_eq_not, Bool.not_true,
      decide_eq_true_eq] at h
    obtain ⟨⟨hp, hfalse⟩, hlive⟩ := h
    rw [next_request_eq env hp] at hlive ⊢
    rcases refusal env ⟨σ, tape, []⟩ s head hfalse with hsame | ⟨id, code, text, hsent⟩ | hend
    · rw [hsame]
      exact .refl σ
    · rw [hsent]
      exact .send σ s id code text
    · rw [hend] at hlive
      cases hlive
  | _ => cases h

/-- **Refused requests leave no trace.**  Every run comes to the same without them: the state is
the same, and every client has been sent the same, but for the failures. -/
theorem refused_leave_no_trace (env : Env) (tr : List Act) :
    Resembles (after env (withoutRefused env tr)) (after env tr) := by
  induction tr with
  | nil => exact .refl _
  | cons a tr ih =>
    rw [withoutRefused, after_cons]
    split
    · next h => exact ih.trans (resembles_of_refuses h)
    · exact ih.next a

/-- A push without a login is refused. -/
example : (withoutRefused sampleEnv (samplePush 0 7 1 :: sampleConnect 0)).length = 2 := by
  decide +kernel

end ZwayServer
