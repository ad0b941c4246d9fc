import ZwayServer.Crash
import ZwayServer.Storing

/-!
# One answer for each request

A client waits for the answer to each of its requests, under the number that it gave it.  The
handlers have many ways out, and each of them should post one response: success where the
handler returns `true`, and failure where it returns `false`.

* `answering` — what a handler may do before its response and after it.
* `AnswersOnce` — a handler that posts its one response, or ends the process before that.
* `answers_process…` — eleven of the twelve handlers do, and so does the one for dispatches if
  there is something to dispatch.
* `answeredOnce_iff` — a request is answered once exactly if it does not end the process and is
  no dispatch of nothing.
-/

namespace ZwayServer

open ClientSession

/-! ## Responses -/

/-- The request that a response answers. -/
def Response.requestId : Response → UInt32
  | .success id _ => id
  | .failure id .. => id

/-- Does the response report a success? -/
def Response.succeeds : Response → Bool
  | .success .. => true
  | .failure .. => false

/-- The responses among the messages. -/
def responses (ms : List Message) : List Response :=
  ms.filterMap fun
    | .response r => some r
    | .request .. | .ubj _ => none

/-- The responses posted by the session `t` between `σ` and `σ'`. -/
def newResponses (σ σ' : ServerState) (t : SessionId) : List Response :=
  responses (newMessages σ σ' t)

/-- The session `s` posts one response to the request: a success if the handler returns `true`,
and otherwise a failure.  No other session posts any. -/
structure AnsweredOnce (env : Env) (σ : ServerState) (s : SessionId) (head : UBJ.Object)
    (tape : Nat → Choice) : Prop where
  answer : ∃ r,
    newResponses σ (Prog.runOn env (processIncomingRequest env s head) tape σ).2 s = [r] ∧
      r.requestId = (head.get "requestId").toInt ∧
      r.succeeds = (Prog.runOn env (processIncomingRequest env s head) tape σ).1
  others : ∀ t, t ≠ s →
    newResponses σ (Prog.runOn env (processIncomingRequest env s head) tape σ).2 t = []

/-! ## Handlers that answer -/

/-- Where a handler is with its answer. -/
inductive Answering where
  | waiting
  | answered (r : Response)
  | ended

/-- The response that was posted. -/
def Answering.posted : Answering → List Response
  | .answered r => [r]
  | .waiting | .ended => []

/-- A response is posted by the session `s`, to the request `id`, and only once; and the process
ends only before that. -/
def answering (s : SessionId) (id : UInt32) : Op → Answering → Option Answering
  | .respond t r, .waiting => if t = s ∧ r.requestId = id then some (.answered r) else none
  | .respond .., _ => none
  | .terminate, .waiting => some .ended
  | .terminate, _ => none
  | _, m => some m

/-- The operations that answer nothing. -/
@[simp] def Op.Silent : Op → Prop
  | .respond .. | .terminate => False
  | _ => True

/-- The program ends the process, or posts one response to the request of the head, with what
it returns. -/
def AnswersOnce (s : SessionId) (head : UBJ.Object) (p : Prog Bool) : Prop :=
  Proc.Follows (answering s (head.get "requestId").toInt) p .waiting fun b m =>
    m = .ended ∨ ∃ r, m = .answered r ∧ r.succeeds = b

section

variable {s : SessionId} {head : UBJ.Object} {id : UInt32} {m : Answering} {α : Type}

theorem answering_silent {o : Op} (h : o.Silent) : answering s id o m = some m := by
  cases o <;> first | exact h.elim | (cases m <;> rfl)

/-- A part that answers nothing, and the rest. -/
theorem AnswersOnce.skip {p : Prog α} {f : α → Prog Bool} (hp : Proc.Within Op.Silent p)
    (hf : ∀ a, AnswersOnce s head (f a)) : AnswersOnce s head (p >>= f) :=
  Proc.follows_bind.mpr (.of_within hp (fun _ _ ho => answering_silent ho) hf)

theorem AnswersOnce.ite {c : Prop} [Decidable c] {p q : Prog Bool} (hp : c → AnswersOnce s head p)
    (hq : ¬ c → AnswersOnce s head q) : AnswersOnce s head (if c then p else q) := by
  split
  · next h => exact hp h
  · next h => exact hq h

theorem AnswersOnce.fail (code : UInt32) (text : String) : AnswersOnce s head (do
    postRequestFailure s (head.get "requestId").toInt code text
    return false) :=
  ⟨.answered (.failure _ code text), if_pos ⟨rfl, rfl⟩, fun _ => Or.inr ⟨_, rfl, rfl⟩⟩

/-- After a success, the program returns `true` and answers nothing more. -/
theorem AnswersOnce.succeed (data : UBJ.Object) {rest : Prog Bool}
    (hrest : Proc.Safe Op.Silent (fun _ _ => True) rest (· = true)) : AnswersOnce s head (do
      postRequestSuccess s (head.get "requestId").toInt data
      rest) := by
  refine ⟨.answered (.success _ data), if_pos ⟨rfl, rfl⟩, fun _ => ?_⟩
  show Proc.Follows _ rest _ _
  induction rest with
  | ret b => exact Or.inr ⟨_, rfl, hrest.symm⟩
  | op o k ih => exact ⟨_, answering_silent hrest.1, fun r => ih r (hrest.2 r trivial)⟩

theorem AnswersOnce.die : AnswersOnce s head (do
    Proc.perform Op.terminate
    return false) :=
  ⟨.ended, rfl, fun _ => Or.inl rfl⟩

end

/-! ## The twelve handlers -/

section

variable (env : Env) (s : SessionId) (head : UBJ.Object)

theorem silent_getContactStatus (id : UInt32) :
    Proc.Within Op.Silent (getContactStatus id) :=
  within_getContactStatus (fun _ => trivial) (fun _ => trivial) id

theorem silent_contactStatusList : Proc.Within Op.Silent (contactStatusList s) :=
  within_contactStatusList (fun _ => trivial) (fun _ => trivial) (fun _ => trivial) s

theorem silent_setConfig (newConfig : UBJ.Object) :
    Proc.Within Op.Silent (setConfig env s newConfig) := by
  refine (within_setConfig env s newConfig).sub fun o ho => ?_
  cases o <;> first | exact trivial | exact ho.elim

theorem silent_broadcastStatus (status : UInt32) (check : Bool) :
    Proc.Within Op.Silent (broadcastStatus env s status check) := by
  refine (within_broadcastStatus env s status check).sub fun o ho => ?_
  cases o <;> first | exact trivial | exact ho.elim

theorem silent_processRequests : Proc.Within Op.Silent (processRequests env s) := by
  refine (within_processRequests env s).sub fun o ho => ?_
  cases o <;> first | exact trivial | exact ho.elim

/-- A dispatch is answered if it names something to dispatch. -/
theorem answers_processDispatchRequest (h : head.hasField "dispatchId" = true) :
    AnswersOnce s head (processDispatchRequest s head) := by
  rw [processDispatchRequest]
  apply AnswersOnce.skip (by simp)
  intro st
  apply AnswersOnce.ite
  · exact fun _ => .fail _ _
  · intro _
    rw [if_pos h]
    apply AnswersOnce.skip (by simp)
    intro x
    apply AnswersOnce.skip (by simp)
    intro deleted
    apply AnswersOnce.ite
    · exact fun _ => .fail _ _
    · exact fun _ => .succeed _ rfl

theorem answers_processCreateAccount : AnswersOnce s head (processCreateAccount env s head) := by
  rw [processCreateAccount]
  apply AnswersOnce.skip (by simp)
  intro st
  refine .ite (fun _ => .fail _ _) fun _ => ?_
  refine .ite (fun _ => .fail _ _) fun _ => ?_
  refine .ite (fun _ => .fail _ _) fun _ => ?_
  apply AnswersOnce.skip (by simp)
  intro found
  refine .ite (fun _ => .fail _ _) fun _ => ?_
  apply AnswersOnce.skip (by simp)
  intro accountId
  apply AnswersOnce.skip (by simp)
  intro salt
  apply AnswersOnce.skip (by simp)
  intro inserted
  refine .ite (fun _ => .fail _ _) fun _ => ?_
  exact .succeed _ rfl

theorem answers_afterLogin (x : UInt32) : AnswersOnce s head (do
    afterLogin env s head x
    return true) := by
  have hrest : AnswersOnce s head (do
      answerLogin env s head x
      return true) := by
    simp only [answerLogin, bind_assoc, pure_bind]
    apply AnswersOnce.skip (silent_contactStatusList s)
    intro status
    apply AnswersOnce.skip (by simp [DB.getInbox, forall_answer])
    intro inbox
    apply AnswersOnce.succeed
    exact Proc.safe_bind.mpr ((silent_processRequests env s).safe fun _ => rfl)
  rw [afterLogin_eq]
  split
  · rw [bind_assoc]
    exact AnswersOnce.skip (silent_setConfig env s _) fun _ => hrest
  · exact hrest

theorem answers_processLogin : AnswersOnce s head (processLogin env s head) := by
  rw [processLogin]
  apply AnswersOnce.skip (by simp)
  intro st
  refine .ite (fun _ => .fail _ _) fun _ => ?_
  refine .ite (fun _ => .fail _ _) fun _ => ?_
  refine .ite (fun _ => .fail _ _) fun _ => ?_
  apply AnswersOnce.skip (by simp)
  intro found
  cases found with
  | none => exact .fail _ _
  | some account =>
    dsimp only
    split
    · exact .die
    · exact .fail _ _
    · apply AnswersOnce.skip (by simp)
      intro _
      apply AnswersOnce.skip (by simp)
      intro _
      apply AnswersOnce.skip (by simp)
      intro _
      apply AnswersOnce.skip (by simp)
      intro _
      exact answers_afterLogin env s head _

theorem answers_processLogout : AnswersOnce s head (processLogout env s head) := by
  rw [processLogout]
  apply AnswersOnce.skip (by simp)
  intro st
  refine .ite (fun _ => .fail _ _) fun _ => ?_
  apply AnswersOnce.succeed
  have hbroadcast := (silent_broadcastStatus env s 0 true).safe (R := fun _ _ => True)
    (Q := fun _ => True) fun _ => trivial
  simp [hbroadcast]

theorem answers_processConfigRequest : AnswersOnce s head (processConfigRequest env s head) := by
  rw [processConfigRequest]
  apply AnswersOnce.skip (by simp)
  intro st
  refine .ite (fun _ => .fail _ _) fun _ => .ite (fun _ => ?_) fun _ => .succeed _ rfl
  apply AnswersOnce.skip (silent_setConfig env s _)
  intro set
  exact .ite (fun _ => .fail _ _) fun _ => .succeed _ rfl

theorem answers_processContactStatusRequest :
    AnswersOnce s head (processContactStatusRequest s head) := by
  rw [processContactStatusRequest]
  apply AnswersOnce.skip (by simp)
  intro st
  refine .ite (fun _ => .fail _ _) fun _ => ?_
  apply AnswersOnce.skip (silent_contactStatusList s)
  intro status
  exact .succeed _ rfl

theorem answers_processFindContactRequest :
    AnswersOnce s head (processFindContactRequest s head) := by
  rw [processFindContactRequest]
  apply AnswersOnce.skip (by simp)
  intro st
  refine .ite (fun _ => .fail _ _) fun _ => ?_
  refine .ite (fun _ => .fail _ _) fun _ => .ite (fun _ => ?_) fun _ => ?_
  · apply AnswersOnce.skip (by simp)
    intro x
    apply AnswersOnce.skip (by simp)
    intro contacts
    exact .succeed _ rfl
  · exact AnswersOnce.skip trivial fun contacts => .succeed _ rfl

theorem answers_addContactTo (account : Account) (q : AccountQuery) :
    AnswersOnce s head (addContactTo s head account q) := by
  rw [addContactTo]
  apply AnswersOnce.skip (by simp)
  intro found
  cases found with
  | none => exact .fail _ _
  | some contact =>
    apply AnswersOnce.skip (by simp)
    intro x
    refine .ite (fun _ => .fail _ _) fun _ => ?_
    apply AnswersOnce.skip (by simp)
    intro src
    apply AnswersOnce.skip (by simp)
    intro pending
    refine .ite (fun _ => .fail _ _) fun _ => ?_
    cases publicKeyOf head with
    | none => exact .fail _ _
    | some publicKey =>
      apply AnswersOnce.skip (by simp)
      intro y
      apply AnswersOnce.skip (by simp)
      intro added
      refine .ite (fun _ => .fail _ _) fun _ => .ite (fun _ => ?_) fun _ => ?_
      · apply AnswersOnce.skip (by simp)
        intro deleted
        exact .succeed _ (by simp)
      · exact .succeed _ (by simp)

theorem answers_processAddContactRequest :
    AnswersOnce s head (processAddContactRequest s head) := by
  rw [processAddContactRequest]
  apply AnswersOnce.skip (by simp)
  intro st
  refine .ite (fun _ => .fail _ _) fun _ => ?_
  apply AnswersOnce.skip (by simp)
  intro x
  apply AnswersOnce.skip (by simp)
  intro found
  cases found with
  | none => exact .fail _ _
  | some account =>
    refine .ite (fun _ => ?_) fun _ => ?_
    · apply AnswersOnce.skip (by simp)
      intro request
      cases request with
      | none => exact .fail _ _
      | some request => exact answers_addContactTo s head account _
    · exact .ite (fun _ => .fail _ _) fun _ => answers_addContactTo s head account _

theorem answers_processCreateAddCode : AnswersOnce s head (processCreateAddCode s head) := by
  rw [processCreateAddCode]
  apply AnswersOnce.skip (by simp)
  intro st
  refine .ite (fun _ => .fail _ _) fun _ => ?_
  cases publicKeyOf head with
  | none => exact .fail _ _
  | some publicKey =>
    apply AnswersOnce.skip (by simp)
    intro x
    apply AnswersOnce.skip (by simp)
    intro found
    cases found with
    | none => exact .fail _ _
    | some account =>
      apply AnswersOnce.skip (by simp)
      intro word
      apply AnswersOnce.skip (by simp)
      intro y
      apply AnswersOnce.skip (by simp)
      intro added
      exact .ite (fun _ => .fail _ _) fun _ => .succeed _ rfl

theorem answers_processAcceptContact : AnswersOnce s head (processAcceptContact s head) := by
  rw [processAcceptContact]
  apply AnswersOnce.skip (by simp)
  intro st
  refine .ite (fun _ => .fail _ _) fun _ => ?_
  apply AnswersOnce.skip (by simp)
  intro x
  apply AnswersOnce.skip (by simp)
  intro request
  cases request with
  | none => exact .fail _ _
  | some request =>
    apply AnswersOnce.skip (by simp)
    intro y
    apply AnswersOnce.skip (by simp)
    intro found
    cases found with
    | none => exact .fail _ _
    | some account =>
      dsimp only
      -- a record without a public key ends the process before any answer
      split
      · exact .die
      · cases publicKeyOf head with
        | none => exact .fail _ _
        | some publicKey =>
          apply AnswersOnce.skip (by simp)
          intro z
          apply AnswersOnce.skip (by simp)
          intro added
          refine .ite (fun _ => .fail _ _) fun _ => ?_
          apply AnswersOnce.skip (silent_getContactStatus request.src)
          intro contactStatus
          exact .succeed _ (by simp)

theorem answers_processRejectContact : AnswersOnce s head (processRejectContact s head) := by
  rw [processRejectContact]
  apply AnswersOnce.skip (by simp)
  intro st
  refine .ite (fun _ => .fail _ _) fun _ => ?_
  apply AnswersOnce.skip (by simp)
  intro x
  apply AnswersOnce.skip (by simp)
  intro request
  cases request with
  | none => exact .fail _ _
  | some request =>
    apply AnswersOnce.skip (by simp)
    intro y
    apply AnswersOnce.skip (by simp)
    intro added
    exact .ite (fun _ => .fail _ _) fun _ => .succeed _ (by simp)

/-- The loop of a push answers nothing: `addRequest` is never reported to have failed. -/
theorem silent_pushKeys (id : UInt32) (forward : UBJ.Object) (keys : List UBJ.Value) :
    Proc.Within Op.Silent (pushKeys s id forward keys) := by
  induction keys generalizing forward with
  | nil => exact trivial
  | cons it keys ih => simp [pushKeys, ih]

theorem answers_processPushRequest : AnswersOnce s head (processPushRequest s head) := by
  rw [processPushRequest]
  apply AnswersOnce.skip (by simp)
  intro st
  refine .ite (fun _ => .fail _ _) fun _ => ?_
  apply AnswersOnce.skip (by simp)
  intro x
  apply AnswersOnce.skip (silent_pushKeys s _ _ _)
  intro _
  exact .succeed _ rfl

end

/-! ## What a handler has posted -/

@[simp] theorem responses_append (ms ms' : List Message) :
    responses (ms ++ ms') = responses ms ++ responses ms' :=
  List.filterMap_append ..

/-- The state is what the mode says, seen from the state in which the handler started. -/
structure Answering.Fits (s : SessionId) (id : UInt32) (σ : ServerState) (m : Answering)
    (σ' : ServerState) : Prop where
  running : σ'.terminated = true ↔ m = .ended
  replies : ∀ r ∈ m.posted, r.requestId = id
  posted : ∀ t, ∃ ms, (σ'.sessions t).outbox = (σ.sessions t).outbox ++ ms ∧
    responses ms = if t = s then m.posted else []

section

variable {s : SessionId} {id : UInt32} {σ σ' : ServerState} {m m' : Answering}

/-- An operation that answers nothing posts no response. -/
theorem outbox_exec_silent (env : Env) {o : Op} (h : o.Silent) (c : Choice) (σ : ServerState)
    (t : SessionId) : ∃ ms, ((exec env o c σ).2.sessions t).outbox = (σ.sessions t).outbox ++ ms ∧
      responses ms = [] := by
  cases he : o.edit c with
  | none =>
    refine ⟨[], ?_, rfl⟩
    rw [sessions_exec_of_none he, List.append_nil]
  | some e =>
    obtain ⟨u, f⟩ := e
    have hf : ∀ x : Session, ∃ ms, (f x).outbox = x.outbox ++ ms ∧ responses ms = [] := by
      intro x
      cases o with
      | respond => exact h.elim
      | postRequest | addUbjSender =>
        obtain ⟨rfl, rfl⟩ := Prod.mk.inj (Option.some.inj he)
        exact ⟨[_], rfl, rfl⟩
      | _ => exact ⟨[], by simp only [Op.edit, reduceCtorEq] at he <;> grind, rfl⟩
    rw [exec_of_edit he, ServerState.sessions_modify]
    by_cases htu : t = u
    · rw [if_pos htu, htu]
      exact hf _
    · rw [if_neg htu]
      exact ⟨[], (List.append_nil _).symm, rfl⟩

/-- An allowed operation keeps the state as the mode says. -/
theorem Answering.Fits.step {env : Env} {o : Op} {c : Choice} (h : answering s id o m = some m')
    (hσ : m.Fits s id σ σ') : m'.Fits s id σ (exec env o c σ').2 := by
  by_cases ho : o.Silent
  · rw [answering_silent ho] at h
    obtain rfl := Option.some.inj h
    have hne : o ≠ .terminate := by
      rintro rfl
      exact ho
    refine ⟨by rw [terminated_exec env hne]; exact hσ.running, hσ.replies, fun t => ?_⟩
    obtain ⟨ms, hms, hresponses⟩ := hσ.posted t
    obtain ⟨ms', hms', hresponses'⟩ := outbox_exec_silent env ho c σ' t
    refine ⟨ms ++ ms', ?_, ?_⟩
    · rw [hms', hms, List.append_assoc]
    · rw [responses_append, hresponses', List.append_nil, hresponses]
  · cases o with
    | respond u r =>
      cases m with
      | waiting =>
        rw [answering] at h
        split at h
        · next hr =>
          obtain ⟨rfl, hid⟩ := hr
          obtain rfl := Option.some.inj h
          refine ⟨?_, fun r' hr' => ?_, fun t => ?_⟩
          · rw [terminated_exec env (by simp), hσ.running]
            simp
          · rw [List.mem_singleton.mp hr']
            exact hid
          · obtain ⟨ms, hms, hresponses⟩ := hσ.posted t
            by_cases htu : t = u
            · subst htu
              refine ⟨ms ++ [.response r], ?_, ?_⟩
              · simp [exec, ServerState.send, hms]
              · rw [responses_append, hresponses, if_pos rfl, if_pos rfl]
                rfl
            · refine ⟨ms, ?_, ?_⟩
              · simp [exec, ServerState.send, htu, hms]
              · rw [hresponses, if_neg htu, if_neg htu]
        · cases h
      | answered | ended => cases h
    | terminate =>
      cases m with
      | waiting =>
        obtain rfl := Option.some.inj h
        exact ⟨iff_of_true rfl rfl, fun _ hr => absurd hr List.not_mem_nil, hσ.posted⟩
      | answered | ended => cases h
    | _ => exact absurd trivial ho

/-- What has been posted by a handler that answers once. -/
theorem AnswersOnce.run (env : Env) {head : UBJ.Object} {p : Prog Bool} (h : AnswersOnce s head p)
    {w : World} (hlive : w.server.terminated = false) :
    ∃ m : Answering, m.Fits s (head.get "requestId").toInt w.server
        (Proc.run (step env) p w).2.server ∧
      (m = .ended ∨ ∃ r, m = .answered r ∧ r.succeeds = (Proc.run (step env) p w).1) := by
  have hstart : Answering.waiting.Fits s (head.get "requestId").toInt w.server w.server := by
    refine ⟨by simp [hlive], fun _ hr => absurd hr List.not_mem_nil, fun t => ?_⟩
    refine ⟨[], (List.append_nil _).symm, ?_⟩
    split <;> rfl
  have hstep : ∀ o m m' (w' : World), answering s (head.get "requestId").toInt o m = some m' →
      m.Fits s (head.get "requestId").toInt w.server w'.server →
      m'.Fits s (head.get "requestId").toInt w.server (step env o w').2.server :=
    fun o m m' w' hm hw' => hw'.step hm
  exact Proc.Follows.run (I := step env) h hstep hstart

theorem Answering.Fits.newResponses (h : m.Fits s id σ σ') (t : SessionId) :
    newResponses σ σ' t = if t = s then m.posted else [] := by
  obtain ⟨ms, hms, hresponses⟩ := h.posted t
  rw [ZwayServer.newResponses, newMessages_of_append ms hms, hresponses]

end

/-! ## Which requests are answered once -/

/-- A dispatch that does not say what is to be dispatched, by a client that is logged in. -/
def DispatchOfNothing (env : Env) (σ : ServerState) (s : SessionId) (head : UBJ.Object) : Prop :=
  env.decode (head.get "requestType").toInt = some .dispatch ∧
    (σ.sessions s).status = .loggedIn ∧ head.hasField "dispatchId" = false

/-- Every handler answers once, but for dispatches of nothing. -/
theorem answers_processIncomingRequest {env : Env} {s : SessionId} {head : UBJ.Object}
    {t : RequestType} (ht : env.decode (head.get "requestType").toInt = some t)
    (h : t = .dispatch → head.hasField "dispatchId" = true) :
    AnswersOnce s head (processIncomingRequest env s head) := by
  simp only [processIncomingRequest, ht]
  cases t with
  | dispatch => exact answers_processDispatchRequest s head (h rfl)
  | createAccount => exact answers_processCreateAccount env s head
  | login => exact answers_processLogin env s head
  | logout => exact answers_processLogout env s head
  | config => exact answers_processConfigRequest env s head
  | addContact => exact answers_processAddContactRequest s head
  | createAddCode => exact answers_processCreateAddCode s head
  | findContact => exact answers_processFindContactRequest s head
  | acceptContact => exact answers_processAcceptContact s head
  | rejectContact => exact answers_processRejectContact s head
  | contactStatus => exact answers_processContactStatusRequest s head
  | push => exact answers_processPushRequest s head

section

variable {env : Env} {σ : ServerState} {s : SessionId} {head : UBJ.Object} {tape : Nat → Choice}

/-- A handler that answers once does so, unless it ends the process. -/
theorem answeredOnce_iff_running (hlive : σ.terminated = false)
    (h : AnswersOnce s head (processIncomingRequest env s head)) :
    AnsweredOnce env σ s head tape ↔
      (Prog.runOn env (processIncomingRequest env s head) tape σ).2.terminated = false := by
  obtain ⟨m, hfits, hm⟩ := AnswersOnce.run env h (w := ⟨σ, tape, []⟩) hlive
  constructor
  · intro hanswered
    by_contra hended
    have hmode : m = .ended := hfits.running.mp (Bool.not_eq_false _ ▸ hended)
    obtain ⟨r, hr, -⟩ := hanswered.answer
    have hnone := hfits.newResponses s
    rw [if_pos rfl, hmode] at hnone
    cases hr.symm.trans hnone
  · intro hrunning
    have hmode : m ≠ .ended := by
      intro hended
      have hterminated := hfits.running.mpr hended
      exact Bool.false_ne_true (hrunning.symm.trans hterminated)
    obtain ⟨r, rfl, hsucceeds⟩ := hm.resolve_left hmode
    refine ⟨⟨r, (hfits.newResponses s).trans (if_pos rfl),
      hfits.replies r (by simp [Answering.posted]), hsucceeds⟩, fun t ht =>
        (hfits.newResponses t).trans (if_neg ht)⟩

/-- A dispatch of nothing is answered only if the client is not logged in. -/
theorem answeredOnce_dispatch (ht : env.decode (head.get "requestType").toInt = some .dispatch)
    (hfield : head.hasField "dispatchId" = false) :
    AnsweredOnce env σ s head tape ↔ (σ.sessions s).status ≠ .loggedIn := by
  by_cases hst : (σ.sessions s).status = .loggedIn
  · have hrun : Prog.runOn env (processIncomingRequest env s head) tape σ = (false, σ) := by
      have hrun := run_processDispatchRequest env ⟨σ, tape, []⟩ s head hst
      rw [hfield, if_neg Bool.false_ne_true] at hrun
      rw [Prog.runOn, processIncomingRequest, ht]
      dsimp only
      rw [hrun]
    refine iff_of_false (fun h => ?_) (fun h => h hst)
    obtain ⟨r, hr, -⟩ := h.answer
    rw [hrun, newResponses, newMessages, List.drop_length] at hr
    cases hr
  · have hrun := run_notPermitted (w := ⟨σ, tape, []⟩) ht (by decide) (by decide) hst
    refine iff_of_true ?_ hst
    have hout : Prog.runOn env (processIncomingRequest env s head) tape σ =
        (false, σ.send s (.response
          (.failure (head.get "requestId").toInt 0 "Operation not permitted"))) := by
      rw [Prog.runOn, hrun]
      rfl
    refine ⟨⟨.failure (head.get "requestId").toInt 0 "Operation not permitted", ?_, rfl, ?_⟩,
      fun t ht => ?_⟩
    · rw [hout, newResponses, newMessages_of_append
        [.response (.failure (head.get "requestId").toInt 0 "Operation not permitted")]
        (by simp [ServerState.send])]
      rfl
    · rw [hout]
      rfl
    · rw [hout, newResponses, newMessages_of_append [] (by simp [ServerState.send, ht])]
      rfl

end

/-- **One answer for each request.**  In every state that a run reaches, a request of a known
type is answered exactly once, with what its handler returns, exactly if it does not end the
process and is no dispatch of nothing. -/
theorem answeredOnce_iff (env : Env) (tr : List Act) (hlive : (after env tr).terminated = false)
    (s : SessionId) (head : UBJ.Object) (tape : Nat → Choice) {t : RequestType}
    (ht : env.decode (head.get "requestType").toInt = some t) :
    AnsweredOnce env (after env tr) s head tape ↔
      ¬ Fatal env ⟨after env tr, tape, []⟩ s head ∧
        ¬ DispatchOfNothing env (after env tr) s head := by
  by_cases hdispatch : t = .dispatch ∧ head.hasField "dispatchId" = false
  · obtain ⟨rfl, hfield⟩ := hdispatch
    have hsafe : ¬ Fatal env ⟨after env tr, tape, []⟩ s head := by
      simp [Fatal, ht]
    rw [answeredOnce_dispatch ht hfield]
    simp [hsafe, DispatchOfNothing, ht, hfield]
  · have hanswers : AnswersOnce s head (processIncomingRequest env s head) := by
      refine answers_processIncomingRequest ht fun hd => ?_
      by_contra hfield
      exact hdispatch ⟨hd, by simpa using hfield⟩
    have hnothing : ¬ DispatchOfNothing env (after env tr) s head := by
      rintro ⟨hd, -, hfield⟩
      rw [ht] at hd
      exact hdispatch ⟨Option.some.inj hd, hfield⟩
    rw [answeredOnce_iff_running hlive hanswers]
    refine (returns_of_live env tr hlive s head tape).trans ?_
    exact (and_iff_left hnothing).symm

/-- A client that is logged in asks for the status of its contacts. -/
def askStatus : UBJ.Object := sampleRequest .contactStatus 5 []

theorem answeredOnce_askStatus :
    AnsweredOnce sampleEnv (after sampleEnv (sampleJoin 0 "a" 1)) 0 askStatus (calm 0) := by
  refine (answeredOnce_iff sampleEnv (sampleJoin 0 "a" 1) (by decide +kernel) 0 askStatus (calm 0)
    (t := .contactStatus) (by decide +kernel)).mpr ⟨?_, ?_⟩
  · have ht : sampleEnv.decode (askStatus.get "requestType").toInt = some .contactStatus := by
      decide +kernel
    simp [Fatal, ht]
  · rintro ⟨hd, -⟩
    revert hd
    decide +kernel

/-- A dispatch without the number of a request is not answered. -/
theorem not_answeredOnce :
    ¬ AnsweredOnce sampleEnv (after sampleEnv (sampleJoin 0 "a" 1)) 0
        (sampleRequest .dispatch 5 []) (calm 0) := by
  rw [answeredOnce_dispatch (by decide +kernel) (by decide +kernel)]
  decide +kernel

end ZwayServer
