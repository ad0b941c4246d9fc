import ZwayServer.Interleaving

/-!
# Footprints

Which operations a handler can perform, whatever it is told.  A fact about all handlers
that is about some operations only then needs a look at the handlers that perform them,
and the others pass by their footprints.

* `Op.edit` — what an operation does to a session.
* `Op.OfDelivery`, `Op.OfConfig`, … — the operations of the functions that handlers share.
* `Event.Footprint` — the operations of the handler of an event.
* `within_handler` — every handler keeps to its footprint.
-/

namespace ZwayServer

open ClientSession

/-! ## What an operation does to a session -/

/-- The session that an operation changes, and how. -/
def Op.edit (c : Choice) : Op → Option (SessionId × (Session → Session))
  | .setStatus s st => some (s, fun x => { x with status := st })
  | .setAccountId s id => some (s, fun x => { x with accountId := id })
  | .clearContacts s => some (s, fun x => { x with contacts := ∅ })
  | .putContact s id v => some (s, fun x => { x with contacts := x.contacts.insert id v })
  | .setConfig s v => some (s, fun x => { x with config := v })
  | .respond s r => some (s, fun x => { x with outbox := x.outbox ++ [.response r] })
  | .postRequest s p => some (s, fun x =>
    { x with outbox := x.outbox ++ [.request p.type p.id p.head], posted := x.posted ++ [p] })
  | .takePosted s k => some (s, fun x => { x with posted := x.posted.eraseIdx k })
  | .addUbjSender s head => some (s, fun x => { x with outbox := x.outbox ++ [.ubj head] })
  | .addReceiver s r =>
    if c.fails then none else some (s, fun x => { x with receivers := x.receivers ++ [r] })
  | .addEngineSender s y =>
    if c.fails then none else some (s, fun x => { x with senders := x.senders ++ [y] })
  | _ => none

/-- Such a change is all that the operation does. -/
theorem exec_of_edit {env : Env} {o : Op} {c : Choice} {σ : ServerState} {s : SessionId}
    {f : Session → Session} (h : o.edit c = some (s, f)) : (exec env o c σ).2 = σ.modify s f := by
  cases o with
  | postRequest t p =>
    obtain ⟨rfl, rfl⟩ := Prod.mk.inj (Option.some.inj h)
    rw [exec, ServerState.send, ServerState.modify_modify]
  | addReceiver | addEngineSender =>
    rw [Op.edit] at h
    split at h
    · cases h
    · next hf =>
      obtain ⟨rfl, rfl⟩ := Prod.mk.inj (Option.some.inj h)
      rw [exec, if_neg hf]
  | setStatus | setAccountId | clearContacts | putContact | setConfig | respond | takePosted
  | addUbjSender =>
    obtain ⟨rfl, rfl⟩ := Prod.mk.inj (Option.some.inj h)
    rfl
  | _ => cases h

/-- The other operations change no session. -/
theorem sessions_exec_of_none {env : Env} {o : Op} {c : Choice} (h : o.edit c = none)
    (σ : ServerState) : (exec env o c σ).2.sessions = σ.sessions := by
  by_cases hreads : o.Reads
  · rw [exec_of_reads env hreads]
  cases o with
  | setStatus | setAccountId | clearContacts | putContact | setConfig | respond | postRequest
  | takePosted | addUbjSender => cases h
  | addReceiver | addEngineSender =>
    rw [Op.edit] at h
    split at h
    · next hf => rw [exec, if_pos hf]
    · cases h
  | insertAccount | setFcmToken | insertRequest | removeRequest =>
    exact dbCall_cases (P := fun τ => τ.sessions = σ.sessions) rfl fun _ => rfl
  | fopenAppend =>
    rw [exec]
    split <;> rfl
  | removeSession s => exact σ.sessions_removeSession s
  | _ => first | rfl | exact absurd trivial hreads

/-- So a field of a session that no change of it touches stays as it is. -/
theorem session_exec {env : Env} {o : Op} {c : Choice} {σ : ServerState} {s : SessionId} {α : Type}
    (field : Session → α) (h : ∀ f, o.edit c = some (s, f) → ∀ x, field (f x) = field x) :
    field ((exec env o c σ).2.sessions s) = field (σ.sessions s) := by
  cases he : o.edit c with
  | none => rw [sessions_exec_of_none he]
  | some e =>
    obtain ⟨t, f⟩ := e
    rw [exec_of_edit he, ServerState.sessions_modify]
    split
    · next hst =>
      subst hst
      exact h f he _
    · rfl

/-- No operation undoes that a session was started. -/
theorem started_exec (env : Env) (o : Op) (c : Choice) (σ : ServerState) (s : SessionId) :
    ((exec env o c σ).2.sessions s).started = (σ.sessions s).started := by
  refine session_exec Session.started fun f h x => ?_
  cases o <;> simp only [Op.edit, reduceCtorEq] at h <;> grind

/-! ## The operations of the shared functions -/

/-- The account id that a response reports. -/
def Response.accountId? : Response → Option UInt32
  | .success _ data => if data.hasField "accountId" then some (data.get "accountId").toInt else none
  | .failure .. => none

@[simp] theorem Response.accountId?_failure (id code : UInt32) (text : String) :
    (Response.failure id code text).accountId? = none := rfl

@[simp] theorem Response.accountId?_success (id : UInt32) (data : UBJ.Object) :
    (Response.success id data).accountId? = none ↔ data.hasField "accountId" = false := by
  rw [Response.accountId?]
  split
  · next h => simp [h]
  · next h => simpa using h

/-- The requests that the handler of a request of the type `t` may store. -/
@[simp] def Request.StoredBy (q : Request) : RequestType → Prop
  | .addContact => q.type = .addContact ∧ q.dst ≠ none
  | .createAddCode => q.type = .addContact ∧ q.dst = none
  | t => q.type = t

namespace Op

/-- `processRequests`. -/
@[simp] def OfDelivery (s : SessionId) : Op → Prop
  | .putContact t _ _ | .postRequest t _ => t = s
  | .accountId _ | .findRequests .. | .requestPending .. | .getSessions _ | .config _ => True
  | _ => False

/-- `setConfig`, `broadcastStatus` and the list of contacts. -/
@[simp] def OfConfig (s : SessionId) : Op → Prop
  | .clearContacts t | .putContact t _ _ | .setConfig t _ => t = s
  | .config _ | .contacts _ | .accountId _ | .setFcmToken .. | .getSessions _ | .random
  | .addUbjSender .. => True
  | _ => False

/-- The requests of the type `t`, about contacts, dispatches and pushes. -/
@[simp] def OfRequest (s : SessionId) (t : RequestType) : Op → Prop
  | .respond u r => u = s ∧ r.accountId? = none
  | .putContact u _ _ => u = s
  | .insertRequest q => q.StoredBy t
  | .countRequests _ => t = .addContact
  | .status _ | .accountId _ | .findAccount _ | .findAccounts .. | .findRequest _
  | .removeRequest _ | .schedule _ | .random | .terminate | .getSessions _ | .config _
  | .contacts _ => True
  | _ => False

/-- The same for the handlers that cannot end the process, of which one asks for the status of
contacts. -/
@[simp] def OfReturning (s : SessionId) (t : RequestType) : Op → Prop
  | .terminate => False
  | .config _ => t = .contactStatus
  | o => o.OfRequest s t

/-- `processCreateAccount`. -/
@[simp] def OfCreateAccount (s : SessionId) : Op → Prop
  | .respond t _ => t = s
  | .status _ | .findAccount _ | .maxAccountId | .randomSalt | .insertAccount _ => True
  | _ => False

/-- `processLogin`. -/
@[simp] def OfLogin (s : SessionId) : Op → Prop
  | .respond t r => t = s ∧ r.accountId? = none
  | .setStatus t st => t = s ∧ st = .loggedIn
  | .removeSession t | .setAccountId t _ | .appendSession t => t = s
  | .status _ | .findAccount _ | .terminate | .inboxRequests _ => True
  | o => o.OfConfig s ∨ o.OfDelivery s

/-- `afterLogin`. -/
@[simp] def OfAfterLogin (s : SessionId) : Op → Prop
  | .respond t r => t = s ∧ r.accountId? = none
  | .inboxRequests _ => True
  | o => o.OfConfig s ∨ o.OfDelivery s

/-- `processLogout`. -/
@[simp] def OfLogout (s : SessionId) : Op → Prop
  | .respond t r => t = s ∧ r.accountId? = none
  | .setStatus t st => t = s ∧ st = .connected
  | .status _ => True
  | o => o.OfConfig s

/-- `processConfigRequest`. -/
@[simp] def OfConfigRequest (s : SessionId) : Op → Prop
  | .respond t r => t = s ∧ r.accountId? = none
  | .status _ => True
  | o => o.OfConfig s

/-- `StreamBufferSender::getBuffer`. -/
@[simp] def OfOpening : Op → Prop
  | .fopenRead _ | .fileSize _ | .newBuffer _ | .findBuffer _ | .putBuffer .. => True
  | _ => False

/-- The callbacks of posted requests. -/
@[simp] def OfResponse (s : SessionId) : Op → Prop
  | .takePosted t _ | .senderInit t _ | .addEngineSender t _ => t = s
  | .accountId _ | .removeRequest _ | .addSender _ => True
  | o => o.OfOpening

/-- `processUserRequests`. -/
@[simp] def OfUserRequests : Op → Prop
  | .findAccount _ | .countRequests _ | .sendFcm .. => True
  | o => ∃ s, o.OfDelivery s

end Op

/-- The operations of `processIncomingRequest`, by the type of the request. -/
@[simp] def RequestType.Footprint (s : SessionId) : RequestType → Op → Prop
  | .createAccount => Op.OfCreateAccount s
  | .login => Op.OfLogin s
  | .logout => Op.OfLogout s
  | .config => Op.OfConfigRequest s
  | t => Op.OfRequest s t

/-- The operations of the handler of an event. -/
def Event.Footprint (env : Env) : Event → Op → Prop
  | connect s => fun o => match o with
    | .setAccountId t _ | .appendSession t => t = s
    | .random => True
    | _ => False
  | handshake s _ => fun o => match o with
    | .setStatus t st => t = s ∧ st ≠ .loggedIn
    | .removeSession t => t = s
    | _ => False
  | request s head => fun o =>
    ∃ t, env.decode (head.get "requestType").toInt = some t ∧ t.Footprint s o
  | response s _ _ => Op.OfResponse s
  | createReceiver s _ => fun o => match o with
    | .addReceiver t _ => t = s
    | .fopenRead _ | .fopenAppend _ | .newBuffer _ | .findBuffer _ | .putBuffer ..
    | .terminate => True
    | _ => False
  | receive .. => fun o => match o with
    | .findReceiver .. | .readBuffer _ | .fwrite .. | .addReadable .. | .touchBuffer _ => True
    | _ => False
  | received s _ => fun o => match o with
    | .findReceiver .. => True
    | .insertRequest q => q.type = .dispatch
    | o => o.OfDelivery s
  | userRequests _ => Op.OfUserRequests
  | send .. => fun o => match o with
    | .senderAt _ | .setSender .. | .readBuffer _ | .fread .. | .touchBuffer _ => True
    | o => o.OfOpening
  | timer _ => fun o => match o with
    | .dropSenders _ | .time | .evictBuffers _ => True
    | _ => False
  | disconnect s => fun o => match o with
    | .setStatus t st => t = s ∧ st = .disconnected
    | .removeSession t => t = s
    | _ => False
  | removeSessions => fun o => match o with
    | .setStatus _ st => st = .disconnected
    | .allSessions | .clearSessions => True
    | _ => False

/-! ## The shared functions -/

section

variable {G : Op → Prop}

theorem within_statusOfSessions (hG : ∀ s, G (.config s)) (sessions : List SessionId) :
    Proc.Within G (statusOfSessions sessions) := by
  induction sessions with
  | nil => exact trivial
  | cons s sessions ih =>
    refine Proc.safe_bind.mpr ⟨hG s, fun _ _ => ?_⟩
    exact Proc.safe_ite.mpr ⟨fun _ => trivial, fun _ => ih⟩

theorem within_getContactStatus (hconfig : ∀ s, G (.config s)) (hget : ∀ id, G (.getSessions id))
    (id : UInt32) : Proc.Within G (getContactStatus id) :=
  Proc.safe_bind.mpr ⟨hget id, fun sessions _ => within_statusOfSessions hconfig sessions⟩

theorem within_contactStatusList (hcontacts : ∀ s, G (.contacts s)) (hconfig : ∀ s, G (.config s))
    (hget : ∀ id, G (.getSessions id)) (s : SessionId) : Proc.Within G (contactStatusList s) := by
  refine Proc.safe_bind.mpr ⟨hcontacts s, fun _ _ => Proc.Safe.mapM fun it _ => ?_⟩
  exact Proc.safe_bind.mpr ((within_getContactStatus hconfig hget it.1).safe fun _ => trivial)

end

section

variable (env : Env) (s : SessionId) (head : UBJ.Object)

theorem within_broadcastStatus (status : UInt32) (check : Bool) :
    Proc.Within (Op.OfConfig s) (broadcastStatus env s status check) := by
  have hsend : ∀ (sessions : List SessionId) (obj : UBJ.Object), Proc.Within (Op.OfConfig s)
      (forM sessions fun session => Proc.perform (Op.addUbjSender session obj) : Prog PUnit) :=
    fun sessions obj => Proc.Safe.forM fun _ _ => ⟨trivial, fun _ _ => trivial⟩
  have hloop : ∀ contacts, Proc.Within (Op.OfConfig s) (forM contacts (broadcastTo env s status)) :=
    fun contacts => Proc.Safe.forM fun it _ => by simp [broadcastTo, hsend]
  simp [broadcastStatus, hloop]

theorem within_setConfig (newConfig : UBJ.Object) :
    Proc.Within (Op.OfConfig s) (setConfig env s newConfig) := by
  have hloop : ∀ items : List UBJ.Value, Proc.Within (Op.OfConfig s)
      (forM items fun it => putContact s (it.get "contactId").toInt it.toObject) :=
    fun items => Proc.Safe.forM fun _ _ => ⟨rfl, fun _ _ => trivial⟩
  have hbroadcast := fun n => within_broadcastStatus env s n false
  simp only [setConfig, Proc.Within, Proc.safe_ite, Proc.safe_bind, Proc.safe_perform,
    Proc.safe_pure, safe_setFcmToken]
  refine ⟨fun _ => ⟨rfl, fun _ _ => (hloop _).safe fun _ => ?_⟩, fun _ => ?_⟩
  · simp [hbroadcast]
  · simp [hbroadcast]

theorem within_processRequests : Proc.Within (Op.OfDelivery s) (processRequests env s) := by
  have hloop : ∀ requests : List Record,
      Proc.Within (Op.OfDelivery s) (forM requests (processRequest env s)) := by
    intro requests
    refine Proc.Safe.forM fun request _ => ?_
    have hstatus : Proc.Within (Op.OfDelivery s) (getContactStatus request.src) :=
      within_getContactStatus (fun _ => trivial) (fun _ => trivial) _
    simp only [processRequest, Proc.safe_ite, Proc.safe_bind, Proc.safe_perform]
    refine ⟨trivial, fun _ _ => ⟨fun _ => trivial, fun _ => ?_⟩⟩
    split
    · exact ⟨rfl, fun _ _ => trivial⟩
    · exact ⟨rfl, fun _ _ => trivial⟩
    · exact ⟨rfl, fun _ _ => trivial⟩
    · exact ⟨rfl, fun _ _ => trivial⟩
    · exact hstatus.bind fun _ => ⟨rfl, fun _ _ => ⟨rfl, fun _ _ => trivial⟩⟩
    · exact trivial
  simp [processRequests, hloop]

theorem within_getBuffer (sender : Sender) :
    Proc.Within Op.OfOpening (StreamBufferSender.getBuffer env sender) := by
  have hopen : ∀ id, Proc.Within Op.OfOpening (StreamBuffer.open env (tmpFile id) id) :=
    fun id => by
    simp [StreamBuffer.open]
  unfold StreamBufferSender.getBuffer
  split
  · exact trivial
  · refine Proc.safe_bind.mpr ⟨trivial, fun found _ => ?_⟩
    cases found with
    | some ref => exact trivial
    | none =>
      refine Proc.safe_bind.mpr ((hopen _).safe fun buffer => ?_)
      cases buffer with
      | none => exact trivial
      | some ref => exact ⟨trivial, fun _ _ => trivial⟩

theorem Op.OfOpening.ofResponse {s : SessionId} {o : Op} (h : o.OfOpening) : o.OfResponse s := by
  cases o <;> first | exact h | exact h.elim

theorem within_sendResource (it : UBJ.Value) :
    Proc.Within (Op.OfResponse s) (sendResource env s it) := by
  have hcreate : Proc.Within (Op.OfResponse s) (StreamBufferSender.create env s it.toInt) := by
    have hbuffer := (within_getBuffer env
      { session := s, streamId := it.toInt, buffer := none }).sub
      fun _ => Op.OfOpening.ofResponse (s := s)
    simp [StreamBufferSender.create, hbuffer]
  unfold sendResource
  simp only [Proc.Within, Proc.safe_ite, Proc.safe_bind, Proc.safe_pure]
  refine ⟨fun _ => hcreate.safe fun sender => ?_, fun _ => trivial⟩
  cases sender with
  | none => exact trivial
  | some sender => simp

theorem within_processResponse (p : Posted) :
    Proc.Within (Op.OfResponse s) (processResponse env s p head) := by
  have hloop : ∀ items : List UBJ.Value,
      Proc.Within (Op.OfResponse s) (forM items (sendResource env s)) :=
    fun items => Proc.Safe.forM fun it _ => within_sendResource env s it
  rw [processResponse]
  split
  · exact trivial
  · split
    · simp [hloop]
    · exact trivial
  · split
    · simp
    · exact trivial

/-! ## The requests -/

theorem Op.OfReturning.ofRequest {s : SessionId} {t : RequestType} {o : Op}
    (h : o.OfReturning s t) : o.OfRequest s t := by
  cases o <;> first | exact h | exact h.elim | exact trivial

theorem Op.OfAfterLogin.ofLogin {s : SessionId} {o : Op} (h : o.OfAfterLogin s) : o.OfLogin s := by
  cases o <;> first | exact h | exact h.elim | exact h.elim False.elim False.elim

theorem Op.OfConfig.ofAfterLogin {s : SessionId} {o : Op} (h : o.OfConfig s) :
    o.OfAfterLogin s := by
  cases o <;> first | exact Or.inl h | exact h.elim

theorem Op.OfDelivery.ofAfterLogin {s : SessionId} {o : Op} (h : o.OfDelivery s) :
    o.OfAfterLogin s := by
  cases o <;> first | exact Or.inr h | exact h.elim

theorem within_afterLogin (id : UInt32) :
    Proc.Within (Op.OfAfterLogin s) (afterLogin env s head id) := by
  have hrest : Proc.Within (Op.OfAfterLogin s) (answerLogin env s head id) := by
    have hlist : Proc.Within (Op.OfAfterLogin s) (contactStatusList s) :=
      within_contactStatusList (fun _ => by simp) (fun _ => by simp) (fun _ => by simp) s
    have hinbox : Proc.Within (Op.OfAfterLogin s) (DB.getInbox id) := by
      simp [DB.getInbox, forall_answer]
    have hrequests := (within_processRequests env s).sub fun _ => Op.OfDelivery.ofAfterLogin
    rw [answerLogin]
    refine hlist.bind fun _ => hinbox.bind fun _ => ?_
    exact Proc.safe_bind.mpr ⟨by simp, fun _ _ => hrequests.bind fun _ => trivial⟩
  rw [afterLogin_eq]
  split
  · exact ((within_setConfig env s _).sub fun _ => Op.OfConfig.ofAfterLogin).bind fun _ => hrest
  · exact hrest

theorem within_processLogin : Proc.Within (Op.OfLogin s) (processLogin env s head) := by
  have hfail : ∀ id code text, Proc.Within (Op.OfLogin s) (do
      postRequestFailure s id code text
      return false) := fun id code text => ⟨by simp, fun _ _ => trivial⟩
  rw [processLogin]
  refine Proc.Within.bind (by simp) fun st => ?_
  split
  · exact hfail _ _ _
  split
  · exact hfail _ _ _
  split
  · exact hfail _ _ _
  refine Proc.Within.bind (by simp) fun account => ?_
  cases account with
  | none => exact hfail _ _ _
  | some account =>
    dsimp only
    split
    · exact ⟨by simp, fun _ _ => trivial⟩
    · exact hfail _ _ _
    · refine ⟨⟨rfl, rfl⟩, fun _ _ => ⟨rfl, fun _ _ => ⟨rfl, fun _ _ => ⟨rfl, fun _ _ => ?_⟩⟩⟩⟩
      exact ((within_afterLogin env s head _).sub fun _ => Op.OfAfterLogin.ofLogin).bind
        fun _ => trivial

theorem within_processLogout : Proc.Within (Op.OfLogout s) (processLogout env s head) := by
  have hbroadcast : Proc.Within (Op.OfLogout s) (broadcastStatus env s 0 true) :=
    (within_broadcastStatus env s 0 true).sub fun o h => by
      cases o <;> first | exact h | exact h.elim
  simp [processLogout, hbroadcast]

theorem within_processConfigRequest :
    Proc.Within (Op.OfConfigRequest s) (processConfigRequest env s head) := by
  have hset : Proc.Within (Op.OfConfigRequest s) (setConfig env s (head.get "config").toObject) :=
    (within_setConfig env s _).sub fun o h => by
      cases o <;> first | exact h | exact h.elim
  simp only [processConfigRequest, Proc.Within, Proc.safe_ite, Proc.safe_bind, Proc.safe_perform,
    Proc.safe_pure]
  refine ⟨trivial, fun _ _ => ⟨fun _ => by simp, fun _ => ⟨fun _ => ?_, fun _ => ?_⟩⟩⟩
  · exact hset.safe fun _ => by simp
  · simp

theorem within_processDispatchRequest :
    Proc.Within (Op.OfReturning s .dispatch) (processDispatchRequest s head) := by
  simp [processDispatchRequest]

theorem within_processFindContactRequest :
    Proc.Within (Op.OfReturning s .findContact) (processFindContactRequest s head) := by
  simp [processFindContactRequest]

theorem within_addContactTo (account : Account) (q : AccountQuery) :
    Proc.Within (Op.OfReturning s .addContact) (addContactTo s head account q) := by
  rw [addContactTo]
  refine Proc.Within.bind (by simp) fun contact => ?_
  cases contact with
  | none => simp
  | some contact =>
    dsimp only
    cases publicKeyOf head with
    | none => simp
    | some key => simp

theorem within_processAddContactRequest :
    Proc.Within (Op.OfReturning s .addContact) (processAddContactRequest s head) := by
  rw [processAddContactRequest]
  refine Proc.Within.bind (by simp) fun st => ?_
  split
  · simp
  refine Proc.Within.bind (by simp) fun x => Proc.Within.bind (by simp) fun account => ?_
  cases account with
  | none => simp
  | some account =>
    dsimp only
    split
    · refine Proc.Within.bind (by simp) fun request => ?_
      cases request with
      | none => simp
      | some request => exact within_addContactTo s head account _
    · split
      · simp
      · exact within_addContactTo s head account _

theorem within_processCreateAddCode :
    Proc.Within (Op.OfReturning s .createAddCode) (processCreateAddCode s head) := by
  rw [processCreateAddCode]
  refine Proc.Within.bind (by simp) fun st => ?_
  split
  · simp
  split
  · simp
  · refine Proc.Within.bind (by simp) fun x => Proc.Within.bind (by simp) fun account => ?_
    cases account with
    | none => simp
    | some account => simp

theorem within_processAcceptContact :
    Proc.Within (Op.OfRequest s .acceptContact) (processAcceptContact s head) := by
  have hstatus : ∀ id, Proc.Within (Op.OfRequest s .acceptContact) (getContactStatus id) :=
    fun id => within_getContactStatus (fun _ => trivial) (fun _ => trivial) id
  rw [processAcceptContact]
  refine Proc.Within.bind (by simp) fun st => ?_
  split
  · simp
  refine Proc.Within.bind (by simp) fun x => Proc.Within.bind (by simp) fun request => ?_
  cases request with
  | none => simp
  | some request =>
    refine Proc.Within.bind (by simp) fun x => Proc.Within.bind (by simp) fun account => ?_
    cases account with
    | none => simp
    | some account =>
      dsimp only
      cases request.publicKey with
      | none => simp
      | some contactKey =>
        cases publicKeyOf head with
        | none => simp
        | some key =>
          refine Proc.Within.bind (by simp) fun x => Proc.Within.bind (by simp) fun stored => ?_
          split
          · simp
          · exact (hstatus _).bind fun n => by simp

theorem within_processRejectContact :
    Proc.Within (Op.OfReturning s .rejectContact) (processRejectContact s head) := by
  rw [processRejectContact]
  refine Proc.Within.bind (by simp) fun st => ?_
  split
  · simp
  refine Proc.Within.bind (by simp) fun x => Proc.Within.bind (by simp) fun request => ?_
  cases request with
  | none => simp
  | some request => simp

theorem within_processPushRequest :
    Proc.Within (Op.OfReturning s .push) (processPushRequest s head) := by
  have hkeys : ∀ id (forward : UBJ.Object) (keys : List UBJ.Value),
      Proc.Within (Op.OfReturning s .push) (pushKeys s id forward keys) := by
    intro id forward keys
    induction keys generalizing forward with
    | nil => exact trivial
    | cons it keys ih =>
      rw [pushKeys]
      refine Proc.safe_bind.mpr ⟨trivial, fun x _ => ?_⟩
      simp [ih]
  simp [processPushRequest, hkeys]

theorem within_processContactStatusRequest :
    Proc.Within (Op.OfReturning s .contactStatus) (processContactStatusRequest s head) := by
  have hlist : Proc.Within (Op.OfReturning s .contactStatus) (contactStatusList s) :=
    within_contactStatusList (fun _ => trivial) (fun _ => rfl) (fun _ => trivial) s
  rw [processContactStatusRequest]
  refine Proc.Within.bind (by simp) fun st => ?_
  split
  · simp
  · exact hlist.bind fun status => by simp

theorem within_processIncomingRequest :
    Proc.Within ((Event.request s head).Footprint env) (processIncomingRequest env s head) := by
  have hof : ∀ {t : RequestType} {p : Prog Bool},
      env.decode (head.get "requestType").toInt = some t → Proc.Within (t.Footprint s) p →
      Proc.Within ((Event.request s head).Footprint env) p :=
    fun ht hp => hp.sub fun _ ho => ⟨_, ht, ho⟩
  have hreturning : ∀ {t : RequestType} {p : Prog Bool}, Proc.Within (Op.OfReturning s t) p →
      Proc.Within (Op.OfRequest s t) p := fun hp => hp.sub fun _ => Op.OfReturning.ofRequest
  rw [processIncomingRequest]
  split
  · next ht => exact hof ht (hreturning (within_processDispatchRequest s head))
  · next ht => exact hof ht (by simp [processCreateAccount])
  · next ht => exact hof ht (within_processLogin env s head)
  · next ht => exact hof ht (within_processLogout env s head)
  · next ht => exact hof ht (within_processConfigRequest env s head)
  · next ht => exact hof ht (hreturning (within_processAddContactRequest s head))
  · next ht => exact hof ht (hreturning (within_processCreateAddCode s head))
  · next ht => exact hof ht (hreturning (within_processFindContactRequest s head))
  · next ht => exact hof ht (within_processAcceptContact s head)
  · next ht => exact hof ht (hreturning (within_processRejectContact s head))
  · next ht => exact hof ht (hreturning (within_processContactStatusRequest s head))
  · next ht => exact hof ht (hreturning (within_processPushRequest s head))
  · exact trivial

/-! ## The other handlers -/

theorem within_response (k : Nat) : Proc.Within (Op.OfResponse s)
    ((do
      match ← Proc.perform (Op.takePosted s k) with
      | some p => processResponse env s p head
      | none => return : Prog Unit)) := by
  refine Proc.Within.bind (by simp) fun p => ?_
  cases p with
  | none => exact trivial
  | some p => exact within_processResponse env s head p

theorem within_createReceiver (pkt : Packet) (σ : ServerState) :
    Proc.Within ((Event.createReceiver s pkt).Footprint env)
      ((Event.createReceiver s pkt).handler env σ) := by
  have hcreate : ∀ name, Proc.Within ((Event.createReceiver s pkt).Footprint env)
      (StreamBuffer.create name pkt) := fun name => by
    simp [StreamBuffer.create, Event.Footprint]
  have hadd : ∀ id ref, Proc.Within ((Event.createReceiver s pkt).Footprint env)
      (Server.addStreamBuffer id ref) := fun id ref => by
    simp [Server.addStreamBuffer, Event.Footprint]
  show Proc.Within _ (createStreamReceiver s pkt >>= fun _ => pure ())
  refine Proc.Within.bind ?_ fun _ => trivial
  rw [createStreamReceiver]
  split
  · exact trivial
  · refine (hcreate _).bind fun buffer => ?_
    cases buffer with
    | none => exact trivial
    | some buffer =>
      refine Proc.Within.bind (by simp [Event.Footprint]) fun added => ?_
      split
      · exact (hadd _ _).bind fun _ => trivial
      · exact trivial

theorem within_receive (id : UInt32) (body : List UInt8) :
    Proc.Within ((Event.receive s id body).Footprint env) (receivePacket s id body) := by
  rw [receivePacket]
  refine Proc.Within.bind (by simp [Event.Footprint]) fun receiver => ?_
  cases receiver with
  | none => exact trivial
  | some receiver =>
    dsimp only
    simp [StreamBuffer.write, Event.Footprint]

theorem within_received (id : UInt32) :
    Proc.Within ((Event.received s id).Footprint env) (streamReceived env s id) := by
  have hrequests : Proc.Within ((Event.received s id).Footprint env) (processRequests env s) :=
    (within_processRequests env s).sub fun o ho => by
      cases o <;> first | exact ho | exact ho.elim
  rw [streamReceived]
  refine Proc.Within.bind (by simp [Event.Footprint]) fun receiver => ?_
  cases receiver with
  | none => exact trivial
  | some receiver =>
    dsimp only
    refine Proc.Within.bind (by simp [Event.Footprint]) fun x => ?_
    refine Proc.Within.bind (by simp [Event.Footprint]) fun _ => ?_
    exact hrequests.bind fun _ => trivial

theorem within_processUserRequests (userId : UInt32) :
    Proc.Within Op.OfUserRequests (Server.processUserRequests env userId) := by
  have hloop : ∀ sessions : List SessionId, Proc.Within Op.OfUserRequests
      (forM sessions fun s => do
        let _ ← processRequests env s) := fun sessions => Proc.Safe.forM fun s _ =>
    ((within_processRequests env s).sub fun o ho => by
      cases o <;> first | exact ⟨s, ho⟩ | exact ho.elim).bind fun _ => trivial
  have hnotify : Proc.Within Op.OfUserRequests (Server.notifyUser env userId) := by
    simp [Server.notifyUser, DB.getFcmToken, DB.numContactRequests, DB.numPushRequests,
      forall_answer, Option.forall]
  rw [Server.processUserRequests]
  refine Proc.Within.bind (by simp) fun sessions => ?_
  split
  · exact hloop sessions
  · exact hnotify

theorem within_preparePacket (k size offset : Nat) :
    Proc.Within ((Event.send k size offset).Footprint env)
      (StreamBufferSender.preparePacket env k size offset) := by
  have hbuffer : ∀ sender, Proc.Within ((Event.send k size offset).Footprint env)
      (StreamBufferSender.getBuffer env sender) := fun sender =>
    (within_getBuffer env sender).sub fun o ho => by
      cases o <;> first | exact ho | exact ho.elim
  have hread : ∀ ref, Proc.Within ((Event.send k size offset).Footprint env)
      (StreamBuffer.read ref size offset) := by
    intro ref
    rw [StreamBuffer.read]
    refine Proc.Within.bind (by simp [Event.Footprint]) fun b => ?_
    dsimp only
    refine Proc.safe_ite.mpr ⟨fun _ => ?_, fun _ => ?_⟩
    · refine Proc.safe_bind.mpr ⟨trivial, fun bytes _ => ?_⟩
      cases bytes with
      | none => exact trivial
      | some bytes => exact ⟨trivial, fun _ _ => trivial⟩
    · exact ⟨trivial, fun _ _ => trivial⟩
  rw [StreamBufferSender.preparePacket]
  refine Proc.Within.bind (by simp [Event.Footprint]) fun sender => ?_
  cases sender with
  | none => exact trivial
  | some sender =>
    refine (hbuffer sender).bind fun buffer =>
      Proc.Within.bind (by simp [Event.Footprint]) fun _ => ?_
    cases buffer with
    | none => exact trivial
    | some ref => exact (hread ref).bind fun _ => trivial

theorem within_removeSessions :
    Proc.Within (Event.removeSessions.Footprint env) Server.removeSessions := by
  have hloop : ∀ sessions : List SessionId, Proc.Within (Event.removeSessions.Footprint env)
      (forM sessions fun s => close s false) := fun sessions => Proc.Safe.forM fun s _ => by
    simp [close, Event.Footprint]
  simp only [Server.removeSessions, Proc.Within, Proc.safe_bind, Proc.safe_perform]
  exact ⟨trivial, fun sessions _ => (hloop sessions).safe fun _ => ⟨trivial, fun _ _ => trivial⟩⟩

end

/-- **Footprints.**  Every handler keeps to the operations of its event. -/
theorem within_handler (env : Env) (e : Event) (σ : ServerState) :
    Proc.Within (e.Footprint env) (e.handler env σ) := by
  cases e with
  | connect s => simp [Event.handler, start, Event.Footprint]
  | handshake s error => simp [Event.handler, handleHandshake, close, Event.Footprint]
  | request s head => exact (within_processIncomingRequest env s head).bind fun _ => trivial
  | response s k head => exact within_response env s head k
  | createReceiver s pkt => exact within_createReceiver env s pkt σ
  | receive s id body => exact within_receive env s id body
  | received s id => exact within_received env s id
  | userRequests k => exact within_processUserRequests env _
  | send k size offset => exact within_preparePacket env k size offset
  | timer completed => simp [Event.handler, Server.onTimer, Event.Footprint]
  | disconnect s => simp [Event.handler, close, Event.Footprint]
  | removeSessions => exact within_removeSessions env

/-- The same for the handlers that report a result. -/
theorem within_program (env : Env) (e : Event) (σ : ServerState) :
    Proc.Within (e.Footprint env) (e.program env σ) := by
  cases e with
  | request s head => exact within_processIncomingRequest env s head
  | _ => exact (within_handler env _ σ).bind fun _ => trivial

/-- What the operations of its event keep, a step keeps. -/
theorem footprint_next {env : Env} {a : Act} {σ : ServerState} {P : ServerState → Prop}
    (hp : a.Possible σ) (hnote : P (a.event.note σ))
    (hkeep : ∀ o c σ', a.event.Footprint env o → P σ' → P (exec env o c σ').2) :
    P (next env σ a) := by
  rw [next_of_possible env hp]
  exact (within_handler env a.event σ).run (P := fun w : World => P w.server)
    (fun o w ho hw => hkeep o (w.tape 0) w.server ho hw) hnote

end ZwayServer
