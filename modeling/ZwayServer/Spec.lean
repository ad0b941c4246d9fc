import ZwayServer.Quiet

/-!
# What the handlers do

For each handler that stores or removes requests, two things: the data it has read
when it gets to its first change, or `none` if it turns the request down before
(`…Input`), and the world it leaves (`run_…`).  Nothing in later files looks into a
handler again.

* `Refused` — a request that was turned down: an error response and nothing else.
* `run_notPermitted` — without a login, ten of the twelve handlers turn down everything.
* `run_processAcceptContact`, `run_processRejectContact`, `run_processCreateAddCode`,
  `run_processAddContactRequest`, `run_processPushRequest`, `run_processDispatchRequest`,
  `run_processCreateAccount`, `run_processLogin`, `run_processLogout`.
* `run_streamBufferCreate`, `run_streamBufferWrite` — an upload.
-/

namespace ZwayServer

open ClientSession

/-! ## Single operations -/

namespace World

variable (w : World)

/-- Use up `n` choices. -/
def skip (n : Nat) : World := { w with tape := fun k => w.tape (k + n) }

/-- Answer the client. -/
def respond (s : SessionId) (r : Response) : World := w.update (·.send s (.response r))

/-- Have the requests of an account processed. -/
def schedule (id : UInt32) : World := w.update (·.schedule id)

/-- Make an account a contact of the session. -/
def putContact (s : SessionId) (id : UInt32) : World :=
  w.update (·.modify s fun x => { x with contacts := x.contacts.insert id (newContact id) })

end World

section Step

variable (env : Env) (w : World) (s : SessionId)

@[simp] theorem step_status :
    step env (.status s) w = ((w.server.sessions s).status, w) := rfl

@[simp] theorem step_accountId :
    step env (.accountId s) w = ((w.server.sessions s).accountId, w) := rfl

@[simp] theorem step_setStatus (st : Status) :
    step env (.setStatus s st) w = ((), w.update (·.setStatus s st)) := rfl

@[simp] theorem step_respond (r : Response) : step env (.respond s r) w = ((), w.respond s r) := rfl

@[simp] theorem step_schedule (id : UInt32) :
    step env (.schedule id) w = ((), w.schedule id) := rfl

@[simp] theorem step_terminate :
    step env .terminate w = ((), w.update fun σ => { σ with terminated := true }) := rfl

@[simp] theorem step_random : step env .random w = ((w.tape 0).word, w.next) := rfl

@[simp] theorem step_randomSalt : step env .randomSalt w = ((w.tape 0).salt, w.next) := rfl

@[simp] theorem step_putContact (id : UInt32) :
    step env (.putContact s id (newContact id)) w = ((), w.putContact s id) := rfl

end Step

/-! ## Requests that are turned down -/

/-- A request that was turned down: an error response, or the end of the process. -/
structure Refused (s : SessionId) (w : World) (out : Bool × World) : Prop where
  result : out.1 = false
  inserts : out.2.inserts = w.inserts
  server : (∃ id code text, out.2.server = w.server.send s (.response (.failure id code text))) ∨
    out.2.server = { w.server with terminated := true }

theorem refused_fail (s : SessionId) (w w' : World) (hs : w'.server = w.server)
    (hi : w'.inserts = w.inserts) (id code : UInt32) (text : String) :
    Refused s w (false, w'.respond s (.failure id code text)) :=
  ⟨rfl, hi, Or.inl ⟨id, code, text, congrArg (·.send s (.response (.failure id code text))) hs⟩⟩

theorem refused_terminate (s : SessionId) (w w' : World) (hs : w'.server = w.server)
    (hi : w'.inserts = w.inserts) :
    Refused s w (false, w'.update fun σ => { σ with terminated := true }) :=
  ⟨rfl, hi, Or.inr (congrArg (fun σ : ServerState => { σ with terminated := true }) hs)⟩

section

variable {env : Env} {w : World} {s : SessionId}

/-- Choices used up before do not matter. -/
theorem Refused.of_skip {n : Nat} {out : Bool × World} (h : Refused s (w.skip n) out) :
    Refused s w out :=
  ⟨h.result, h.inserts, h.server⟩

theorem Refused.quiet {out : Bool × World} (h : Refused s w out) :
    Quiet w.server out.2.server := by
  obtain ⟨id, code, text, hs⟩ | hs := h.server
  · rw [hs]
    exact Quiet.respond _ _ _
  · rw [hs]
    exact { Delivers.refl _ with }

/-- **The gate.**  Without a login, every handler but the two that need none turns the
request down at once. -/
theorem run_notPermitted {t : RequestType} {head : UBJ.Object}
    (ht : env.decode (head.get "requestType").toInt = some t) (hca : t ≠ .createAccount)
    (hlogin : t ≠ .login) (hst : (w.server.sessions s).status ≠ .loggedIn) :
    Proc.run (step env) (processIncomingRequest env s head) w =
      (false, w.respond s (.failure (head.get "requestId").toInt 0 "Operation not permitted")) := by
  cases t with
  | createAccount => exact absurd rfl hca
  | login => exact absurd rfl hlogin
  | _ =>
    simp [processIncomingRequest, ht, processDispatchRequest, processLogout, processConfigRequest,
      processAddContactRequest, processCreateAddCode, processFindContactRequest,
      processAcceptContact, processRejectContact, processContactStatusRequest, processPushRequest,
      Proc.run_bind, hst]

end

/-! ## Accepting and rejecting a contact request -/

section

variable (env : Env) (w : World) (s : SessionId) (head : UBJ.Object)

/-- The record that an answer to a contact request reads. -/
def answeredRecord : Option Record :=
  w.request
    { id := some (head.get "contactRequestId").toInt, dst := some (w.server.sessions s).accountId }

/-- What `processAcceptContact` has read when it stores its request. -/
structure AcceptInput where
  request : Record
  account : Account
  contactPublicKey : Bson.Doc
  publicKey : Bson.Doc

/-- The input of `processAcceptContact`, unless it turns the request down. -/
def acceptInput : Option AcceptInput :=
  if (w.server.sessions s).status = .loggedIn then do
    let request ← answeredRecord w s head
    let account ← w.next.account env { id := some (w.server.sessions s).accountId }
    let contactPublicKey ← request.publicKey
    let publicKey ← publicKeyOf head
    return ⟨request, account, contactPublicKey, publicKey⟩
  else none

/-- The request stored by `processAcceptContact`. -/
def acceptRequest (x : UInt32) (i : AcceptInput) : Request :=
  { id := (head.get "requestId").toInt,
    contactRequestId := some (head.get "contactRequestId").toInt, type := .acceptContact,
    src := x, dst := some i.request.src, name := some i.account.name,
    phone := some i.account.phone, publicKey := some i.publicKey }

theorem run_statusOfSessions (sessions : List SessionId) :
    (Proc.run (step env) (statusOfSessions sessions) w).2 = w := by
  induction sessions with
  | nil => rfl
  | cons s sessions ih =>
    rw [statusOfSessions, Proc.run_bind, Proc.run_ite]
    split
    · rfl
    · exact ih

theorem run_getContactStatus (id : UInt32) :
    (Proc.run (step env) (getContactStatus id) w).2 = w :=
  run_statusOfSessions env w _

theorem run_processAcceptContact :
    match acceptInput env w s head with
    | none => Refused s w (Proc.run (step env) (processAcceptContact s head) w)
    | some i => ∃ data, Proc.run (step env) (processAcceptContact s head) w =
        (true, ((((w.skip 2).insertRequest
            (acceptRequest head (w.server.sessions s).accountId i)).respond s
            (.success (head.get "requestId").toInt data)).removeRequest
            { id := some (head.get "contactRequestId").toInt } |>.putContact s
              i.request.src).schedule i.request.src) := by
  unfold acceptInput answeredRecord
  by_cases hst : (w.server.sessions s).status = .loggedIn
  swap
  · simpa [processAcceptContact, Proc.run_bind, hst] using refused_fail s w w rfl rfl _ _ _
  cases hr : w.request
      { id := some (head.get "contactRequestId").toInt,
        dst := some (w.server.sessions s).accountId } with
  | none =>
    simpa [processAcceptContact, Proc.run_bind, hst, run_getRequest, hr] using
      refused_fail s w w.next rfl rfl _ _ _
  | some request =>
    cases ha : w.next.account env { id := some (w.server.sessions s).accountId } with
    | none =>
      simpa [processAcceptContact, Proc.run_bind, hst, run_getRequest, hr, run_getAccount, ha] using
        refused_fail s w w.next.next rfl rfl _ _ _
    | some account =>
      cases hk : request.publicKey with
      | none =>
        simpa [processAcceptContact, Proc.run_bind, hst, run_getRequest, hr, run_getAccount, ha, hk]
          using refused_terminate s w w.next.next rfl rfl
      | some contactPublicKey =>
        cases hp : publicKeyOf head with
        | none =>
          simpa [processAcceptContact, Proc.run_bind, hst, run_getRequest, hr, run_getAccount, ha,
            hk, hp] using refused_fail s w w.next.next rfl rfl _ _ _
        | some publicKey =>
          simp [processAcceptContact, Proc.run_bind, hst, run_getRequest, hr, run_getAccount, ha,
            hk, hp, run_addRequest, run_getContactStatus, run_deleteRequest]
          exact ⟨_, rfl⟩

/-- The input of `processRejectContact`, unless it turns the request down. -/
def rejectInput : Option Record :=
  if (w.server.sessions s).status = .loggedIn then answeredRecord w s head else none

/-- The request stored by `processRejectContact`. -/
def rejectRequest (x : UInt32) (request : Record) : Request :=
  { id := (head.get "requestId").toInt,
    contactRequestId := some (head.get "contactRequestId").toInt, type := .rejectContact,
    src := x, dst := some request.src }

theorem run_processRejectContact :
    match rejectInput w s head with
    | none => Refused s w (Proc.run (step env) (processRejectContact s head) w)
    | some request => Proc.run (step env) (processRejectContact s head) w =
        (true, (((w.skip 1).insertRequest
            (rejectRequest head (w.server.sessions s).accountId request)).respond s
            (.success (head.get "requestId").toInt []) |>.removeRequest
            { id := some (head.get "contactRequestId").toInt }).schedule request.src) := by
  unfold rejectInput answeredRecord
  by_cases hst : (w.server.sessions s).status = .loggedIn
  swap
  · simpa [processRejectContact, Proc.run_bind, hst] using refused_fail s w w rfl rfl _ _ _
  cases hr : w.request
      { id := some (head.get "contactRequestId").toInt,
        dst := some (w.server.sessions s).accountId } with
  | none =>
    simpa [processRejectContact, Proc.run_bind, hst, run_getRequest, hr] using
      refused_fail s w w.next rfl rfl _ _ _
  | some request =>
    simp [processRejectContact, Proc.run_bind, hst, run_getRequest, hr, run_addRequest,
      run_deleteRequest]
    rfl

/-! ## Add codes -/

/-- The input of `processCreateAddCode`, unless it turns the request down: the account
of the session and the public key. -/
def createAddCodeInput : Option (Account × Bson.Doc) :=
  if (w.server.sessions s).status = .loggedIn then do
    let publicKey ← publicKeyOf head
    let account ← w.account env { id := some (w.server.sessions s).accountId }
    return (account, publicKey)
  else none

/-- The request stored by `processCreateAddCode`. -/
def addCodeRequest (x : UInt32) (addCode : String) (i : Account × Bson.Doc) : Request :=
  { id := (head.get "requestId").toInt, type := .addContact, src := x, name := some i.1.name,
    phone := some i.1.phone, publicKey := some i.2, addCode := some addCode }

theorem run_processCreateAddCode :
    match createAddCodeInput env w s head with
    | none => Refused s w (Proc.run (step env) (processCreateAddCode s head) w)
    | some i => ∃ data, Proc.run (step env) (processCreateAddCode s head) w =
        (true, ((w.skip 2).insertRequest (addCodeRequest head (w.server.sessions s).accountId
            (addCodeHex (w.tape 1).word) i)).respond s
            (.success (head.get "requestId").toInt data)) := by
  unfold createAddCodeInput
  by_cases hst : (w.server.sessions s).status = .loggedIn
  swap
  · simpa [processCreateAddCode, Proc.run_bind, hst] using refused_fail s w w rfl rfl _ _ _
  cases hp : publicKeyOf head with
  | none =>
    simpa [processCreateAddCode, Proc.run_bind, hst, hp] using refused_fail s w w rfl rfl _ _ _
  | some publicKey =>
    cases ha : w.account env { id := some (w.server.sessions s).accountId } with
    | none =>
      simpa [processCreateAddCode, Proc.run_bind, hst, hp, run_getAccount, ha] using
        refused_fail s w w.next rfl rfl _ _ _
    | some account =>
      simp [processCreateAddCode, Proc.run_bind, hst, hp, run_getAccount, ha, run_addRequest]
      exact ⟨_, rfl⟩

/-! ## Contact requests -/

/-- The add code that a request names. -/
def namedAddCode : String := (head.get "addCode").toStr

/-- The add code's record, as `processAddContactRequest` looks for it. -/
def addCodeRecord : Option Record :=
  w.request { type := some .addContact, addCode := some (namedAddCode head) }

/-- What `processAddContactRequest` has read when it stores its request. -/
structure ContactInput where
  account : Account
  contact : Account
  publicKey : Bson.Doc

/-- The input of `processAddContactRequest` from the point where it knows which account
to look for. -/
def contactInput (account : Account) (contactQuery : AccountQuery) : Option ContactInput := do
  let contact ← w.account env contactQuery
  let x := (w.server.sessions s).accountId
  if contact.id = x then none
  else if w.next.pending { type := some .addContact, src := some x, dst := some contact.id } then
    none
  else
    let publicKey ← publicKeyOf head
    return ⟨account, contact, publicKey⟩

/-- The input of `processAddContactRequest`, unless it turns the request down. -/
def addContactInput : Option ContactInput :=
  if (w.server.sessions s).status = .loggedIn then do
    let account ← w.account env { id := some (w.server.sessions s).accountId }
    if namedAddCode head ≠ "" then
      let request ← addCodeRecord w.next head
      contactInput env (w.skip 2) s head account { id := some request.src }
    else if (head.get "name").toStr = "" then none
    else
      contactInput env (w.skip 1) s head account
        { name := some (head.get "name").toStr, findByName := some true }
  else none

/-- The request stored by `processAddContactRequest`. -/
def contactRequest (x : UInt32) (i : ContactInput) : Request :=
  { id := (head.get "requestId").toInt, type := .addContact, src := x,
    dst := some i.contact.id, name := some i.account.name, phone := some i.account.phone,
    publicKey := some i.publicKey, addCode := some (namedAddCode head) }

/-- How many choices `processAddContactRequest` has used up when it stores its request. -/
def addContactSlot : Nat := if namedAddCode head ≠ "" then 4 else 3

/-- What is left to do once the request is stored: drop the add code, answer, and have the
requests of the contact processed. -/
def World.afterContact (w : World) (data : UBJ.Object) (i : ContactInput) : World :=
  (((if namedAddCode head ≠ "" then w.removeRequest { addCode := some (namedAddCode head) }
    else w).respond s (.success (head.get "requestId").toInt data)).schedule i.contact.id)

theorem run_addContactTo (account : Account) (contactQuery : AccountQuery) :
    match contactInput env w s head account contactQuery with
    | none => Refused s w (Proc.run (step env) (addContactTo s head account contactQuery) w)
    | some i => ∃ data, Proc.run (step env) (addContactTo s head account contactQuery) w =
        (true, ((w.skip 2).insertRequest
          (contactRequest head (w.server.sessions s).accountId i)).afterContact s head data i) := by
  unfold contactInput
  cases hc : w.account env contactQuery with
  | none =>
    simpa [addContactTo, Proc.run_bind, run_getAccount, hc] using
      refused_fail s w w.next rfl rfl _ _ _
  | some contact =>
    by_cases hx : contact.id = (w.server.sessions s).accountId
    · simpa [addContactTo, Proc.run_bind, run_getAccount, hc, hx] using
        refused_fail s w w.next rfl rfl _ _ _
    cases hpend : w.next.pending
        { type := some .addContact, src := some (w.server.sessions s).accountId,
          dst := some contact.id } with
    | true =>
      simpa [addContactTo, Proc.run_bind, run_getAccount, hc, hx, run_requestPending, hpend] using
        refused_fail s w w.next.next rfl rfl _ _ _
    | false =>
      cases hp : publicKeyOf head with
      | none =>
        simpa [addContactTo, Proc.run_bind, run_getAccount, hc, hx, run_requestPending, hpend, hp]
          using refused_fail s w w.next.next rfl rfl _ _ _
      | some publicKey =>
        by_cases hcode : (head.get "addCode").toStr = ""
        · simp [addContactTo, Proc.run_bind, run_getAccount, hc, hx, run_requestPending, hpend, hp,
            run_addRequest, World.afterContact, contactRequest, namedAddCode, hcode]
          exact ⟨_, rfl⟩
        · simp [addContactTo, Proc.run_bind, run_getAccount, hc, hx, run_requestPending, hpend, hp,
            run_addRequest, run_deleteRequest, World.afterContact, namedAddCode, hcode]
          exact ⟨_, rfl⟩

theorem run_processAddContactRequest :
    match addContactInput env w s head with
    | none => Refused s w (Proc.run (step env) (processAddContactRequest s head) w)
    | some i => ∃ data, Proc.run (step env) (processAddContactRequest s head) w =
        (true, ((w.skip (addContactSlot head)).insertRequest
          (contactRequest head (w.server.sessions s).accountId i)).afterContact s head data i) := by
  unfold addContactInput addCodeRecord
  by_cases hst : (w.server.sessions s).status = .loggedIn
  swap
  · simpa [processAddContactRequest, Proc.run_bind, hst] using refused_fail s w w rfl rfl _ _ _
  cases ha : w.account env { id := some (w.server.sessions s).accountId } with
  | none =>
    simpa [processAddContactRequest, Proc.run_bind, hst, run_getAccount, ha] using
      refused_fail s w w.next rfl rfl _ _ _
  | some account =>
    by_cases hcode : namedAddCode head = ""
    · have hcode' : (head.get "addCode").toStr = "" := hcode
      by_cases hname : (head.get "name").toStr = ""
      · simpa [processAddContactRequest, Proc.run_bind, hst, run_getAccount, ha, hcode, hcode',
          hname] using refused_fail s w w.next rfl rfl _ _ _
      · have hto := run_addContactTo env (w.skip 1) s head account
          { name := some (head.get "name").toStr, findByName := some true }
        have hrun : Proc.run (step env) (processAddContactRequest s head) w =
            Proc.run (step env) (addContactTo s head account
              { name := some (head.get "name").toStr, findByName := some true }) (w.skip 1) := by
          simp [processAddContactRequest, Proc.run_bind, hst, run_getAccount, ha, hcode', hname]
          rfl
        rw [hrun]
        simp only [hst, if_true, hcode, ne_eq, not_true_eq_false, if_false, hname,
          Option.bind_eq_bind, Option.bind_some, addContactSlot]
        cases hi : contactInput env (w.skip 1) s head account
          { name := some (head.get "name").toStr, findByName := some true } with
        | none =>
          rw [hi] at hto
          exact hto.of_skip
        | some i =>
          rw [hi] at hto
          exact hto
    · have hcode' : (head.get "addCode").toStr ≠ "" := hcode
      cases hr : w.next.request
          { type := some .addContact, addCode := some (namedAddCode head) } with
      | none =>
        have hr' : w.next.request
          { type := some .addContact, addCode := some (head.get "addCode").toStr } = none := hr
        simpa [processAddContactRequest, Proc.run_bind, hst, run_getAccount, ha, hcode, hcode',
          run_getRequest, hr, hr'] using refused_fail s w w.next.next rfl rfl _ _ _
      | some request =>
        have hr' : w.next.request
          { type := some .addContact, addCode := some (head.get "addCode").toStr } =
            some request := hr
        have hto := run_addContactTo env (w.skip 2) s head account { id := some request.src }
        have hrun : Proc.run (step env) (processAddContactRequest s head) w =
            Proc.run (step env) (addContactTo s head account { id := some request.src })
              (w.skip 2) := by
          simp [processAddContactRequest, Proc.run_bind, hst, run_getAccount, ha, hcode',
            run_getRequest, hr']
          rfl
        rw [hrun]
        simp only [hst, if_true, ne_eq, hcode, not_false_eq_true, Option.bind_eq_bind,
          Option.bind_some, addContactSlot]
        cases hi : contactInput env (w.skip 2) s head account { id := some request.src } with
        | none =>
          rw [hi] at hto
          exact hto.of_skip
        | some i =>
          rw [hi] at hto
          exact hto

/-! ## Push -/

/-- The request stored by a push for one recipient. -/
def pushRequest (x requestId dst : UInt32) (forward : UBJ.Object) : Request :=
  { id := requestId, type := .push, src := x, dst := some dst,
    data := some (ubjToBson (.object forward)) }

/-- The requests that a push from the account `x` stores, one for each key whose
recipient is another account. -/
def pushRequests (x requestId : UInt32) : UBJ.Object → List UBJ.Value → List Request
  | _, [] => []
  | forward, it :: keys =>
    if (it.get "dst").toInt = x then pushRequests x requestId forward keys
    else
      pushRequest x requestId (it.get "dst").toInt (forward.set "key" (it.get "key")) ::
        pushRequests x requestId (forward.set "key" (it.get "key")) keys

/-- Store one request of a push, and have the requests of its recipient processed. -/
def World.storePush (w : World) (r : Request) : World :=
  (w.insertRequest r).schedule (r.dst.getD 0)

theorem sessions_insertRequest (r : Request) :
    (w.insertRequest r).server.sessions = w.server.sessions := by
  by_cases hf : (w.tape 0).fails = true <;>
    simp [World.insertRequest, hf, ServerState.insertRequest]

theorem sessions_storePush (r : Request) :
    (w.storePush r).server.sessions = w.server.sessions :=
  sessions_insertRequest w r

theorem run_pushKeys (requestId : UInt32) (forward : UBJ.Object) (keys : List UBJ.Value) :
    (Proc.run (step env) (pushKeys s requestId forward keys) w).2 =
      (pushRequests (w.server.sessions s).accountId requestId forward keys).foldl
        World.storePush w := by
  induction keys generalizing forward w with
  | nil => rfl
  | cons it keys ih =>
    by_cases hx : (it.get "dst").toInt = (w.server.sessions s).accountId
    · simp [pushKeys, Proc.run_bind, pushRequests, hx, ih]
    · have hw := sessions_storePush w (pushRequest (w.server.sessions s).accountId requestId
        (it.get "dst").toInt (forward.set "key" (it.get "key")))
      simp only [pushKeys, Proc.run_bind, Proc.run_perform, step_accountId, hx, if_false,
        run_addRequest, Bool.not_true, Bool.false_eq_true, step_schedule, pushRequests,
        List.foldl_cons]
      refine (ih (w.storePush (pushRequest (w.server.sessions s).accountId requestId
        (it.get "dst").toInt (forward.set "key" (it.get "key")))) _).trans ?_
      rw [hw]

/-- The requests that a push stores. -/
def pushedRequests (x : UInt32) : List Request :=
  pushRequests x (head.get "requestId").toInt (forwardOf x head) (head.get "keys").toArray

/-- A key that was put into the object before is replaced by the next. -/
theorem pushRequests_set (x requestId : UInt32) (forward : UBJ.Object) (v : UBJ.Value)
    (keys : List UBJ.Value) :
    pushRequests x requestId (forward.set "key" v) keys =
      pushRequests x requestId forward keys := by
  induction keys with
  | nil => rfl
  | cons it keys ih => simp only [pushRequests, ih, UBJ.Object.set_set]

/-- Each request of a push is made from one entry of the keys, and from the head alone. -/
theorem mem_pushedRequests {x : UInt32} {r : Request} : r ∈ pushedRequests head x ↔
    ∃ it ∈ (head.get "keys").toArray, (it.get "dst").toInt ≠ x ∧
      r = pushRequest x (head.get "requestId").toInt (it.get "dst").toInt
        ((forwardOf x head).set "key" (it.get "key")) := by
  rw [pushedRequests]
  induction (head.get "keys").toArray with
  | nil => simp [pushRequests]
  | cons it keys ih =>
    rw [pushRequests, pushRequests_set]
    by_cases hx : (it.get "dst").toInt = x <;> simp [hx, ih]

theorem run_processPushRequest (hst : (w.server.sessions s).status = .loggedIn) :
    ∃ data, Proc.run (step env) (processPushRequest s head) w =
      (true,
        ((pushedRequests head (w.server.sessions s).accountId).foldl World.storePush w).respond s
          (.success (head.get "requestId").toInt data)) := by
  simp [processPushRequest, Proc.run_bind, hst, run_pushKeys]
  exact ⟨_, rfl⟩

/-! ## Dispatch -/

/-- What `processDispatchRequest` removes. -/
def dispatchQuery (x : UInt32) : RequestQuery :=
  { id := some (head.get "dispatchId").toInt, srcOrDst := some x }

theorem run_processDispatchRequest (hst : (w.server.sessions s).status = .loggedIn) :
    Proc.run (step env) (processDispatchRequest s head) w =
      if head.hasField "dispatchId" then
        (!(w.tape 0).fails,
          (w.removeRequest (dispatchQuery head (w.server.sessions s).accountId)).respond s
          (if (w.tape 0).fails then .failure (head.get "requestId").toInt 0 "invalid data"
            else .success (head.get "requestId").toInt []))
      else (false, w) := by
  by_cases hd : head.hasField "dispatchId" = true
  · by_cases hf : (w.tape 0).fails = true <;>
      simp [processDispatchRequest, Proc.run_bind, hst, hd, run_deleteRequest, hf, dispatchQuery]
  · simp [processDispatchRequest, Proc.run_bind, hst, hd]

/-! ## Accounts -/

/-- The id of a new account. -/
def World.newAccountId (w : World) : UInt32 :=
  if (w.tape 0).fails then 0 else ((maxAccountId w.server.accounts).map (· + 1)).getD 1

theorem run_newAccountId : Proc.run (step env) DB.newAccountId w = (w.newAccountId, w.next) := by
  rw [DB.newAccountId, Proc.run_bind, Proc.run_perform]
  by_cases hf : (w.tape 0).fails = true
  · simp [step, exec, Op.draws, dbCall, hf, World.newAccountId, World.next]
  · cases hm : maxAccountId w.server.accounts <;>
      simp [step, exec, Op.draws, dbCall, hf, hm, World.newAccountId, World.next]

theorem run_insertAccount (a : Account) : Proc.run (step env) (DB.insertAccount a) w =
    (!(w.tape 0).fails,
      if (w.tape 0).fails then w.next else w.next.update (·.insertAccount a)) := by
  rw [DB.insertAccount, Proc.run_bind, Proc.run_perform]
  by_cases hf : (w.tape 0).fails = true <;>
    simp [step, exec, Op.draws, dbCall, hf, World.next, World.update]

/-- The account that `processCreateAccount` inserts, unless it turns the request down. -/
def createInput : Option Account :=
  if (w.server.sessions s).status = .loggedIn then none
  else if head.hasField "name" = false ∨ (head.get "name").toStr = "" then none
  else if head.hasField "password" = false ∨ (head.get "password").bufferSize ≠ 32 then none
  else if (w.account env { nameRegex := some (head.get "name").toStr }).isSome then none
  else some
    { id := w.next.newAccountId, name := (head.get "name").toStr, phone := (head.get "phone").toStr,
      findByName := (head.get "findByName").toBool, findByPhone := (head.get "findByPhone").toBool,
      pass := env.sha256 ((head.get "password").buffer?.getD [] ++ (w.tape 2).salt),
      salt := (w.tape 2).salt }

theorem run_processCreateAccount :
    match createInput env w s head with
    | none => Refused s w (Proc.run (step env) (processCreateAccount env s head) w)
    | some a => Proc.run (step env) (processCreateAccount env s head) w =
        if (w.tape 3).fails then
          (false, (w.skip 4).respond s
            (.failure (head.get "requestId").toInt 0 "Failed to create account"))
        else
          (true, ((w.skip 4).update (·.insertAccount a)).respond s
            (.success (head.get "requestId").toInt [("accountId", .int32 a.id)])) := by
  unfold createInput
  by_cases hst : (w.server.sessions s).status = .loggedIn
  · simpa [processCreateAccount, Proc.run_bind, hst] using refused_fail s w w rfl rfl _ _ _
  by_cases hname : head.hasField "name" = false ∨ (head.get "name").toStr = ""
  · simpa [processCreateAccount, Proc.run_bind, hst, hname] using refused_fail s w w rfl rfl _ _ _
  by_cases hpass : head.hasField "password" = false ∨ (head.get "password").bufferSize ≠ 32
  · simpa [processCreateAccount, Proc.run_bind, hst, hname, hpass] using
      refused_fail s w w rfl rfl _ _ _
  cases ha : (w.account env { nameRegex := some (head.get "name").toStr }).isSome with
  | true =>
    simpa [processCreateAccount, Proc.run_bind, hst, hname, hpass, run_getAccount, ha] using
      refused_fail s w w.next rfl rfl _ _ _
  | false =>
    simp only [hst, hname, hpass, if_false, Bool.false_eq_true]
    by_cases hf : (w.tape 3).fails = true <;>
      simp [processCreateAccount, Proc.run_bind, hst, hname, hpass, run_getAccount, ha,
        run_newAccountId, run_insertAccount, hf]
    · rfl
    · rfl

/-! ## Login and logout -/

/-- The account that `processLogin` logs the session in to, unless it turns the request
down. -/
def loginInput : Option UInt32 :=
  if (w.server.sessions s).status = .loggedIn then none
  else if head.hasField "account" = false ∨ head.hasField "password" = false then none
  else
    match w.account env { id := some (head.get "account").toInt } with
    | none => none
    | some account =>
      if verifyPassword env account (head.get "password").buffer? = some true then
        some (head.get "account").toInt
      else none

theorem run_processLogin :
    match loginInput env w s head with
    | none => Refused s w (Proc.run (step env) (processLogin env s head) w)
    | some x => Proc.run (step env) (processLogin env s head) w =
        (true, (Proc.run (step env) (afterLogin env s head x)
          (w.next.update (·.login s x))).2) := by
  unfold loginInput
  by_cases hst : (w.server.sessions s).status = .loggedIn
  · simpa [processLogin, Proc.run_bind, hst] using refused_fail s w w rfl rfl _ _ _
  by_cases haccount : head.hasField "account" = false
  · simpa [processLogin, Proc.run_bind, hst, haccount] using refused_fail s w w rfl rfl _ _ _
  by_cases hpassword : head.hasField "password" = false
  · simpa [processLogin, Proc.run_bind, hst, haccount, hpassword] using
      refused_fail s w w rfl rfl _ _ _
  cases ha : w.account env { id := some (head.get "account").toInt } with
  | none =>
    simpa [processLogin, Proc.run_bind, hst, haccount, hpassword, run_getAccount, ha] using
      refused_fail s w w.next rfl rfl _ _ _
  | some account =>
    cases hv : verifyPassword env account (head.get "password").buffer? with
    | none =>
      simpa [processLogin, Proc.run_bind, hst, haccount, hpassword, run_getAccount, ha, hv] using
        refused_terminate s w w.next rfl rfl
    | some ok =>
      cases ok with
      | false =>
        simpa [processLogin, Proc.run_bind, hst, haccount, hpassword, run_getAccount, ha, hv]
          using refused_fail s w w.next rfl rfl _ _ _
      | true =>
        simp [processLogin, Proc.run_bind, hst, haccount, hpassword, run_getAccount, ha, hv]
        rfl

/-- A login is answered, and then the stored requests are processed. -/
theorem run_answerLogin (x : UInt32) :
    ∃ (w' : World) (data : UBJ.Object), Quiet w.server w'.server ∧
      (Proc.run (step env) (answerLogin env s head x) w).2 =
        (Proc.run (step env) (processRequests env s)
          (w'.respond s (.success (head.get "requestId").toInt data))).2 := by
  let status := Proc.run (step env) (contactStatusList s) w
  let inbox := Proc.run (step env) (DB.getInbox x) status.2
  have hstatus : Quiet w.server status.2.server := quiet_run (quiet_contactStatusList s) w
  have hinbox : Quiet status.2.server inbox.2.server := quiet_run (quiet_getInbox x) status.2
  refine ⟨inbox.2, [("contactStatus", .array status.1), ("inbox", .array (inbox.1.getD []))],
    hstatus.trans hinbox, ?_⟩
  simp only [answerLogin, Proc.run_bind, Proc.run_perform, step_respond, Proc.run_pure]
  rfl

/-- What comes before, if anything, is quiet. -/
theorem answered_afterLogin (x : UInt32) :
    ∃ (w' : World) (data : UBJ.Object), Quiet w.server w'.server ∧
      (Proc.run (step env) (afterLogin env s head x) w).2 =
        (Proc.run (step env) (processRequests env s)
          (w'.respond s (.success (head.get "requestId").toInt data))).2 := by
  rw [afterLogin_eq]
  split
  · obtain ⟨w', data, hw', hrun⟩ := run_answerLogin env
      (Proc.run (step env) (setConfig env s (head.get "config").toObject) w).2 s head x
    refine ⟨w', data, (quiet_run (quiet_setConfig env s _) w).trans hw', ?_⟩
    rw [Proc.run_bind]
    exact hrun
  · exact run_answerLogin env w s head x

/-- Once the session is registered, the login only delivers. -/
theorem run_afterLogin (x : UInt32) :
    Delivers
      (fun t p => t = s ∧ MadeFrom env w.server.requests (w.server.sessions s).accountId p)
      w.server (Proc.run (step env) (afterLogin env s head x) w).2.server := by
  obtain ⟨w', data, hw', hrun⟩ := answered_afterLogin env w s head x
  have hq : Quiet w.server
      (w'.respond s (.success (head.get "requestId").toInt data)).server :=
    hw'.trans (Quiet.respond _ s _)
  rw [hrun]
  refine hq.delivers.trans ((run_processRequests env s _).mono fun t p hp => ?_)
  rwa [hq.requests, hq.accountId] at hp

/-- The status that a session has does not matter to what is quiet. -/
theorem Quiet.setStatus {σ σ' : ServerState} (h : Quiet σ σ') (s : SessionId) (st : Status) :
    Quiet (σ.setStatus s st) (σ'.setStatus s st) :=
  { h with
    started := fun t => by by_cases ht : t = s <;> simp [ServerState.setStatus, ht, h.started]
    handshaken := fun t => by by_cases ht : t = s <;> simp [ServerState.setStatus, ht, h.handshaken]
    status := fun t => by by_cases ht : t = s <;> simp [ServerState.setStatus, ht, h.status]
    accountId := fun t => by by_cases ht : t = s <;> simp [ServerState.setStatus, ht, h.accountId]
    posted := fun t => by
      by_cases ht : t = s
      · subst ht
        simpa [ServerState.setStatus] using h.posted t
      · simpa [ServerState.setStatus, ht] using h.posted t
    outbox := fun t => by
      by_cases ht : t = s
      · subst ht
        simpa [ServerState.setStatus] using h.outbox t
      · simpa [ServerState.setStatus, ht] using h.outbox t }

theorem run_processLogout (hst : (w.server.sessions s).status = .loggedIn) :
    Quiet (w.server.setStatus s .connected)
      (Proc.run (step env) (processLogout env s head) w).2.server := by
  have hfcm : ∀ id, Prog.IsQuiet (DB.setFcmToken id "") := fun id => by
    simp
  simp only [processLogout, Proc.run_bind, Proc.run_perform, step_status, step_accountId,
    step_respond, step_setStatus, hst, Status.lt_loggedIn, ne_eq, not_true_eq_false, if_false,
      Proc.run_pure]
  let w1 := w.respond s (.success (head.get "requestId").toInt [])
  let w2 := (Proc.run (step env) (DB.setFcmToken (w1.server.sessions s).accountId "") w1).2
  have h1 : Quiet w.server w1.server := Quiet.respond _ _ _
  have h2 : Quiet w1.server w2.server := quiet_run (hfcm _) w1
  have h3 : Quiet (w.server.setStatus s .connected) (w2.update (·.setStatus s .connected)).server :=
    Quiet.setStatus (h1.trans h2) s .connected
  exact h3.trans (quiet_run (quiet_broadcastStatus env s 0 true) _)

end

/-! ## Uploads -/

/-- The process has ended. -/
def World.terminate (w : World) : World := w.update fun σ => { σ with terminated := true }

/-- A new file, and a buffer on it. -/
def World.createFile (w : World) (filename : String) (pkt : Packet) : World :=
  w.next.update fun σ =>
    { σ with
      files := Function.update σ.files filename (some [])
      heap := σ.heap ++
        [{ streamId := pkt.streamId, streamType := pkt.streamType, streamParts := pkt.parts,
           bytesReadable := 0, lastActivity := 0, filename := filename, append := true }] }

/-- What a write leaves in the file. -/
def Choice.put (c : Choice) (data : List UInt8) : List UInt8 :=
  if c.fails ∨ c.unflushed then data.take (min c.written (data.length - 1)) else data

section

variable (env : Env) (w : World)

/-- A file that exists ends the process. -/
theorem run_streamBufferCreate (filename : String) (pkt : Packet) :
    Proc.run (step env) (StreamBuffer.create filename pkt) w =
      if (w.server.files filename).isSome then (none, w.terminate)
      else if (w.tape 0).fails then (none, w.next)
      else (some w.server.heap.length, w.createFile filename pkt) := by
  by_cases hfile : (w.server.files filename).isSome = true
  · simp [StreamBuffer.create, Proc.run_bind, step, exec, Op.draws, hfile, World.terminate,
      World.update]
  · have hnone : w.server.files filename = none := by simpa using hfile
    by_cases hopen : (w.tape 0).fails = true <;>
      simp [StreamBuffer.create, Proc.run_bind, step, exec, Op.draws, hnone, hopen, World.next,
        World.createFile, World.update]

/-- Only a buffer that was made can be written. -/
theorem lt_length_of_append {heap : List StreamBuffer} {ref : Nat}
    (h : (heap.getD ref default).append = true) : ref < heap.length := by
  by_contra hge
  rw [List.getD_eq_default _ _ (not_lt.mp hge)] at h
  cases h

/-- What a write does: it puts its data into the file of a buffer that can be written, and the
buffer grows if it succeeds, whether the data are in the file or not. -/
theorem run_streamBufferWrite (ref : Nat) (data : List UInt8) :
    (Proc.run (step env) (StreamBuffer.write ref data) w).2.server =
      let b := w.server.heap.getD ref default
      let files := Function.update w.server.files b.filename
        (some ((w.server.files b.filename).getD [] ++ (w.tape 0).put data))
      if b.append = false then w.server
      else if (w.tape 0).fails ∨ data = [] then { w.server with files := files }
      else { w.server with
        files := files
        heap := w.server.heap.set ref
          { b with
            bytesReadable := b.bytesReadable + UInt64.ofNat data.length
            lastActivity := (w.tape 1).time } } := by
  cases happend : (w.server.heap.getD ref default).append with
  | false =>
    simp [-List.getD_eq_getElem?_getD, StreamBuffer.write, Proc.run_bind, step, exec, Op.draws,
      happend]
  | true =>
    by_cases hf : (w.tape 0).fails ∨ data = []
    · rcases hf with hf | rfl
      · simp [-List.getD_eq_getElem?_getD, StreamBuffer.write, Proc.run_bind, step, exec, Op.draws,
          happend, hf, Choice.put]
      · simp [-List.getD_eq_getElem?_getD, StreamBuffer.write, Proc.run_bind, step, exec, Op.draws,
          happend, Choice.put]
    · obtain ⟨hf, hdata⟩ := not_or.mp hf
      have hset : ∀ b : StreamBuffer, (w.server.heap.set ref b).getD ref default = b := fun b => by
        simp [List.getD, lt_length_of_append happend]
      simp only [StreamBuffer.write, Proc.run_bind, Proc.run_perform, Proc.run_ite, Proc.run_pure,
        step, exec, Op.draws, happend, hset]
      simp [-List.getD_eq_getElem?_getD, hf, Choice.put, hdata]

end

end ZwayServer
