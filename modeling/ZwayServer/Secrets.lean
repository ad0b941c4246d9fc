import ZwayServer.Proc.TwoRuns
import ZwayServer.Footprint
import ZwayServer.Spec

/-!
# Passwords stay secret

What depends on the passwords of the accounts, on their salts and on the hash function?  Nothing
but which logins succeed: two runs that differ only in these, and in which the same logins are
accepted, differ in nothing else, so no client can tell them apart.

* `veil` — an answer without the secrets of the accounts in it.
* `modest_…` — the handlers make use of nothing else, but for the two that take a password.
* `Masked` — worlds that differ only in secrets.
* `secrets_stay` — whole runs.
-/

namespace ZwayServer

open ClientSession

/-! ## Secrets -/

/-- The account without its digest and its salt. -/
def Account.veiled (a : Account) : Account := { a with pass := [], salt := [] }

/-- The server without the secrets of the accounts. -/
def ServerState.veiled (σ : ServerState) : ServerState :=
  { σ with accounts := σ.accounts.map Account.veiled }

/-- The answer of an operation without the secrets in it. -/
def veil : (o : Op) → o.Res → o.Res
  | .findAccount _, r => r.map (Option.map Account.veiled)
  | .findAccounts .., r => CursorAnswer.map Account.veiled r
  | .randomSalt, _ => []
  | _, r => r

/-- The libraries with another hash function. -/
def Env.withHash (env : Env) (hash : List UInt8 → List UInt8) : Env := { env with sha256 := hash }

/-- The choices differ at most in the salt. -/
def Choice.SameButSalt (c c' : Choice) : Prop := c' = { c with salt := c'.salt }

/-- Two worlds that differ only in secrets. -/
structure Masked (w w' : World) : Prop where
  server : w'.server.veiled = w.server.veiled
  tape : ∀ n, (w.tape n).SameButSalt (w'.tape n)

/-! ## Operations -/

section

variable (env : Env) {σ σ' : ServerState}

@[simp] theorem Account.veiled_veiled (a : Account) : a.veiled.veiled = a.veiled := rfl

@[simp] theorem ServerState.veiled_veiled (σ : ServerState) : σ.veiled.veiled = σ.veiled := by
  simp [ServerState.veiled]

/-- No query looks at a secret. -/
theorem test_veiled {q : AccountQuery} {p : Account → Bool} (h : q.test env = some p)
    (a : Account) : p a.veiled = p a := by
  rw [AccountQuery.test] at h
  split at h
  · obtain rfl := Option.some.inj h
    rfl
  · obtain ⟨m, -, rfl⟩ := Option.map_eq_some_iff.mp h
    rfl

theorem maxAccountId_veiled (as : List Account) :
    maxAccountId (as.map Account.veiled) = maxAccountId as := by
  induction as with
  | nil => rfl
  | cons a as ih =>
    simp only [List.map_cons, maxAccountId, ih]
    rfl

theorem find?_veiled {p : Account → Bool} (hp : ∀ a : Account, p a.veiled = p a)
    (as : List Account) :
    ((as.map Account.veiled).find? p).map Account.veiled = (as.find? p).map Account.veiled := by
  rw [List.find?_map]
  simp [Function.comp_def, hp]

theorem filter_veiled {p : Account → Bool} (hp : ∀ a : Account, p a.veiled = p a)
    (as : List Account) (limit : ℕ) :
    (((as.map Account.veiled).filter p).take limit).map Account.veiled =
      ((as.filter p).take limit).map Account.veiled := by
  rw [List.filter_map]
  simp [Function.comp_def, hp]

theorem setFcmToken_veiled (as : List Account) (id : UInt32) (token : String) :
    ((as.map Account.veiled).replaceF fun a =>
        if a.id = id then some { a with fcmToken := token } else none).map Account.veiled =
      (as.replaceF fun a => if a.id = id then some { a with fcmToken := token } else none).map
        Account.veiled := by
  induction as with
  | nil => rfl
  | cons a as ih =>
    by_cases ha : a.id = id
    · have hv : a.veiled.id = id := ha
      simp [List.replaceF, ha, hv]
      rfl
    · have hv : a.veiled.id ≠ id := ha
      simp [List.replaceF, ha, hv, ih]

/-- The changes of the other parts of the server leave the accounts alone. -/
theorem exec_veiled_of_ne {o : Op} (hinsert : ∀ a, o ≠ .insertAccount a)
    (htoken : ∀ id token, o ≠ .setFcmToken id token) (c : Choice) (σ : ServerState) :
    (exec env o c σ.veiled).2 = (exec env o c σ).2.veiled := by
  by_cases hreads : o.Reads
  · rw [exec_of_reads env hreads, exec_of_reads env hreads]
  cases o with
  | insertAccount a => exact absurd rfl (hinsert a)
  | setFcmToken id token => exact absurd rfl (htoken id token)
  | insertRequest | removeRequest | addReceiver | addEngineSender | fopenAppend =>
    simp only [exec, dbCall]
    split <;> rfl
  | removeSession s =>
    show σ.veiled.removeSession s = (σ.removeSession s).veiled
    rw [ServerState.removeSession, ServerState.removeSession]
    dsimp only
    split
    · next h => rw [if_pos (show (σ.sessions s).accountId ∈ σ.registry from h)]; rfl
    · next h => rw [if_neg (show ¬ (σ.sessions s).accountId ∈ σ.registry from h)]
  | _ => first | rfl | exact absurd trivial hreads

/-- An operation does with the secrets what it does without them. -/
theorem exec_veiled (o : Op) (c : Choice) (σ : ServerState) :
    veil o (exec env o c σ.veiled).1 = veil o (exec env o c σ).1 ∧
      (exec env o c σ.veiled).2.veiled = (exec env o c σ).2.veiled := by
  cases o with
  | insertAccount a =>
    simp only [exec, dbCall, veil]
    split
    · exact ⟨rfl, σ.veiled_veiled⟩
    · exact ⟨rfl, by simp [ServerState.veiled, ServerState.insertAccount]⟩
  | setFcmToken id token =>
    simp only [exec, dbCall, veil]
    split
    · exact ⟨rfl, σ.veiled_veiled⟩
    · exact ⟨rfl, congrArg (fun as => { σ with accounts := as })
        (setFcmToken_veiled σ.accounts id token)⟩
  | findAccount q =>
    refine ⟨?_, by rw [exec_veiled_of_ne env (by simp) (by simp), ServerState.veiled_veiled]⟩
    simp only [exec]
    split
    · rfl
    · next p hp =>
      simp only [dbCall]
      split
      · rfl
      · exact congrArg Except.ok (find?_veiled (test_veiled env hp) σ.accounts)
  | findAccounts q limit =>
    refine ⟨?_, by rw [exec_veiled_of_ne env (by simp) (by simp), ServerState.veiled_veiled]⟩
    simp only [exec]
    split
    · rfl
    · next p hp =>
      simp only [veil, cursor_map]
      exact congrArg (cursor c) (filter_veiled (test_veiled env hp) σ.accounts limit)
  | maxAccountId =>
    refine ⟨?_, by rw [exec_veiled_of_ne env (by simp) (by simp), ServerState.veiled_veiled]⟩
    simp only [exec, dbCall, veil]
    split
    · rfl
    · exact congrArg Except.ok (maxAccountId_veiled σ.accounts)
  | insertRequest | removeRequest | findRequest | inboxRequests | countRequests | addReceiver
  | addEngineSender | fopenAppend =>
    refine ⟨?_, by rw [exec_veiled_of_ne env (by simp) (by simp), ServerState.veiled_veiled]⟩
    simp only [exec, dbCall, veil]
    split <;> rfl
  | _ => exact ⟨rfl, by rw [exec_veiled_of_ne env (by simp) (by simp), ServerState.veiled_veiled]⟩

/-- An operation does the same with another salt. -/
theorem exec_salt (o : Op) {c c' : Choice} (h : c.SameButSalt c') (σ : ServerState) :
    veil o (exec env o c' σ).1 = veil o (exec env o c σ).1 ∧
      (exec env o c' σ).2 = (exec env o c σ).2 := by
  rw [show c' = _ from h]
  cases o <;> exact ⟨rfl, rfl⟩

variable {env}

/-- **One operation.** -/
theorem Masked.step {w w' : World} (h : Masked w w') (o : Op) :
    veil o (ZwayServer.step env o w').1 = veil o (ZwayServer.step env o w).1 ∧
      Masked (ZwayServer.step env o w).2 (ZwayServer.step env o w').2 := by
  obtain ⟨hanswer, hstate⟩ := exec_salt env o (h.tape 0) w'.server
  obtain ⟨hanswer', hstate'⟩ := exec_veiled env o (w.tape 0) w'.server
  obtain ⟨hanswer'', hstate''⟩ := exec_veiled env o (w.tape 0) w.server
  rw [h.server] at hanswer' hstate'
  refine ⟨?_, ?_, fun n => ?_⟩
  · exact hanswer.trans (hanswer'.symm.trans hanswer'')
  · show (exec env o (w'.tape 0) w'.server).2.veiled = (exec env o (w.tape 0) w.server).2.veiled
    rw [hstate]
    exact hstate'.symm.trans hstate''
  · show (if o.draws then fun n => w.tape (n + 1) else w.tape) n |>.SameButSalt
      ((if o.draws then fun n => w'.tape (n + 1) else w'.tape) n)
    split
    · exact h.tape (n + 1)
    · exact h.tape n

end

/-! ## Handlers that make no use of secrets -/

/-- The operations whose answers hold no secrets. -/
@[simp] def Op.Plain : Op → Prop
  | .findAccount _ | .findAccounts .. | .randomSalt => False
  | _ => True

/-- The program makes no use of the secrets in an answer. -/
abbrev Prog.Modest {α : Type} (p : Prog α) : Prop := Proc.Blind veil p

section

variable {α : Type}

theorem modest_of_plain {p : Prog α} (hp : Proc.Within Op.Plain p) : p.Modest := by
  refine Proc.Blind.of_within hp fun o r ho => ?_
  cases o with
  | findAccount | findAccounts | randomSalt => exact ho.elim
  | _ => rfl

/-- What is plain comes first. -/
theorem Prog.Modest.after {β : Type} {p : Prog β} {f : β → Prog α} (hp : Proc.Within Op.Plain p)
    (hf : ∀ b, (f b).Modest) : (p >>= f).Modest :=
  (modest_of_plain hp).bind hf

/-- A lookup of an account of which no secret is read. -/
theorem modest_getAccount (q : AccountQuery) {f : Option Account → Prog α}
    (hread : ∀ a : Account, f (some a.veiled) = f (some a)) (hf : ∀ x, (f x).Modest) :
    (DB.getAccount q >>= f).Modest := by
  intro r
  rcases r with e | (_ | a)
  · exact ⟨rfl, hf none⟩
  · exact ⟨rfl, hf none⟩
  · exact ⟨hread a, hf (some a)⟩

/-- A search for accounts of which no secret is read. -/
theorem modest_getContacts (q : AccountQuery) {f : List Account → Prog α}
    (hread : ∀ as : List Account, f (as.map Account.veiled) = f as) (hf : ∀ as, (f as).Modest) :
    (DB.getContacts q >>= f).Modest := by
  intro r
  rcases r with as | as <;> exact ⟨hread as, hf as⟩

theorem modest_getFcmToken (x : UInt32) {f : String → Prog α} (hf : ∀ token, (f token).Modest) :
    (DB.getFcmToken x >>= f).Modest := by
  intro r
  rcases r with e | (_ | a)
  · exact ⟨rfl, hf ""⟩
  · exact ⟨rfl, hf ""⟩
  · exact ⟨rfl, hf a.fcmToken⟩

end

section

variable (env : Env) (s : SessionId) (head : UBJ.Object)

theorem modest_addContactTo (account : Account) (q : AccountQuery) :
    (addContactTo s head account q).Modest := by
  rw [addContactTo]
  refine modest_getAccount q (fun _ => rfl) fun found => modest_of_plain ?_
  cases found with
  | none => simp
  | some contact => cases publicKeyOf head <;> simp

theorem modest_processAddContactRequest : (processAddContactRequest s head).Modest := by
  rw [processAddContactRequest]
  refine .after (by simp) fun st => ?_
  dsimp only
  split
  · exact modest_of_plain (by simp)
  refine .after (by simp) fun x => ?_
  refine modest_getAccount _ (fun _ => rfl) fun account => ?_
  cases account with
  | none => exact modest_of_plain (by simp)
  | some account =>
    dsimp only
    split
    · refine .after (by simp) fun request => ?_
      cases request with
      | none => exact modest_of_plain (by simp)
      | some request => exact modest_addContactTo s head account _
    split
    · exact modest_of_plain (by simp)
    · exact modest_addContactTo s head account _

theorem modest_processCreateAddCode : (processCreateAddCode s head).Modest := by
  rw [processCreateAddCode]
  refine .after (by simp) fun st => ?_
  dsimp only
  split
  · exact modest_of_plain (by simp)
  cases publicKeyOf head with
  | none => exact modest_of_plain (by simp)
  | some publicKey =>
    refine .after (by simp) fun x => ?_
    refine modest_getAccount _ (fun _ => rfl) fun account => modest_of_plain ?_
    cases account <;> simp

theorem modest_processAcceptContact : (processAcceptContact s head).Modest := by
  rw [processAcceptContact]
  refine .after (by simp) fun st => ?_
  dsimp only
  split
  · exact modest_of_plain (by simp)
  refine .after (by simp) fun x => ?_
  refine .after (by simp) fun request => ?_
  cases request with
  | none => exact modest_of_plain (by simp)
  | some request =>
    refine .after (by simp) fun y => ?_
    refine modest_getAccount _ (fun _ => rfl) fun account => modest_of_plain ?_
    have hstatus : Proc.Within Op.Plain (getContactStatus request.src) :=
      within_getContactStatus (fun _ => trivial) (fun _ => trivial) _
    cases account with
    | none => simp
    | some account =>
      cases request.publicKey with
      | none => simp
      | some contactKey => cases publicKeyOf head <;> simp [hstatus.safe]

theorem modest_processFindContactRequest : (processFindContactRequest s head).Modest := by
  rw [processFindContactRequest]
  refine .after (by simp) fun st => ?_
  dsimp only
  split
  · exact modest_of_plain (by simp)
  split
  · exact modest_of_plain (by simp)
  split
  · refine .after (by simp) fun x => ?_
    refine modest_getContacts _ (fun as => ?_) fun as => modest_of_plain (by simp)
    rw [List.map_map]
    rfl
  · exact modest_of_plain (by simp)

theorem modest_processPushRequest : (processPushRequest s head).Modest := by
  have hkeys : ∀ (keys : List UBJ.Value) (id : UInt32) (forward : UBJ.Object),
      Proc.Within Op.Plain (pushKeys s id forward keys) := by
    intro keys id
    induction keys with
    | nil => exact fun _ => trivial
    | cons it keys ih => exact fun forward => by simp [pushKeys, ih]
  rw [processPushRequest]
  refine .after (by simp) fun st => ?_
  dsimp only
  split
  · exact modest_of_plain (by simp)
  refine .after (by simp) fun x => .after (hkeys _ _ _) fun _ => modest_of_plain (by simp)

/-- The handlers that take no password. -/
theorem modest_processIncomingRequest {t : RequestType}
    (ht : env.decode (head.get "requestType").toInt = some t) (hcreate : t ≠ .createAccount)
    (hlogin : t ≠ .login) : (processIncomingRequest env s head).Modest := by
  simp only [processIncomingRequest, ht]
  cases t with
  | createAccount => exact absurd rfl hcreate
  | login => exact absurd rfl hlogin
  | dispatch => exact modest_of_plain (by simp [processDispatchRequest])
  | logout =>
    refine modest_of_plain ((within_processLogout env s head).sub fun o ho => ?_)
    cases o <;> trivial
  | config =>
    refine modest_of_plain ((within_processConfigRequest env s head).sub fun o ho => ?_)
    cases o <;> trivial
  | addContact => exact modest_processAddContactRequest s head
  | createAddCode => exact modest_processCreateAddCode s head
  | findContact => exact modest_processFindContactRequest s head
  | acceptContact => exact modest_processAcceptContact s head
  | rejectContact =>
    rw [processRejectContact]
    refine .after (by simp) fun st => ?_
    dsimp only
    split
    · exact modest_of_plain (by simp)
    refine .after (by simp) fun x => .after (by simp) fun request => modest_of_plain ?_
    cases request <;> simp
  | contactStatus =>
    have hlist : Proc.Within Op.Plain (contactStatusList s) :=
      within_contactStatusList (fun _ => trivial) (fun _ => trivial) (fun _ => trivial) s
    exact modest_of_plain (by simp [processContactStatusRequest, hlist.safe])
  | push => exact modest_processPushRequest s head

theorem modest_afterLogin (x : UInt32) : (afterLogin env s head x).Modest := by
  refine modest_of_plain ((within_afterLogin env s head x).sub fun o ho => ?_)
  cases o <;> first | trivial | exact ho.elim id id

theorem modest_processUserRequests (x : UInt32) : (Server.processUserRequests env x).Modest := by
  have hrequests : ∀ t, Proc.Within Op.Plain (processRequests env t) := by
    intro t
    refine (within_processRequests env t).sub fun o ho => ?_
    cases o <;> trivial
  unfold Server.processUserRequests
  refine .after (by simp) fun sessions => ?_
  split
  · exact modest_of_plain (Proc.Safe.forM fun t _ => by simp [(hrequests t).safe])
  · refine modest_getFcmToken x fun token => modest_of_plain ?_
    simp [DB.numContactRequests, DB.numPushRequests, forall_answer]

end

/-! ## Handlers in two worlds -/

section

variable {env : Env} {hash : List UInt8 → List UInt8} {w w' : World} {α β : Type}

/-- No operation hashes anything. -/
theorem step_withHash : step (env.withHash hash) = step env := by
  funext o w
  cases o <;> rfl

theorem account_withHash (w : World) (q : AccountQuery) :
    w.account (env.withHash hash) q = w.account env q := rfl

/-- A program that makes no use of secrets does the same in both worlds. -/
theorem Masked.run {p : Prog α} (h : Masked w w') (hp : p.Modest) :
    (Proc.run (ZwayServer.step env) p w').1 = (Proc.run (ZwayServer.step env) p w).1 ∧
      Masked (Proc.run (ZwayServer.step env) p w).2 (Proc.run (ZwayServer.step env) p w').2 := by
  have hall : Proc.Within (fun _ => True) p := by
    clear hp
    induction p with
    | ret a => exact trivial
    | op o k ih => exact ⟨trivial, fun r _ => ih r⟩
  exact hp.run hall (fun o _ _ _ hw => hw.step o) h

/-- Two programs that begin with the same part. -/
theorem Masked.bind {p : Prog β} {f f' : β → Prog α} (h : Masked w w') (hp : p.Modest)
    (hf : ∀ b w w', Masked w w' → Masked (Proc.run (ZwayServer.step env) (f b) w).2
      (Proc.run (ZwayServer.step env) (f' b) w').2) :
    Masked (Proc.run (ZwayServer.step env) (p >>= f) w).2
      (Proc.run (ZwayServer.step env) (p >>= f') w').2 := by
  obtain ⟨hresult, hworld⟩ := @Masked.run env _ _ _ _ h hp
  rw [Proc.run_bind, Proc.run_bind, hresult]
  exact hf _ _ _ hworld

theorem Masked.sessions (h : Masked w w') : w'.server.sessions = w.server.sessions := by
  have hsessions := congrArg ServerState.sessions h.server
  exact hsessions

theorem Masked.next (h : Masked w w') : Masked w.next w'.next :=
  ⟨h.server, fun n => h.tape (n + 1)⟩

theorem Masked.update (h : Masked w w') {f f' : ServerState → ServerState}
    (hf : (f' w'.server).veiled = (f w.server).veiled) : Masked (w.update f) (w'.update f') :=
  ⟨hf, h.tape⟩

theorem Masked.fails (h : Masked w w') (n : ℕ) : (w'.tape n).fails = (w.tape n).fails := by
  rw [show w'.tape n = _ from h.tape n]

/-- The account that is found is the same, but for its secrets. -/
theorem Masked.account (h : Masked w w') (q : AccountQuery) :
    (w'.account env q).map Account.veiled = (w.account env q).map Account.veiled := by
  have haccounts : w'.server.accounts.map Account.veiled = w.server.accounts.map Account.veiled :=
    congrArg ServerState.accounts h.server
  rw [World.account, World.account, h.fails]
  split
  · rfl
  · cases hq : q.test env with
    | none => rfl
    | some p =>
      have htest := test_veiled env hq
      show (w'.server.accounts.find? p).map _ = (w.server.accounts.find? p).map _
      rw [← find?_veiled htest, haccounts, find?_veiled htest]

end

/-- The heads of two requests that differ in the password, which is of the same size. -/
structure SamePublic (head head' : UBJ.Object) : Prop where
  get : ∀ k, k ≠ "password" → head'.get k = head.get k
  hasField : ∀ k, head'.hasField k = head.hasField k
  size : (head'.get "password").bufferSize = (head.get "password").bufferSize

/-- What the check of the password of a login says, where it comes to one. -/
def judge (env : Env) (s : SessionId) (head : UBJ.Object) (w : World) : Option (Option Bool) :=
  if (w.server.sessions s).status ≠ .loggedIn ∧ head.hasField "account" = true ∧
      head.hasField "password" = true then
    (w.account env { id := some (head.get "account").toInt }).map
      (verifyPassword env · (head.get "password").buffer?)
  else none

section

variable {env : Env} (hash : List UInt8 → List UInt8) {w w' : World} (s : SessionId)
  {head head' : UBJ.Object} {α : Type}

/-- Salts are drawn that may differ. -/
theorem masked_randomSalt {f f' : List UInt8 → Prog α}
    (hf : ∀ salt salt', Masked (Proc.run (ZwayServer.step env) (f salt) w.next).2
      (Proc.run (ZwayServer.step env) (f' salt') w'.next).2) :
    Masked (Proc.run (ZwayServer.step env) (Proc.perform Op.randomSalt >>= f) w).2
      (Proc.run (ZwayServer.step env) (Proc.perform Op.randomSalt >>= f') w').2 :=
  hf _ _

/-- Accounts are stored that differ in their secrets. -/
theorem Masked.insertAccount (h : Masked w w') {a a' : Account} (ha : a'.veiled = a.veiled)
    {f : Bool → Prog α} (hf : ∀ b, (f b).Modest) :
    Masked (Proc.run (ZwayServer.step env) (DB.insertAccount a >>= f) w).2
      (Proc.run (ZwayServer.step env) (DB.insertAccount a' >>= f) w').2 := by
  rw [Proc.run_bind, Proc.run_bind, run_insertAccount, run_insertAccount, h.fails]
  dsimp only
  split
  · exact (h.next.run (hf _)).2
  · refine ((h.next.update ?_).run (hf _)).2
    have haccounts : w'.server.accounts.map Account.veiled = w.server.accounts.map Account.veiled :=
      congrArg ServerState.accounts h.server
    have hserver := h.server
    simp only [ServerState.veiled, ServerState.insertAccount, World.next_server, List.map_append,
      List.map_cons, List.map_nil, ha, haccounts, ServerState.mk.injEq, true_and] at hserver ⊢
    exact hserver

/-- An account is created in both worlds, or in neither. -/
theorem Masked.createAccount (h : Masked w w') (hh : SamePublic head head') :
    Masked (Proc.run (ZwayServer.step env) (processCreateAccount env s head) w).2
      (Proc.run (ZwayServer.step env) (processCreateAccount (env.withHash hash) s head') w').2 := by
  have hfail : ∀ {w w' : World} (id code : UInt32) (text : String), Masked w w' →
      Masked (Proc.run (ZwayServer.step env) (do
          postRequestFailure s id code text
          return false) w).2
        (Proc.run (ZwayServer.step env) (do
          postRequestFailure s id code text
          return false) w').2 :=
    fun _ _ _ h => (h.run (modest_of_plain (by simp))).2
  rw [processCreateAccount, processCreateAccount]
  refine h.bind (modest_of_plain (by simp)) fun st w w' h => ?_
  dsimp only
  rw [hh.hasField, hh.hasField, hh.size, hh.get "requestId" (by decide), hh.get "name" (by decide),
    hh.get "phone" (by decide), hh.get "findByName" (by decide), hh.get "findByPhone" (by decide)]
  split
  · exact hfail _ _ _ h
  split
  · exact hfail _ _ _ h
  split
  · exact hfail _ _ _ h
  rw [Proc.run_bind, Proc.run_bind, run_getAccount, run_getAccount]
  have hsome (q : AccountQuery) : (w'.account env q).isSome = (w.account env q).isSome := by
    simpa using congrArg Option.isSome (@Masked.account env _ _ h q)
  dsimp only
  rw [hsome]
  split
  · exact hfail _ _ _ h.next
  refine h.next.bind (modest_of_plain (by simp)) fun id w w' h => ?_
  refine masked_randomSalt fun salt salt' => ?_
  refine h.next.insertAccount ?_ fun added => modest_of_plain ?_
  · rfl
  · simp

/-- What follows a login takes no password. -/
theorem afterLogin_public (hh : SamePublic head head') (x : UInt32) :
    afterLogin (env.withHash hash) s head' x = afterLogin env s head x := by
  rw [afterLogin, afterLogin, hh.hasField, hh.get "config" (by decide),
    hh.get "requestId" (by decide)]
  rfl

/-- A login that is judged alike does the same in both worlds. -/
theorem Masked.login (h : Masked w w') (hh : SamePublic head head')
    (hverdict : judge (env.withHash hash) s head' w' = judge env s head w) :
    Masked (Proc.run (ZwayServer.step env) (processLogin env s head) w).2
      (Proc.run (ZwayServer.step env) (processLogin (env.withHash hash) s head') w').2 := by
  rw [processLogin, processLogin, Proc.run_bind, Proc.run_bind, Proc.run_perform, Proc.run_perform,
    step_status, step_status, h.sessions]
  dsimp only
  rw [hh.hasField, hh.hasField, hh.get "requestId" (by decide), hh.get "account" (by decide)]
  split
  · exact (h.run (modest_of_plain (by simp))).2
  next hst =>
  split
  · exact (h.run (modest_of_plain (by simp))).2
  next haccount =>
  split
  · exact (h.run (modest_of_plain (by simp))).2
  next hpassword =>
  have hchecked : (w.server.sessions s).status ≠ .loggedIn ∧ head.hasField "account" = true ∧
      head.hasField "password" = true :=
    ⟨by simpa using hst, by simpa using haccount, by simpa using hpassword⟩
  rw [judge, judge, h.sessions, hh.hasField, hh.hasField, hh.get "account" (by decide),
    if_pos hchecked, if_pos hchecked, account_withHash] at hverdict
  rw [Proc.run_bind, Proc.run_bind, run_getAccount, run_getAccount]
  dsimp only
  have hnext := h.next
  cases hfound : w.account env { id := some (head.get "account").toInt } with
  | none =>
    cases hfound' : w'.account env { id := some (head.get "account").toInt } with
    | none => exact (hnext.run (modest_of_plain (by simp))).2
    | some a' =>
      rw [hfound, hfound'] at hverdict
      cases hverdict
  | some a =>
    cases hfound' : w'.account env { id := some (head.get "account").toInt } with
    | none =>
      rw [hfound, hfound'] at hverdict
      cases hverdict
    | some a' =>
      rw [hfound, hfound'] at hverdict
      have hsame : verifyPassword (env.withHash hash) a' (head'.get "password").buffer? =
          verifyPassword env a (head.get "password").buffer? :=
        Option.some.inj hverdict
      dsimp only
      rw [hsame]
      split
      · exact (hnext.run (modest_of_plain (by simp))).2
      · exact (hnext.run (modest_of_plain (by simp))).2
      · rw [afterLogin_public hash s hh]
        refine (hnext.run ?_).2
        exact .after (by simp) fun _ => .after (by simp) fun _ => .after (by simp) fun _ =>
          .after (by simp) fun _ => (modest_afterLogin env s head _).bind fun _ => trivial

end

/-! ## Steps and runs -/

/-- What the check of a password says, where a step makes one. -/
def verdict (env : Env) (σ : ServerState) (a : Act) : Option (Option Bool) :=
  match a.event with
  | .request s head =>
    if a.Possible σ ∧ env.decode (head.get "requestType").toInt = some .login then
      judge env s head (a.world σ)
    else none
  | _ => none

/-- Two events that differ at most in the password that they bring. -/
inductive SameEvent (env : Env) : Event → Event → Prop
  | same (e : Event) : SameEvent env e e
  | secret {s : SessionId} {head head' : UBJ.Object} (hh : SamePublic head head')
      (takes : env.decode (head.get "requestType").toInt = some .createAccount ∨
        env.decode (head.get "requestType").toInt = some .login) :
      SameEvent env (.request s head) (.request s head')

/-- Two steps that differ at most in secrets. -/
structure SameStep (env : Env) (a a' : Act) : Prop where
  event : SameEvent env a.event a'.event
  tape : ∀ n, (a.tape n).SameButSalt (a'.tape n)

/-- Two runs, the second with another hash function, that differ at most in secrets, and in which
every password is judged alike. -/
inductive SameVerdicts (env : Env) (hash : List UInt8 → List UInt8) : List Act → List Act → Prop
  | nil : SameVerdicts env hash [] []
  | cons {tr tr' : List Act} {a a' : Act} (earlier : SameVerdicts env hash tr tr')
      (step : SameStep env a a')
      (judged : verdict (env.withHash hash) (after (env.withHash hash) tr') a' =
        verdict env (after env tr) a) :
      SameVerdicts env hash (a :: tr) (a' :: tr')

section

variable {env : Env} {hash : List UInt8 → List UInt8} {σ σ' : ServerState} {a a' : Act}

/-- The parts of a state without secrets that the events look at. -/
theorem parts_of_veiled (h : σ'.veiled = σ.veiled) :
    σ'.sessions = σ.sessions ∧ σ'.terminated = σ.terminated ∧ σ'.tasks = σ.tasks := by
  have hsessions := congrArg ServerState.sessions h
  have hterminated := congrArg ServerState.terminated h
  have htasks := congrArg ServerState.tasks h
  exact ⟨hsessions, hterminated, htasks⟩

theorem possible_masked (h : σ'.veiled = σ.veiled) (hstep : SameStep env a a') :
    a'.Possible σ' ↔ a.Possible σ := by
  obtain ⟨hsessions, hterminated, htasks⟩ := parts_of_veiled h
  obtain ⟨hevent, -⟩ := hstep
  unfold Act.Possible
  rw [hterminated]
  generalize a.event = e at hevent ⊢
  generalize a'.event = e' at hevent ⊢
  cases hevent with
  | same =>
    cases e <;> simp only [Event.Enabled, hsessions, htasks]
  | secret hh takes => simp only [Event.Enabled, hsessions]

/-- The worlds in which two such steps start. -/
theorem masked_world (h : σ'.veiled = σ.veiled) (hstep : SameStep env a a') :
    Masked (a.world σ) (a'.world σ') := by
  obtain ⟨hsessions, -, htasks⟩ := parts_of_veiled h
  obtain ⟨hevent, htape⟩ := hstep
  refine ⟨?_, htape⟩
  show (a'.event.note σ').veiled = (a.event.note σ).veiled
  generalize a.event = e at hevent ⊢
  generalize a'.event = e' at hevent ⊢
  have hnote (e : Event) : (e.note σ').veiled = (e.note σ).veiled := by
    have hveiled (σ : ServerState) : (e.note σ).veiled = e.note σ.veiled := by
      cases e <;> rfl
    rw [hveiled, hveiled, h]
  cases hevent with
  | same => exact hnote e
  | secret hh takes => exact h

/-- A request that takes no password. -/
theorem processIncomingRequest_withHash {s : SessionId} {head : UBJ.Object} {t : RequestType}
    (ht : env.decode (head.get "requestType").toInt = some t) (hcreate : t ≠ .createAccount)
    (hlogin : t ≠ .login) :
    processIncomingRequest (env.withHash hash) s head = processIncomingRequest env s head := by
  have ht' : (env.withHash hash).decode (head.get "requestType").toInt = some t := ht
  simp only [processIncomingRequest, ht, ht']
  cases t with
  | createAccount => exact absurd rfl hcreate
  | login => exact absurd rfl hlogin
  | _ => rfl

/-- The handlers of the other events do not look at secrets. -/
theorem modest_handler {e : Event} (hrequest : ∀ s head, e ≠ .request s head) (σ : ServerState) :
    (e.handler env σ).Modest := by
  have hplain (hsub : ∀ o, e.Footprint env o → o.Plain) : (e.handler env σ).Modest :=
    modest_of_plain ((within_handler env e σ).sub hsub)
  cases e with
  | request s head => exact absurd rfl (hrequest s head)
  | userRequests k => exact modest_processUserRequests env _
  | _ =>
    refine hplain fun o ho => ?_
    cases o with
    | findAccount | findAccounts | randomSalt => exact ho.elim
    | _ => trivial

theorem handler_withHash {e : Event} (hrequest : ∀ s head, e ≠ .request s head)
    (h : σ'.veiled = σ.veiled) : e.handler (env.withHash hash) σ' = e.handler env σ := by
  obtain ⟨-, -, htasks⟩ := parts_of_veiled h
  cases e with
  | request s head => exact absurd rfl (hrequest s head)
  | userRequests k => simp only [Event.handler, htasks]; rfl
  | _ => rfl

/-- **A request in both worlds.** -/
theorem Masked.request {s : SessionId} {head head' : UBJ.Object} {w w' : World} (h : Masked w w')
    (hh : SamePublic head head')
    (hpublic : env.decode (head.get "requestType").toInt ≠ some .createAccount →
      env.decode (head.get "requestType").toInt ≠ some .login → head' = head)
    (hjudged : env.decode (head.get "requestType").toInt = some .login →
      judge (env.withHash hash) s head' w' = judge env s head w) :
    Masked (Proc.run (ZwayServer.step env) (processIncomingRequest env s head) w).2
      (Proc.run (ZwayServer.step env) (processIncomingRequest (env.withHash hash) s head')
        w').2 := by
  cases ht : env.decode (head.get "requestType").toInt with
  | none =>
    have ht' : (env.withHash hash).decode (head'.get "requestType").toInt = none := by
      rw [hh.get "requestType" (by decide)]
      exact ht
    simp only [processIncomingRequest, ht, ht']
    exact h
  | some t =>
    have ht' : (env.withHash hash).decode (head'.get "requestType").toInt = some t := by
      rw [hh.get "requestType" (by decide)]
      exact ht
    by_cases hcreate : t = .createAccount
    · subst hcreate
      simp only [processIncomingRequest, ht, ht']
      exact h.createAccount hash s hh
    by_cases hlogin : t = .login
    · subst hlogin
      simp only [processIncomingRequest, ht, ht']
      exact h.login hash s hh (hjudged ht)
    rw [hpublic (by simp [ht, hcreate]) (by simp [ht, hlogin]),
      processIncomingRequest_withHash ht hcreate hlogin]
    exact (h.run (modest_processIncomingRequest env s head ht hcreate hlogin)).2

theorem SamePublic.refl (head : UBJ.Object) : SamePublic head head :=
  ⟨fun _ _ => rfl, fun _ => rfl, rfl⟩

/-- **One step.** -/
theorem next_masked (h : σ'.veiled = σ.veiled) (hstep : SameStep env a a')
    (hjudged : verdict (env.withHash hash) σ' a' = verdict env σ a) :
    (next (env.withHash hash) σ' a').veiled = (next env σ a).veiled := by
  have hiff := possible_masked h hstep
  by_cases hp : a.Possible σ
  swap
  · rw [next, next, if_neg hp, if_neg (fun hp' => hp (hiff.mp hp'))]
    exact h
  have hp' := hiff.mpr hp
  have hworld := masked_world h hstep
  rw [next_of_possible _ hp, next_of_possible _ hp', step_withHash]
  obtain ⟨event, tape⟩ := a
  obtain ⟨event', tape'⟩ := a'
  -- A login that is the step is judged alike.
  have hlogin {s : SessionId} {head head' : UBJ.Object} (hh : SamePublic head head')
      (he : event = .request s head) (he' : event' = .request s head')
      (hdecode : env.decode (head.get "requestType").toInt = some .login) :
      judge (env.withHash hash) s head' ((Act.mk event' tape').world σ') =
        judge env s head ((Act.mk event tape).world σ) := by
    subst he he'
    have hdecode' : (env.withHash hash).decode (head'.get "requestType").toInt = some .login := by
      rw [hh.get "requestType" (by decide)]
      exact hdecode
    simpa only [verdict, hp, hp', hdecode, hdecode', and_self, if_true] using hjudged
  cases hstep.event with
  | same =>
    by_cases hrequest : ∀ s head, event ≠ .request s head
    · rw [handler_withHash hrequest h]
      exact (hworld.run (modest_handler hrequest σ)).2.server
    · simp only [not_forall, not_not] at hrequest
      obtain ⟨s, head, rfl⟩ := hrequest
      have hrun := hworld.request (.refl head) (fun _ _ => rfl) (hlogin (.refl head) rfl rfl)
      simp only [Event.handler, Proc.run_bind, Proc.run_pure]
      exact hrun.server
  | secret hh takes =>
    have hrun := hworld.request hh (fun hcreate hlogin => (takes.elim hcreate hlogin).elim)
      (hlogin hh rfl rfl)
    simp only [Event.handler, Proc.run_bind, Proc.run_pure]
    exact hrun.server

end

/-- **Passwords stay secret.**  Two runs that differ at most in the passwords of the requests, in
the salts and in the hash function, and in which every password is judged alike, lead to servers
that differ at most in the digests and the salts of the accounts.  Every client has been sent the
same. -/
theorem secrets_stay {env : Env} {hash : List UInt8 → List UInt8} {tr tr' : List Act}
    (h : SameVerdicts env hash tr tr') :
    (after (env.withHash hash) tr').veiled = (after env tr).veiled := by
  induction h with
  | nil => rfl
  | cons earlier hstep judged ih => exact next_masked ih hstep judged

/-- The session 0 joins with another password, and another salt is drawn. -/
def otherJoin : List Act :=
  sampleStep 0 (sampleRequest .login 2
    [("account", .int32 1), ("password", .buffer (List.replicate 32 1))]) ::
  ⟨.request 0 (sampleRequest .createAccount 1
    [("name", .string "a"), ("password", .buffer (List.replicate 32 1))]),
    fun _ => { salt := List.replicate 32 2 }⟩ ::
  sampleConnect 0

theorem secrets_stay_join :
    (after (sampleEnv.withHash fun _ => zeroHash) otherJoin).veiled =
      (after sampleEnv (sampleJoin 0 "a" 1)).veiled := by
  have hsame (t : RequestType) (id : UInt32) (k : String) (v : UBJ.Value) :
      SamePublic
        (sampleRequest t id [(k, v), ("password", .buffer (List.replicate 32 0))])
        (sampleRequest t id [(k, v), ("password", .buffer (List.replicate 32 1))]) := by
    refine ⟨fun k' hk => ?_, fun k' => ?_, ?_⟩
    · simp [sampleRequest, hk]
    · simp [sampleRequest]
    · by_cases hk : "password" = k
      · simp [sampleRequest, hk]
      · simp [sampleRequest, hk, UBJ.Value.bufferSize, UBJ.Value.buffer?]
  have htape (n : ℕ) : (calm 0 n).SameButSalt (calm 0 n) := rfl
  have hconnect : SameVerdicts sampleEnv (fun _ => zeroHash) (sampleConnect 0) (sampleConnect 0) :=
    .cons (.cons .nil ⟨.same _, fun n => rfl⟩ rfl) ⟨.same _, htape⟩ rfl
  refine secrets_stay (.cons (.cons hconnect ⟨.secret (hsame ..) (.inl rfl), fun n => rfl⟩ ?_)
    ⟨.secret (hsame ..) (.inr rfl), htape⟩ ?_)
  · decide +kernel
  · decide +kernel

end ZwayServer
