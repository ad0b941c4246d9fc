import ZwayServer.Accounts
import ZwayServer.Presence

/-!
# Notification tokens

An account has a token under which its owner is notified while no client of his is connected.
A configuration sets it, a logout clears it, and nothing else touches it; what is sent to the
notification service goes to the token that was set last.

* `withToken`, `tokenAt` — setting a token, and reading it.
* `tokenSet` — the token that a step sets.
* `accounts_next` — the accounts after a step, tokens included.
* `token_after` — every token is the one that was set last.
* `fcm_after` — the notifications of a run.
-/

namespace ZwayServer

open ClientSession

/-! ## Tokens of accounts -/

/-- The accounts after a token has been set. -/
def withToken : Option (UInt32 × String) → List Account → List Account
  | none, as => as
  | some (x, token), as => as.replaceF fun a =>
    if a.id = x then some { a with fcmToken := token } else none

/-- The token of an account; an account that does not exist has none. -/
def tokenAt (as : List Account) (x : UInt32) : String :=
  ((as.find? fun a => x == a.id).map Account.fcmToken).getD ""

/-- The account that is found has the token that was set for it. -/
theorem tokenAt_withToken (as : List Account) (x y : UInt32) (token : String) :
    tokenAt (withToken (some (y, token)) as) x =
      if x = y ∧ x ∈ as.map Account.id then token else tokenAt as x := by
  induction as with
  | nil => simp [tokenAt, withToken]
  | cons a as ih =>
    by_cases hay : a.id = y
    · have hset : withToken (some (y, token)) (a :: as) = { a with fcmToken := token } :: as := by
        simp [withToken, List.replaceF, hay]
      rw [hset]
      by_cases hax : a.id = x
      · subst hax
        simp [tokenAt, hay]
      · have hxy : x ≠ y := fun h => hax (hay.trans h.symm)
        simp [tokenAt, Ne.symm hax, hxy]
    · have hset : withToken (some (y, token)) (a :: as) = a :: withToken (some (y, token)) as := by
        simp [withToken, List.replaceF, hay]
      rw [hset]
      by_cases hax : a.id = x
      · have hxy : x ≠ y := fun h => hay (hax.trans h)
        simp [tokenAt, hax, hxy]
      · have hskip : ∀ bs, tokenAt (a :: bs) x = tokenAt bs x := fun bs => by
          simp [tokenAt, Ne.symm hax]
        rw [hskip, hskip, ih]
        simp [Ne.symm hax]

/-- A new account has no token. -/
theorem tokenAt_append {as bs : List Account} (h : ∀ b ∈ bs, b.fcmToken = "") (x : UInt32) :
    tokenAt (as ++ bs) x = tokenAt as x := by
  rw [tokenAt, tokenAt, List.find?_append]
  cases as.find? (fun a => x == a.id) with
  | some a => rfl
  | none =>
    cases hb : bs.find? (fun a => x == a.id) with
    | none => simp
    | some b => simp [h b (List.mem_of_find?_eq_some hb)]

/-! ## What the operations do -/

/-- The accounts are not touched. -/
@[simp] def Op.KeepsAccounts : Op → Prop
  | .insertAccount _ | .setFcmToken .. => False
  | _ => True

theorem accounts_exec (env : Env) {o : Op} (h : o.KeepsAccounts) (c : Choice) (σ : ServerState) :
    (exec env o c σ).2.accounts = σ.accounts := by
  by_cases hreads : o.Reads
  · rw [exec_of_reads env hreads]
  cases o with
  | insertAccount | setFcmToken => exact h.elim
  | insertRequest | removeRequest =>
    exact dbCall_cases (P := fun τ => τ.accounts = σ.accounts) rfl fun _ => rfl
  | addReceiver | addEngineSender | fopenAppend =>
    simp only [exec]
    split <;> rfl
  | removeSession s =>
    show (σ.removeSession s).accounts = σ.accounts
    rw [ServerState.removeSession_eq]
  | _ => first | rfl | exact absurd trivial hreads

theorem accounts_run (env : Env) {α : Type} {p : Prog α} (hp : Proc.Within Op.KeepsAccounts p)
    (w : World) : (Proc.run (step env) p w).2.server.accounts = w.server.accounts :=
  hp.run (P := fun w' : World => w'.server.accounts = w.server.accounts)
    (fun _ w' ho hw' => (accounts_exec env ho (w'.tape 0) w'.server).trans hw') rfl

section

variable (env : Env) (s : SessionId) (w : World)

theorem accounts_setFcmToken (x : UInt32) (token : String) :
    (Proc.run (step env) (DB.setFcmToken x token) w).2.server.accounts =
      withToken (if (w.tape 0).fails then none else some (x, token)) w.server.accounts := by
  cases hf : (w.tape 0).fails <;>
    simp [DB.setFcmToken, Proc.run_bind, step, exec, dbCall, hf, withToken]

/-- The token that a configuration sets for the account `x`, if the call succeeds. -/
def configToken (newConfig : UBJ.Object) (x : UInt32) (c : Choice) : Option (UInt32 × String) :=
  if newConfig.hasField "fcmToken" ∧ c.fails = false then
    some (x, (newConfig.get "fcmToken").toStr)
  else none

theorem keepsAccounts_broadcastTo (status : UInt32) (contacts : List (UInt32 × UBJ.Object)) :
    Proc.Within Op.KeepsAccounts (forM contacts (broadcastTo env s status)) := by
  refine Proc.Safe.forM fun it _ => ?_
  have hsend : ∀ (sessions : List SessionId) (obj : UBJ.Object), Proc.Within Op.KeepsAccounts
      (forM sessions fun session => Proc.perform (Op.addUbjSender session obj) : Prog PUnit) :=
    fun sessions obj => Proc.Safe.forM fun _ _ => ⟨trivial, fun _ _ => trivial⟩
  simp [broadcastTo, hsend]

theorem keepsAccounts_broadcastStatus (status : UInt32) (check : Bool) :
    Proc.Within Op.KeepsAccounts (broadcastStatus env s status check) := by
  simp [broadcastStatus, keepsAccounts_broadcastTo]

theorem accounts_setConfig (newConfig : UBJ.Object) :
    (Proc.run (step env) (setConfig env s newConfig) w).2.server.accounts =
      withToken (configToken newConfig (w.server.sessions s).accountId (w.tape 0))
        w.server.accounts := by
  have hset : (tokenWorld env s newConfig w).server.accounts =
      withToken (configToken newConfig (w.server.sessions s).accountId (w.tape 0))
        w.server.accounts := by
    unfold tokenWorld configToken
    split
    · next hfield =>
      rw [accounts_setFcmToken]
      cases hf : (w.tape 0).fails <;> simp [hfield]
    · next hfield => simp [hfield, withToken]
  rw [run_setConfig]
  split
  · rw [accounts_run env (keepsAccounts_broadcastTo env s _ _)]
    exact hset
  · exact hset

/-- What comes afterwards does not touch the accounts. -/
theorem accounts_bind {α β : Type} (p : Prog α) {f : α → Prog β}
    (hf : ∀ a, Proc.Within Op.KeepsAccounts (f a)) :
    (Proc.run (step env) (p >>= f) w).2.server.accounts =
      (Proc.run (step env) p w).2.server.accounts := by
  rw [Proc.run_bind]
  exact accounts_run env (hf _) _

theorem keepsAccounts_answerLogin (head : UBJ.Object) (x : UInt32) :
    Proc.Within Op.KeepsAccounts (answerLogin env s head x) := by
  have hlist : Proc.Within Op.KeepsAccounts (contactStatusList s) :=
    within_contactStatusList (fun _ => trivial) (fun _ => trivial) (fun _ => trivial) s
  have hinbox : Proc.Within Op.KeepsAccounts (DB.getInbox x) := by simp [DB.getInbox, forall_answer]
  have hscan : Proc.Within Op.KeepsAccounts (processRequests env s) :=
    (within_processRequests env s).sub fun o ho => by
      cases o <;> first | exact trivial | exact ho.elim
  exact hlist.bind fun _ => hinbox.bind fun _ => ⟨trivial, fun _ _ => hscan.bind fun _ => trivial⟩

theorem accounts_afterLogin (head : UBJ.Object) (x : UInt32) :
    (Proc.run (step env) (afterLogin env s head x) w).2.server.accounts =
      withToken
        (if head.hasField "config" then
          configToken (head.get "config").toObject (w.server.sessions s).accountId (w.tape 0)
        else none) w.server.accounts := by
  rw [afterLogin_eq]
  split
  · rw [accounts_bind env w _ fun _ => keepsAccounts_answerLogin env s head x]
    exact accounts_setConfig env s w _
  · exact accounts_run env (keepsAccounts_answerLogin env s head x) w

theorem accounts_of_refused {out : Bool × World} (h : Refused s w out) :
    out.2.server.accounts = w.server.accounts := by
  obtain ⟨_, _, _, hs⟩ | hs := h.server <;> rw [hs]
  rfl

variable (head : UBJ.Object)

/-- A login stores the token of the configuration that it brings. -/
theorem accounts_processLogin :
    (Proc.run (step env) (processLogin env s head) w).2.server.accounts =
      withToken ((loginInput env w s head).bind fun x =>
        if head.hasField "config" then configToken (head.get "config").toObject x (w.tape 1)
        else none) w.server.accounts := by
  have hrun := run_processLogin env w s head
  cases hx : loginInput env w s head with
  | none =>
    rw [hx] at hrun
    exact accounts_of_refused s w hrun
  | some x =>
    rw [hx] at hrun
    dsimp only at hrun
    have hlogged : ((w.next.update (·.login s x)).server.sessions s).accountId = x := by simp
    have haccounts : (w.next.update (·.login s x)).server.accounts = w.server.accounts := by
      rw [World.update_server, World.next_server, ServerState.login_eq]
    rw [hrun, accounts_afterLogin, hlogged, haccounts]
    rfl

theorem accounts_processConfigRequest :
    (Proc.run (step env) (processConfigRequest env s head) w).2.server.accounts =
      withToken
        (if (w.server.sessions s).status = .loggedIn ∧ head.hasField "config" then
          configToken (head.get "config").toObject (w.server.sessions s).accountId (w.tape 0)
        else none) w.server.accounts := by
  rw [processConfigRequest, Proc.run_bind, Proc.run_perform, step_status, Proc.run_ite]
  by_cases hst : (w.server.sessions s).status = .loggedIn
  · rw [if_neg (by simp [hst])]
    by_cases hconfig : head.hasField "config" = true
    · rw [if_pos hconfig, if_pos ⟨hst, hconfig⟩, accounts_bind env w _ fun b => by cases b <;> simp]
      exact accounts_setConfig env s w _
    · rw [if_neg hconfig, if_neg fun h => hconfig h.2]
      rfl
  · rw [if_pos (by simpa using hst), if_neg fun h => hst h.1]
    rfl

theorem accounts_processLogout :
    (Proc.run (step env) (processLogout env s head) w).2.server.accounts =
      withToken
        (if (w.server.sessions s).status = .loggedIn ∧ (w.tape 0).fails = false then
          some ((w.server.sessions s).accountId, "")
        else none) w.server.accounts := by
  rw [processLogout, Proc.run_bind, Proc.run_perform, step_status, Proc.run_ite]
  by_cases hst : (w.server.sessions s).status = .loggedIn
  · have hid : ((w.respond s (.success (head.get "requestId").toInt [])).server.sessions
        s).accountId = (w.server.sessions s).accountId := by
      simp [World.respond, World.update, ServerState.send]
    rw [if_neg (by simp [hst]), Proc.run_bind, Proc.run_perform, step_respond, Proc.run_bind,
      Proc.run_perform, step_accountId, accounts_bind, accounts_setFcmToken, hid]
    · show withToken (if (w.tape 0).fails then _ else _) w.server.accounts = _
      cases (w.tape 0).fails <;> simp [hst]
    · exact fun _ => ⟨trivial, fun _ _ =>
        (keepsAccounts_broadcastStatus env s 0 true).bind fun _ => trivial⟩
  · rw [if_pos (by simpa using hst), if_neg fun h => hst h.1]
    rfl

theorem accounts_processCreateAccount :
    (Proc.run (step env) (processCreateAccount env s head) w).2.server.accounts =
      w.server.accounts ++
        (if (w.tape 3).fails then [] else (createInput env w s head).toList) := by
  have hrun := run_processCreateAccount env w s head
  cases ha : createInput env w s head with
  | none =>
    rw [ha] at hrun
    simp [accounts_of_refused s w hrun]
  | some a =>
    rw [ha] at hrun
    dsimp only at hrun
    rw [hrun]
    cases (w.tape 3).fails with
    | true => exact (List.append_nil _).symm
    | false => rfl

end

/-! ## What the steps do -/

/-- The token that a step sets, and for which account. -/
def tokenSet (env : Env) (σ : ServerState) (a : Act) : Option (UInt32 × String) :=
  match a.event with
  | .request s head =>
    match env.decode (head.get "requestType").toInt with
    | some .login =>
      (loginInput env (a.world σ) s head).bind fun x =>
        if head.hasField "config" then configToken (head.get "config").toObject x (a.tape 1)
        else none
    | some .config =>
      if (σ.sessions s).status = .loggedIn ∧ head.hasField "config" then
        configToken (head.get "config").toObject (σ.sessions s).accountId (a.tape 0)
      else none
    | some .logout =>
      if (σ.sessions s).status = .loggedIn ∧ (a.tape 0).fails = false then
        some ((σ.sessions s).accountId, "")
      else none
    | _ => none
  | _ => none

/-- The account that a step creates. -/
def created (env : Env) (σ : ServerState) (a : Act) : List Account :=
  match a.event with
  | .request s head =>
    if env.decode (head.get "requestType").toInt = some .createAccount ∧
        (a.tape 3).fails = false then (createInput env (a.world σ) s head).toList
    else []
  | _ => []

section

variable {env : Env} {σ : ServerState} {a : Act}

/-- Only four kinds of requests touch the accounts. -/
theorem accounts_next_of_footprint (hp : a.Possible σ)
    (h : ∀ o, a.event.Footprint env o → o.KeepsAccounts) :
    (next env σ a).accounts = σ.accounts := by
  refine footprint_next (P := fun τ => τ.accounts = σ.accounts) hp ?_ fun o c σ' ho hσ' => ?_
  · cases a.event <;> rfl
  · exact (accounts_exec env (h o ho) c σ').trans hσ'

/-- **The accounts after a step**: a new one at the end, and one token replaced. -/
theorem accounts_next (hp : a.Possible σ) :
    (next env σ a).accounts = withToken (tokenSet env σ a) (σ.accounts ++ created env σ a) := by
  by_cases hrequest : ∃ s head, a.event = .request s head
  swap
  · have hnone : tokenSet env σ a = none ∧ created env σ a = [] := by
      rw [tokenSet, created]
      cases he : a.event with
      | request s head => exact absurd ⟨s, head, he⟩ hrequest
      | _ => exact ⟨rfl, rfl⟩
    rw [hnone.1, hnone.2, List.append_nil]
    refine accounts_next_of_footprint hp fun o ho => ?_
    cases he : a.event with
    | request s head => exact absurd ⟨s, head, he⟩ hrequest
    | userRequests k =>
      rw [he] at ho
      cases o <;> first | exact trivial | exact ho.choose_spec.elim
    | _ =>
      rw [he] at ho
      cases o <;> first | exact trivial | exact ho.elim
  obtain ⟨s, head, he⟩ := hrequest
  obtain ⟨event, tape⟩ := a
  obtain rfl : event = .request s head := he
  have hnext := next_request_eq env hp
  rw [processIncomingRequest] at hnext
  cases ht : env.decode (head.get "requestType").toInt with
  | none =>
    simp only [ht] at hnext
    simp [hnext, tokenSet, created, ht, withToken]
  | some t =>
    cases t with
    | login =>
      simp only [ht] at hnext
      rw [hnext, accounts_processLogin]
      simp [tokenSet, created, ht, Act.world, Event.note]
    | config =>
      simp only [ht] at hnext
      rw [hnext, accounts_processConfigRequest]
      simp [tokenSet, created, ht]
    | logout =>
      simp only [ht] at hnext
      rw [hnext, accounts_processLogout]
      simp [tokenSet, created, ht]
    | createAccount =>
      simp only [ht] at hnext
      rw [hnext, accounts_processCreateAccount]
      cases hf : (tape 3).fails <;>
        simp [tokenSet, created, ht, withToken, hf, Act.world, Event.note]
    | _ =>
      have hnone : tokenSet env σ ⟨.request s head, tape⟩ = none ∧
          created env σ ⟨.request s head, tape⟩ = [] := by simp [tokenSet, created, ht]
      rw [hnone.1, hnone.2, List.append_nil]
      refine accounts_next_of_footprint hp ?_
      rintro o ⟨t, ht', ho⟩
      obtain rfl := Option.some.inj (ht.symm.trans ht')
      cases o <;> first | exact trivial | exact ho.elim

/-- A token is set for an account that exists. -/
theorem mem_of_tokenSet (h : SessionInv σ) {x : UInt32} {token : String}
    (hset : tokenSet env σ a = some (x, token)) : x ∈ σ.accountIds := by
  have hconfig : ∀ {newConfig : UBJ.Object} {y : UInt32} {c : Choice},
      configToken newConfig y c = some (x, token) → y = x := by
    intro newConfig y c hc
    rw [configToken] at hc
    split at hc
    · exact congrArg Prod.fst (Option.some.inj hc)
    · cases hc
  obtain ⟨event, tape⟩ := a
  cases event with
  | request s head =>
    simp only [tokenSet] at hset
    split at hset
    · obtain ⟨y, hy, hset⟩ := Option.bind_eq_some_iff.mp hset
      split at hset
      · obtain ⟨account, hmem, hid, -⟩ := loginInput_verified hy
        rw [← hconfig hset, ← hid]
        exact List.mem_map_of_mem hmem
      · cases hset
    · split at hset
      · next hst =>
        rw [← hconfig hset]
        exact (h s).account hst.1
      · cases hset
    · split at hset
      · next hst =>
        obtain rfl : (σ.sessions s).accountId = x := congrArg Prod.fst (Option.some.inj hset)
        exact (h s).account hst.1
      · cases hset
    · cases hset
  | _ => cases hset

/-- A new account has no token yet. -/
theorem token_of_created {b : Account} (hb : b ∈ created env σ a) : b.fcmToken = "" := by
  obtain ⟨event, tape⟩ := a
  cases event with
  | request s head =>
    simp only [created] at hb
    split at hb
    · have hinput := Option.mem_toList.mp hb
      simp only [createInput] at hinput
      split at hinput
      · cases hinput
      split at hinput
      · cases hinput
      split at hinput
      · cases hinput
      split at hinput
      · cases hinput
      · rw [← Option.some.inj hinput]
    · cases hb
  | _ => cases hb

/-- One step replaces the token of one account. -/
theorem tokenAt_next (h : SessionInv σ) (hp : a.Possible σ) (x : UInt32) :
    tokenAt (next env σ a).accounts x =
      match tokenSet env σ a with
      | some (y, token) => if x = y then token else tokenAt σ.accounts x
      | none => tokenAt σ.accounts x := by
  have hnew : tokenAt (σ.accounts ++ created env σ a) x = tokenAt σ.accounts x :=
    tokenAt_append (fun b hb => token_of_created hb) x
  rw [accounts_next hp]
  cases hset : tokenSet env σ a with
  | none => exact hnew
  | some e =>
    obtain ⟨y, token⟩ := e
    rw [tokenAt_withToken, hnew]
    have hmem : x = y → x ∈ (σ.accounts ++ created env σ a).map Account.id := by
      rintro rfl
      rw [List.map_append]
      exact List.mem_append_left _ (mem_of_tokenSet h hset)
    by_cases hxy : x = y
    · simp only [if_pos hxy, if_pos (And.intro hxy (hmem hxy))]
    · simp only [if_neg hxy, if_neg fun h => hxy (And.left h)]

end

/-! ## The token of an account after a run -/

/-- The token that was set last for the account `x` by the steps of a run. -/
def tokenOf (env : Env) : List Act → UInt32 → String
  | [], _ => ""
  | a :: tr, x =>
    if a.Possible (after env tr) then
      match tokenSet env (after env tr) a with
      | some (y, token) => if x = y then token else tokenOf env tr x
      | none => tokenOf env tr x
    else tokenOf env tr x

/-- **Tokens.**  After every run, the token of an account is the one that was set last. -/
theorem token_after (env : Env) (tr : List Act) (x : UInt32) :
    tokenAt (after env tr).accounts x = tokenOf env tr x := by
  induction tr with
  | nil => rfl
  | cons a tr ih =>
    rw [after_cons, tokenOf]
    by_cases hp : a.Possible (after env tr)
    · rw [tokenAt_next (sessionInv_after env tr) hp, if_pos hp]
      cases tokenSet env (after env tr) a with
      | none => exact ih
      | some e =>
        dsimp only
        rw [ih]
    · rw [next_of_not_possible hp, if_neg hp, ih]

/-! ## Notifications -/

/-- What the server reports as waiting for the account `x`; a count that fails is taken for a
large one. -/
def counted (σ : ServerState) (c : Choice) (x : UInt32) (t : RequestType) : UInt32 :=
  if c.fails then 0xFFFFFFFF
  else UInt32.ofNat (σ.requests.countP ({ dst := some x, type := some t } : RequestQuery).matches)

/-- A notification about `n` requests, if there are any. -/
def notice (token : String) (type n : UInt32) : List (String × UInt32 × UInt32) :=
  if n > 0 then [(token, type, n)] else []

/-- The notifications of the account `x`, of which one is about contact requests and one about
messages. -/
def noticesTo (σ : ServerState) (tape : Nat → Choice) (token : String) (x : UInt32) :
    List (String × UInt32 × UInt32) :=
  if (tape 0).fails = false ∧ token ≠ "" then
    notice token 1000 (counted σ (tape 1) x .addContact) ++
      notice token 2000 (counted σ (tape 2) x .push)
  else []

/-- The notifications that a step sends: a task that finds no session of its account sends them
to the token that was set last. -/
def notices (env : Env) (tr : List Act) (a : Act) : List (String × UInt32 × UInt32) :=
  match a.event with
  | .userRequests k =>
    let x := (after env tr).tasks.getD k 0
    if a.Possible (after env tr) ∧ (after env tr).getSessions x = [] then
      noticesTo (after env tr) a.tape (tokenOf env tr x) x
    else []
  | _ => []

/-- The notifications of a run. -/
def noticesOf (env : Env) : List Act → List (String × UInt32 × UInt32)
  | [] => []
  | a :: tr => noticesOf env tr ++ notices env tr a

/-- Nothing is sent to the notification service. -/
@[simp] def Op.KeepsFcm : Op → Prop
  | .sendFcm .. => False
  | _ => True

theorem fcm_exec (env : Env) {o : Op} (h : o.KeepsFcm) (c : Choice) (σ : ServerState) :
    (exec env o c σ).2.fcm = σ.fcm := by
  by_cases hreads : o.Reads
  · rw [exec_of_reads env hreads]
  cases o with
  | sendFcm => exact h.elim
  | insertAccount | setFcmToken | insertRequest | removeRequest =>
    exact dbCall_cases (P := fun τ => τ.fcm = σ.fcm) rfl fun _ => rfl
  | addReceiver | addEngineSender | fopenAppend =>
    simp only [exec]
    split <;> rfl
  | removeSession s =>
    show (σ.removeSession s).fcm = σ.fcm
    rw [ServerState.removeSession_eq]
  | _ => first | rfl | exact absurd trivial hreads

section

variable (env : Env) (x : UInt32) (w : World)

/-- The token that is asked for. -/
theorem run_getFcmToken : Proc.run (step env) (DB.getFcmToken x) w =
    (if (w.tape 0).fails then "" else tokenAt w.server.accounts x, w.next) := by
  rw [DB.getFcmToken, Proc.run_bind, Proc.run_perform, tokenAt]
  cases hf : (w.tape 0).fails <;> cases ha : w.server.accounts.find? (fun a => x == a.id) <;>
    simp [step, exec, Op.draws, AccountQuery.test, dbCall, hf, ha, World.next]

theorem decode_3100 : env.decode 3100 = some .addContact :=
  env.code_addContact ▸ env.decode_code .addContact

theorem decode_4100 : env.decode 4100 = some .push :=
  env.code_push ▸ env.decode_code .push

theorem run_numContactRequests : Proc.run (step env) (DB.numContactRequests env x) w =
    (counted w.server (w.tape 0) x .addContact, w.next) := by
  rw [DB.numContactRequests, decode_3100, Proc.run_bind, Proc.run_perform, counted]
  cases hf : (w.tape 0).fails <;> simp [step, exec, Op.draws, dbCall, hf, World.next]

theorem run_numPushRequests : Proc.run (step env) (DB.numPushRequests env x) w =
    (counted w.server (w.tape 0) x .push, w.next) := by
  rw [DB.numPushRequests, decode_4100, Proc.run_bind, Proc.run_perform, counted]
  cases hf : (w.tape 0).fails <;> simp [step, exec, Op.draws, dbCall, hf, World.next]

/-- The messages come last. -/
theorem run_notifyMessages (token : String) :
    (Proc.run (step env) (do
      let numMessages ← DB.numPushRequests env x
      if numMessages > 0 then
        Proc.perform (Op.sendFcm token 2000 numMessages) : Prog Unit) w).2.server.fcm =
      w.server.fcm ++ notice token 2000 (counted w.server (w.tape 0) x .push) := by
  rw [Proc.run_bind, run_numPushRequests, Proc.run_ite, notice]
  split
  · rfl
  · rw [List.append_nil]
    rfl

/-- The owner of an account is notified of what waits. -/
theorem run_notifyUser : (Proc.run (step env) (Server.notifyUser env x) w).2.server.fcm =
    w.server.fcm ++ noticesTo w.server w.tape (tokenAt w.server.accounts x) x := by
  rw [Server.notifyUser, Proc.run_bind, run_getFcmToken]
  dsimp only
  rw [Proc.run_ite, noticesTo]
  by_cases htoken : (if (w.tape 0).fails then "" else tokenAt w.server.accounts x) = ""
  · have hnone : ¬ ((w.tape 0).fails = false ∧ tokenAt w.server.accounts x ≠ "") := by
      rintro ⟨hf, hne⟩
      rw [hf] at htoken
      exact hne htoken
    rw [if_neg (not_not.mpr htoken), if_neg hnone, List.append_nil]
    rfl
  · have hsome : (w.tape 0).fails = false ∧ tokenAt w.server.accounts x ≠ "" := by
      cases hf : (w.tape 0).fails with
      | true => simp [hf] at htoken
      | false => exact ⟨rfl, by simpa [hf] using htoken⟩
    have hgiven : (if (w.tape 0).fails then "" else tokenAt w.server.accounts x) =
        tokenAt w.server.accounts x := if_neg (by simp [hsome.1])
    rw [if_pos htoken, if_pos hsome, hgiven, Proc.run_bind, run_numContactRequests]
    dsimp only
    rw [Proc.run_ite]
    by_cases hn : counted w.next.server (w.next.tape 0) x .addContact > 0
    · have hsent : notice (tokenAt w.server.accounts x) 1000
          (counted w.server (w.tape 1) x .addContact) = [(tokenAt w.server.accounts x, 1000, _)] :=
        if_pos hn
      rw [if_pos hn, Proc.run_bind, Proc.run_perform, run_notifyMessages, hsent,
        ← List.append_assoc]
      rfl
    · have hsent : notice (tokenAt w.server.accounts x) 1000
          (counted w.server (w.tape 1) x .addContact) = [] := if_neg hn
      rw [if_neg hn, run_notifyMessages, hsent, List.nil_append]
      rfl

/-- The task of an account notifies its owner if it finds no session. -/
theorem run_userRequests_fcm :
    (Proc.run (step env) (Server.processUserRequests env x) w).2.server.fcm =
      w.server.fcm ++ (if w.server.getSessions x = [] then
        noticesTo w.server w.tape (tokenAt w.server.accounts x) x else []) := by
  rw [Server.processUserRequests, Proc.run_bind, Proc.run_perform, Proc.run_ite]
  have hsessions : step env (.getSessions x) w = (w.server.getSessions x, w) := rfl
  rw [hsessions]
  dsimp only
  by_cases hnone : w.server.getSessions x = []
  · rw [if_neg (not_not.mpr hnone), if_pos hnone]
    exact run_notifyUser env x w
  · have hscan : Proc.Within Op.KeepsFcm (forM (w.server.getSessions x) fun s => do
        let _ ← processRequests env s : Prog PUnit) := by
      refine Proc.Safe.forM fun s _ => ?_
      exact ((within_processRequests env s).sub fun o ho => by
        cases o <;> first | exact trivial | exact ho.elim).bind fun _ => trivial
    rw [if_pos hnone, if_neg hnone, List.append_nil]
    exact hscan.run (P := fun w' : World => w'.server.fcm = w.server.fcm)
      (fun _ w' ho hw' => (fcm_exec env ho (w'.tape 0) w'.server).trans hw') rfl

end

/-- Nothing but a task notifies anybody. -/
theorem fcm_next_of_footprint {env : Env} {σ : ServerState} {a : Act} (hp : a.Possible σ)
    (h : ∀ k, a.event ≠ .userRequests k) : (next env σ a).fcm = σ.fcm := by
  refine footprint_next (P := fun τ => τ.fcm = σ.fcm) hp ?_ fun o c σ' ho hσ' => ?_
  · cases a.event <;> rfl
  refine (fcm_exec env ?_ c σ').trans hσ'
  cases o with
  | sendFcm token type n =>
    cases he : a.event with
    | userRequests k => exact absurd he (h k)
    | request s head =>
      rw [he] at ho
      obtain ⟨t, -, ht⟩ := ho
      cases t <;> simp at ht
    | _ =>
      rw [he] at ho
      exact ho.elim
  | _ => trivial

/-- One step sends what is due. -/
theorem fcm_next {env : Env} {tr : List Act} {a : Act} (hp : a.Possible (after env tr)) :
    (next env (after env tr) a).fcm = (after env tr).fcm ++ notices env tr a := by
  obtain ⟨event, tape⟩ := a
  cases event with
  | userRequests k =>
    rw [next_of_possible env hp]
    have hrun := run_userRequests_fcm env ((after env tr).tasks.getD k 0)
      ((Act.mk (.userRequests k) tape).world (after env tr))
    refine hrun.trans (congrArg ((after env tr).fcm ++ ·) ?_)
    show (if (after env tr).getSessions _ = [] then
      noticesTo (after env tr) tape (tokenAt (after env tr).accounts _) _ else []) = _
    rw [token_after]
    simp [notices, hp]
  | _ =>
    refine (fcm_next_of_footprint hp (fun k he => by cases he)).trans ?_
    exact (List.append_nil _).symm

/-- **Notifications.**  What a run has sent to the notification service is exactly this: each
task that found no session of its account told the token that was set last for the account how
many contact requests and messages waited for it. -/
theorem fcm_after (env : Env) (tr : List Act) : (after env tr).fcm = noticesOf env tr := by
  induction tr with
  | nil => rfl
  | cons a tr ih =>
    rw [after_cons, noticesOf, ← ih]
    by_cases hp : a.Possible (after env tr)
    · exact fcm_next hp
    · have hnone : notices env tr a = [] := by
        rw [notices]
        split
        · exact if_neg fun h => hp h.1
        · rfl
      rw [next_of_not_possible hp, hnone, List.append_nil]

/-- The owner of the account 1 has left a token and is gone when the account 2 pushes to him. -/
example : (after sampleEnv ([⟨.userRequests 0, calm 0⟩, samplePush 1 7 1] ++
    sampleJoin 1 "b" 2 ++ [⟨.disconnect 0, calm 0⟩, sampleStep 0 (sampleRequest .config 3
      [("config", .object [("fcmToken", .string "t")])])] ++ sampleJoin 0 "a" 1)).fcm =
    [("t", 2000, 1)] := by
  decide +kernel

end ZwayServer
