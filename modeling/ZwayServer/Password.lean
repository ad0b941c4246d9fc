import ZwayServer.Accounts
import ZwayServer.Storing

/-!
# The right password

A login hashes the password it is given with the salt of the account and compares the
digest with the stored one.  Nothing but the creation of the account ever wrote the two.

* `CreatedWith` — an account was created under an id, with a password.
* `AccountsInv` — the accounts are those created so far, each with the digest of its
  password.
* `login_iff_created` — a login succeeds exactly with the password of the account.
-/

namespace ZwayServer

open ClientSession

/-! ## Creating accounts -/

/-- In this step, an account is created under the id `x`, with the password `p`: the client is
answered success with that id. -/
def CreatesAccount (env : Env) (σ : ServerState) (a : Act) (x : UInt32) (p : List UInt8) : Prop :=
  ∃ s head, a.event = .request s head ∧ a.Possible σ ∧
    env.decode (head.get "requestType").toInt = some .createAccount ∧
    head.get "password" = .buffer p ∧ p.length = 32 ∧
    ∃ id, .response (.success id [("accountId", .int32 x)]) ∈ newMessages σ (next env σ a) s

/-- At some point of the run, an account was created under the id `x`, with the password `p`. -/
def CreatedWith (env : Env) (tr : List Act) (x : UInt32) (p : List UInt8) : Prop :=
  ∃ later a earlier, tr = later ++ a :: earlier ∧ CreatesAccount env (after env earlier) a x p

theorem createdWith_nil {env : Env} {x : UInt32} {p : List UInt8} : ¬ CreatedWith env [] x p := by
  rintro ⟨later, a, earlier, h, -⟩
  cases later <;> cases h

theorem createdWith_cons {env : Env} {a : Act} {tr : List Act} {x : UInt32} {p : List UInt8} :
    CreatedWith env (a :: tr) x p ↔
      CreatesAccount env (after env tr) a x p ∨ CreatedWith env tr x p := by
  constructor
  · rintro ⟨later, b, earlier, h, hb⟩
    cases later with
    | nil =>
      obtain ⟨rfl, rfl⟩ := List.cons.inj h
      exact Or.inl hb
    | cons c later =>
      obtain ⟨rfl, rfl⟩ := List.cons.inj h
      exact Or.inr ⟨later, b, earlier, rfl, hb⟩
  · rintro (ha | ⟨later, b, earlier, rfl, hb⟩)
    · exact ⟨[], a, tr, rfl, ha⟩
    · exact ⟨a :: later, b, earlier, rfl, hb⟩

/-- The step handles a request to create an account. -/
def Act.IsCreateAccount (env : Env) (a : Act) : Prop :=
  ∃ s head, a.event = .request s head ∧
    env.decode (head.get "requestType").toInt = some .createAccount

section

variable {env : Env} {σ : ServerState}

/-- A request that is turned down is not answered success. -/
theorem Refused.not_success {w : World} {s : SessionId} {out : Bool × World} (h : Refused s w out)
    (id : UInt32) (data : UBJ.Object) :
    .response (.success id data) ∉ newMessages w.server out.2.server s := by
  intro hm
  obtain ⟨id', code, text, hs⟩ | hs := h.server
  · rw [newMessages_of_append [.response (.failure id' code text)]
      (by simp [hs, ServerState.send])] at hm
    have he := List.mem_singleton.mp hm
    cases he
  · rw [newMessages_of_append [] (by simp [hs])] at hm
    cases hm

/-- The password of a request that creates an account. -/
theorem password_of_createInput {w : World} {s : SessionId} {head : UBJ.Object} {a : Account}
    (h : createInput env w s head = some a) :
    ∃ p, head.get "password" = .buffer p ∧ p.length = 32 ∧ a.pass = env.sha256 (p ++ a.salt) ∧
      a.id = w.next.newAccountId := by
  rw [createInput] at h
  split at h
  · cases h
  split at h
  · cases h
  split at h
  · cases h
  · next hpass =>
    split at h
    · cases h
    · obtain rfl := Option.some.inj h
      have hsize : (head.get "password").bufferSize = 32 := by
        by_contra hne
        exact hpass (Or.inr hne)
      cases hvalue : head.get "password" with
      | buffer p =>
        rw [hvalue] at hsize
        exact ⟨p, rfl, hsize, rfl, rfl⟩
      | _ => rw [hvalue] at hsize; cases hsize

/-- What a request to create an account does, when no call fails. -/
theorem next_createAccount {s : SessionId} {head : UBJ.Object} {tape : Nat → Choice}
    (hp : (Act.mk (.request s head) tape).Possible σ) (htape : NoFaults tape)
    (ht : env.decode (head.get "requestType").toInt = some .createAccount) :
    match createInput env ⟨σ, tape, []⟩ s head with
    | none => (next env σ ⟨.request s head, tape⟩).accounts = σ.accounts ∧
        ∀ id data, .response (.success id data) ∉
          newMessages σ (next env σ ⟨.request s head, tape⟩) s
    | some a => (next env σ ⟨.request s head, tape⟩).accounts = σ.accounts ++ [a] ∧
        newMessages σ (next env σ ⟨.request s head, tape⟩) s =
          [.response (.success (head.get "requestId").toInt [("accountId", .int32 a.id)])] := by
  have hnext : next env σ ⟨.request s head, tape⟩ =
      (Proc.run (step env) (processCreateAccount env s head) ⟨σ, tape, []⟩).2.server := by
    rw [next_request_eq env hp, processIncomingRequest, ht]
  have hrun := run_processCreateAccount env ⟨σ, tape, []⟩ s head
  cases ha : createInput env ⟨σ, tape, []⟩ s head with
  | none =>
    rw [ha] at hrun
    rw [hnext]
    refine ⟨?_, fun id data => hrun.not_success id data⟩
    obtain ⟨_, _, _, hs⟩ | hs := hrun.server
    · rw [hs]
      rfl
    · rw [hs]
  | some a =>
    rw [ha] at hrun
    have hf : (tape 3).fails = false := htape 3
    simp only [hf, Bool.false_eq_true, if_false] at hrun
    rw [hnext, hrun]
    exact ⟨rfl, newMessages_of_append _ (by simp [World.respond, ServerState.send, World.skip,
      ServerState.insertAccount])⟩

theorem createsAccount_iff {s : SessionId} {head : UBJ.Object} {tape : Nat → Choice}
    (hp : (Act.mk (.request s head) tape).Possible σ) (htape : NoFaults tape)
    (ht : env.decode (head.get "requestType").toInt = some .createAccount) {x : UInt32}
    {p : List UInt8} :
    CreatesAccount env σ ⟨.request s head, tape⟩ x p ↔
      ∃ a, createInput env ⟨σ, tape, []⟩ s head = some a ∧ a.id = x ∧
        head.get "password" = .buffer p := by
  have hnext := next_createAccount hp htape ht
  constructor
  · rintro ⟨s', head', he, -, -, hpass, -, id, hmem⟩
    cases he
    cases ha : createInput env ⟨σ, tape, []⟩ s head with
    | none =>
      rw [ha] at hnext
      exact absurd hmem (hnext.2 _ _)
    | some a =>
      rw [ha] at hnext
      rw [hnext.2] at hmem
      have he := List.mem_singleton.mp hmem
      simp only [Message.response.injEq, Response.success.injEq, List.cons.injEq, Prod.mk.injEq,
        UBJ.Value.int32.injEq, true_and, and_true] at he
      exact ⟨a, rfl, he.2.symm, hpass⟩
  · rintro ⟨a, ha, rfl, hpass⟩
    rw [ha] at hnext
    obtain ⟨q, hq, hlen, -, -⟩ := password_of_createInput ha
    obtain rfl : q = p := by
      rw [hq] at hpass
      exact UBJ.Value.buffer.inj hpass
    refine ⟨s, head, rfl, hp, ht, hpass, hlen, (head.get "requestId").toInt, ?_⟩
    rw [hnext.2]
    exact List.mem_singleton.mpr rfl

/-! ## Steps that create no account -/

theorem accountIds_next {a : Act} (hp : a.Possible σ) (h : ¬ a.IsCreateAccount env) :
    (next env σ a).accountIds = σ.accountIds := by
  by_cases hm : a.Moves env
  · obtain ⟨event, tape⟩ := a
    cases event with
    | connect s => rw [next_connect env hp]; rfl
    | handshake s error =>
      rw [next_handshake env hp]
      cases error with
      | true =>
        rw [if_pos rfl, ServerState.close, ServerState.removeSession_eq]
        rfl
      | false => rfl
    | request s head =>
      cases next_request env hp with
      | refused _ hq => exact hq.accounts
      | edited _ _ he => exact (Unmoved.of_edits he).accountIds
      | created a ht _ _ _ => exact absurd ⟨s, head, rfl, ht⟩ h
      | loggedOut _ _ hq => exact hq.accounts
      | loggedIn x _ _ hd =>
        refine hd.accounts.trans ?_
        rw [ServerState.login_eq]
        rfl
    | disconnect s =>
      rw [next_disconnect env hp, ServerState.close, ServerState.removeSession_eq]
      rfl
    | removeSessions => rw [next_removeSessions env hp]; rfl
    | _ => exact hm.elim
  · exact (unmoved_next env hp hm).accountIds

/-- No step changes an account in anything but its token, or deletes one. -/
theorem map_accounts_next {β : Type} {f : Account → β}
    (hf : ∀ a token, f { a with fcmToken := token } = f a) (env : Env) (a : Act) :
    σ.accounts.map f <+: (next env σ a).accounts.map f := by
  by_cases hp : a.Possible σ
  · rw [next_of_possible env hp]
    have hnote : (a.world σ).server.accounts = σ.accounts := by
      show (a.event.note σ).accounts = σ.accounts
      cases a.event <;> rfl
    rw [← hnote]
    exact map_accounts_run hf env _ _
  · rw [next_of_not_possible hp]

theorem length_accounts_next (env : Env) (a : Act) :
    σ.accounts.length ≤ (next env σ a).accounts.length := by
  have hle :=
    (map_accounts_next (σ := σ) (f := Account.credentials) (fun _ _ => rfl) env a).length_le
  simpa only [List.length_map] using hle

/-- Only the creation of an account changes what the accounts are but for their tokens. -/
theorem map_accounts_next_eq {β : Type} {f : Account → β}
    (hf : ∀ a token, f { a with fcmToken := token } = f a) {a : Act} (hp : a.Possible σ)
    (h : ¬ a.IsCreateAccount env) :
    (next env σ a).accounts.map f = σ.accounts.map f := by
  have hlen := congrArg List.length (accountIds_next hp h)
  simp only [ServerState.accountIds, List.length_map] at hlen
  refine ((map_accounts_next hf env a).eq_of_length ?_).symm
  simp only [List.length_map, hlen]

/-! ## The accounts of a run -/

/-- The accounts are those that were created, under different ids, each with the digest of its
password. -/
structure AccountsInv (env : Env) (tr : List Act) : Prop where
  ids : IdsOk (after env tr).accounts
  origin : ∀ a ∈ (after env tr).accounts, ∃ p,
    CreatedWith env tr a.id p ∧ a.pass = env.sha256 (p ++ a.salt)
  complete : ∀ x p, CreatedWith env tr x p →
    ∃ a ∈ (after env tr).accounts, a.id = x ∧ a.pass = env.sha256 (p ++ a.salt)

/-- No call of a request fails. -/
def Act.CallsSucceed (a : Act) : Prop := ∀ s head, a.event = .request s head → NoFaults a.tape

/-- An account in one list has its like in another that has the same credentials. -/
theorem mem_of_credentials {σ' : ServerState} (h : σ'.credentials = σ.credentials) {a : Account}
    (ha : a ∈ σ'.accounts) :
    ∃ b ∈ σ.accounts, b.id = a.id ∧ b.pass = a.pass ∧ b.salt = a.salt := by
  have hmem : a.credentials ∈ σ.credentials := h ▸ List.mem_map.mpr ⟨a, ha, rfl⟩
  obtain ⟨b, hb, he⟩ := List.mem_map.mp hmem
  simp only [Account.credentials, Prod.mk.injEq] at he
  exact ⟨b, hb, he.1, he.2.1, he.2.2⟩

theorem AccountsInv.of_not_create {tr : List Act} (h : AccountsInv env tr) {a : Act}
    (hcreds : (after env (a :: tr)).credentials = (after env tr).credentials)
    (hnot : ∀ x p, ¬ CreatesAccount env (after env tr) a x p) : AccountsInv env (a :: tr) where
  ids := by
    refine h.ids.of_ids ?_
    have hids := congrArg (List.map Prod.fst) hcreds
    rw [ServerState.credentials, ServerState.credentials, List.map_map, List.map_map] at hids
    exact hids
  origin b hb := by
    obtain ⟨c, hc, hid, hpass, hsalt⟩ := mem_of_credentials hcreds hb
    obtain ⟨p, hp, hdigest⟩ := h.origin c hc
    refine ⟨p, ?_, ?_⟩
    · rw [← hid]
      exact createdWith_cons.mpr (Or.inr hp)
    · rw [← hpass, ← hsalt]
      exact hdigest
  complete x p hx := by
    obtain ⟨b, hb, hid, hdigest⟩ := h.complete x p
      ((createdWith_cons.mp hx).resolve_left (hnot x p))
    obtain ⟨c, hc, hid', hpass, hsalt⟩ := mem_of_credentials hcreds.symm hb
    exact ⟨c, hc, hid'.trans hid, by rw [hpass, hsalt]; exact hdigest⟩

/-- A new account has the next id. -/
theorem newAccountId_eq {w : World} (htape : NoFaults w.tape) :
    w.next.newAccountId = nextAccountId w.server.accounts := by
  have hf : (w.next.tape 0).fails = false := htape 1
  rw [World.newAccountId, hf]
  rfl

theorem accountsInv_after (tr : List Act) (hdb : EveryStep env (fun _ a => a.CallsSucceed) tr)
    (hcount : (after env tr).accounts.length < 2 ^ 31 - 1) : AccountsInv env tr := by
  induction tr with
  | nil => exact ⟨.init, fun a ha => absurd ha List.not_mem_nil, fun x p h =>
      absurd h createdWith_nil⟩
  | cons a tr ih =>
    have hle : (after env tr).accounts.length ≤ (after env (a :: tr)).accounts.length :=
      length_accounts_next env a
    have hold := ih hdb.2 (lt_of_le_of_lt hle hcount)
    by_cases hp : a.Possible (after env tr)
    · by_cases hcreate : a.IsCreateAccount env
      · obtain ⟨event, tape⟩ := a
        obtain ⟨s, head, he, ht⟩ := hcreate
        have he' : event = .request s head := he
        subst he'
        have htape : NoFaults tape := hdb.1 hp s head rfl
        have hnext := next_createAccount hp htape ht
        cases ha : createInput env ⟨after env tr, tape, []⟩ s head with
        | none =>
          rw [ha] at hnext
          refine hold.of_not_create ?_ fun x p hx => ?_
          · rw [ServerState.credentials, after_cons, hnext.1]
            rfl
          · obtain ⟨b, hb, -, -⟩ := (createsAccount_iff hp htape ht).mp hx
            rw [ha] at hb
            cases hb
        | some b =>
          rw [ha] at hnext
          obtain ⟨p, hpass, -, hdigest, hid⟩ := password_of_createInput ha
          have hcreates : CreatesAccount env (after env tr) ⟨.request s head, tape⟩ b.id p :=
            (createsAccount_iff hp htape ht).mpr ⟨b, ha, rfl, hpass⟩
          have hnew : b.id = nextAccountId (after env tr).accounts :=
            hid.trans (newAccountId_eq htape)
          have haccounts : (after env (⟨.request s head, tape⟩ :: tr)).accounts =
              (after env tr).accounts ++ [b] := hnext.1
          rw [haccounts, List.length_append, List.length_singleton] at hcount
          refine ⟨?_, fun c hc => ?_, fun x q hx => ?_⟩
          · rw [haccounts]
            exact hold.ids.insert (by omega) hnew
          · rw [haccounts] at hc
            rcases List.mem_append.mp hc with hc | hc
            · obtain ⟨q, hq, hd⟩ := hold.origin c hc
              exact ⟨q, createdWith_cons.mpr (Or.inr hq), hd⟩
            · obtain rfl := List.mem_singleton.mp hc
              exact ⟨p, createdWith_cons.mpr (Or.inl hcreates), hdigest⟩
          · rw [haccounts]
            rcases createdWith_cons.mp hx with hx | hx
            · obtain ⟨c, hc, hcid, hcpass⟩ := (createsAccount_iff hp htape ht).mp hx
              obtain rfl : b = c := Option.some.inj (ha.symm.trans hc)
              obtain rfl : p = q := UBJ.Value.buffer.inj (hpass.symm.trans hcpass)
              exact ⟨b, List.mem_append_right _ (List.mem_singleton.mpr rfl), hcid, hdigest⟩
            · obtain ⟨c, hc, hcid, hd⟩ := hold.complete x q hx
              exact ⟨c, List.mem_append_left _ hc, hcid, hd⟩
      · refine hold.of_not_create (map_accounts_next_eq (fun _ _ => rfl) hp hcreate)
          fun x p hx => ?_
        obtain ⟨s, head, he, -, ht, -⟩ := hx
        exact hcreate ⟨s, head, he, ht⟩
    · refine hold.of_not_create ?_ fun x p hx => ?_
      · rw [after_cons, next_of_not_possible hp]
      · obtain ⟨s, head, -, hpossible, -⟩ := hx
        exact hp hpossible

end

/-! ## Logging in -/

/-- SHA-256 as an injective function.  All digests have one length, so the digests of
different byte strings differ within the length of either. -/
def DigestsDiffer (env : Env) : Prop :=
  ∀ x y, (env.sha256 x).take (env.sha256 y).length = env.sha256 y → x = y

section

variable {env : Env}

/-- Once the session is registered, success is answered. -/
theorem success_afterLogin (env : Env) (w : World) (s : SessionId) (head : UBJ.Object)
    (x : UInt32) :
    PostsSuccess w.server (Proc.run (step env) (afterLogin env s head x) w).2.server s := by
  obtain ⟨w', data, hw', hrun⟩ := answered_afterLogin env w s head x
  obtain ⟨ms, hms, -⟩ := hw'.outbox s
  -- the response is followed by deliveries only
  have hdelivers := run_processRequests env s
    (w'.respond s (.success (head.get "requestId").toInt data))
  obtain ⟨ms', hms', -⟩ := hdelivers.outbox s
  rw [outbox_respond, hms, List.append_assoc, List.append_assoc] at hms'
  refine ⟨(head.get "requestId").toInt, data, ?_⟩
  rw [hrun, newMessages_of_append _ hms']
  exact List.mem_append_right _ (List.mem_append_left _ (List.mem_singleton.mpr rfl))

/-- A login is answered success exactly if `processLogin` lets it in. -/
theorem postsSuccess_login {σ : ServerState} {s : SessionId} {head : UBJ.Object}
    {tape : Nat → Choice} (hp : (Act.mk (.request s head) tape).Possible σ)
    (hlogin : env.decode (head.get "requestType").toInt = some .login) :
    PostsSuccess σ (next env σ ⟨.request s head, tape⟩) s ↔
      (loginInput env ⟨σ, tape, []⟩ s head).isSome := by
  have hnext : next env σ ⟨.request s head, tape⟩ =
      (Proc.run (step env) (processLogin env s head) ⟨σ, tape, []⟩).2.server := by
    rw [next_request_eq env hp, processIncomingRequest, hlogin]
  have hrun := run_processLogin env ⟨σ, tape, []⟩ s head
  rw [hnext]
  cases hx : loginInput env ⟨σ, tape, []⟩ s head with
  | none =>
    rw [hx] at hrun
    constructor
    · rintro ⟨id, data, hm⟩
      exact absurd hm (hrun.not_success id data)
    · intro h
      cases h
  | some x =>
    rw [hx] at hrun
    refine ⟨fun _ => rfl, fun _ => ?_⟩
    rw [hrun]
    obtain ⟨id, data, hm⟩ := success_afterLogin env
      ((World.next ⟨σ, tape, []⟩).update (·.login s x)) s head x
    refine ⟨id, data, ?_⟩
    rw [newMessages] at hm ⊢
    have hout : (((World.next ⟨σ, tape, []⟩).update (·.login s x)).server.sessions s).outbox =
        (σ.sessions s).outbox := by
      show ((σ.login s x).sessions s).outbox = _
      rw [ServerState.sessions_login, if_pos rfl]
    rwa [hout] at hm

/-- A field that holds something is there. -/
theorem hasField_of_get {head : UBJ.Object} {k : String} (h : head.get k ≠ .null) :
    head.hasField k = true := by
  rw [UBJ.Object.hasField]
  cases hl : head.lookup k with
  | none => exact absurd (by rw [UBJ.Object.get, hl]; rfl) h
  | some v => rfl

/-- What a lookup by id finds. -/
theorem find_account {as : List Account} (h : IdsOk as) {x : UInt32} {a : Account} (ha : a ∈ as)
    (hid : a.id = x) {q : Account → Bool} (hq : ∀ b, q b = true ↔ b.id = x) :
    as.find? q = some a := by
  cases hfind : as.find? q with
  | none =>
    have hnone := List.find?_eq_none.mp hfind a ha
    exact absurd ((hq a).mpr hid) hnone
  | some b =>
    have hb := (hq b).mp (List.find?_some hfind)
    rw [h.eq_of_id (List.mem_of_find?_eq_some hfind) ha (hb.trans hid.symm)]

/-- **The right password.**  In every run in which no call of a request fails and fewer than
2³¹ - 1 accounts are created, a login to the account `x` with the password `p`, on a session
that is not logged in, succeeds exactly if an account was created under `x` with the
password `p`. -/
theorem login_iff_created (hsha : DigestsDiffer env) {tr : List Act}
    (hdb : EveryStep env (fun _ a => a.CallsSucceed) tr)
    (hcount : (after env tr).accounts.length < 2 ^ 31 - 1) {s : SessionId} {head : UBJ.Object}
    {tape : Nat → Choice} (hp : (Act.mk (.request s head) tape).Possible (after env tr))
    (htape : NoFaults tape) (hlogin : env.decode (head.get "requestType").toInt = some .login)
    (hst : ((after env tr).sessions s).status ≠ .loggedIn) {x : UInt32} {p : List UInt8}
    (haccount : head.get "account" = .int32 x) (hpass : head.get "password" = .buffer p) :
    PostsSuccess (after env tr) (next env (after env tr) ⟨.request s head, tape⟩) s ↔
      CreatedWith env tr x p := by
  have hinv := accountsInv_after tr hdb hcount
  have hid : head.hasField "account" = true := hasField_of_get (by simp [haccount])
  have hbytes : head.hasField "password" = true := hasField_of_get (by simp [hpass])
  have hlookup : World.account ⟨after env tr, tape, []⟩ env { id := some x } =
      (after env tr).accounts.find? fun a => x == a.id := by
    have hf : (tape 0).fails = false := htape 0
    simp [World.account, AccountQuery.test, hf]
  have hquery : ∀ b : Account, (x == b.id) = true ↔ b.id = x := fun b => by
    rw [beq_iff_eq, eq_comm]
  rw [postsSuccess_login hp hlogin, loginInput, if_neg hst,
    if_neg (by simp [hid, hbytes]), haccount, hpass]
  show Option.isSome (match World.account ⟨after env tr, tape, []⟩ env { id := some x } with
    | none => none
    | some account =>
      if verifyPassword env account (some p) = some true then some x else none) = true ↔ _
  rw [hlookup]
  constructor
  · intro h
    cases hfind : (after env tr).accounts.find? fun a => x == a.id with
    | none =>
      rw [hfind] at h
      cases h
    | some a =>
      rw [hfind] at h
      have hfound : (x == a.id) = true := by simpa using List.find?_some hfind
      have hid : a.id = x := (hquery a).mp hfound
      obtain ⟨q, hq, hdigest⟩ := hinv.origin a (List.mem_of_find?_eq_some hfind)
      dsimp only at h
      split at h
      · next hverify =>
        have htake : (env.sha256 (p ++ a.salt)).take a.pass.length = a.pass := by
          simpa [verifyPassword] using hverify
        rw [hdigest] at htake
        have heq : p = q := List.append_cancel_right (hsha _ _ htake)
        rwa [heq, ← hid]
      · cases h
  · intro h
    obtain ⟨a, ha, hid, hdigest⟩ := hinv.complete x p h
    rw [find_account hinv.ids ha hid hquery]
    have hverify : verifyPassword env a (some p) = some true := by
      simp [verifyPassword, hdigest]
    simp [hverify]

end

/-- Bytes with a mark before each of them and another one at the end. -/
def markBytes : List UInt8 → List UInt8
  | [] => [0]
  | b :: bs => 1 :: b :: markBytes bs

theorem markBytes_take {x y : List UInt8}
    (h : (markBytes x).take (markBytes y).length = markBytes y) : x = y := by
  induction y generalizing x with
  | nil =>
    cases x with
    | nil => rfl
    | cons a x => simp [markBytes] at h
  | cons b y ih =>
    cases x with
    | nil => simp [markBytes] at h
    | cons a x =>
      simp only [markBytes, List.length_cons, List.take_succ_cons, List.cons.injEq, true_and] at h
      rw [h.1, ih h.2]

/-- The sample libraries with a hash that tells all byte strings apart. -/
def markEnv : Env :=
  { sampleEnv with
    sha256 := fun bytes => if bytes = List.replicate 64 0 then zeroHash else markBytes bytes }

theorem digestsDiffer_markEnv : DigestsDiffer markEnv := by
  -- the digest of the zero bytes starts with another byte than the marked strings
  have hzero : ∀ x, ∃ b bs, markBytes x = b :: bs ∧ b ≠ 0xf5 := by
    intro x
    cases x with
    | nil => exact ⟨0, [], rfl, by decide⟩
    | cons a x => exact ⟨1, a :: markBytes x, rfl, by decide⟩
  intro x y h
  by_cases hx : x = List.replicate 64 0 <;> by_cases hy : y = List.replicate 64 0
  · rw [hx, hy]
  · obtain ⟨b, bs, he, hne⟩ := hzero y
    simp only [markEnv, hx, hy, if_true, if_false, he, zeroHash, List.length_cons,
      List.take_succ_cons, List.cons.injEq] at h
    exact absurd h.1.symm hne
  · obtain ⟨b, bs, he, hne⟩ := hzero x
    simp only [markEnv, hx, hy, if_true, if_false, he, zeroHash, List.length_cons,
      List.take_succ_cons, List.cons.injEq] at h
    exact absurd h.1 hne
  · simp only [markEnv, hx, hy, if_false] at h
    exact markBytes_take h

theorem login_iff_created_join :
    PostsSuccess (after markEnv ((sampleJoin 0 "a" 1).drop 1))
        (next markEnv (after markEnv ((sampleJoin 0 "a" 1).drop 1)) (sampleLogin 0 1)) 0 ↔
      CreatedWith markEnv ((sampleJoin 0 "a" 1).drop 1) 1 (List.replicate 32 0) := by
  refine login_iff_created digestsDiffer_markEnv ?_ (by decide +kernel) (by decide +kernel)
    (fun _ => rfl) (by decide +kernel) (by decide +kernel) rfl rfl
  exact ⟨fun _ _ _ _ _ => rfl, fun _ _ _ _ _ => rfl, fun _ _ _ _ _ => rfl, trivial⟩

end ZwayServer
