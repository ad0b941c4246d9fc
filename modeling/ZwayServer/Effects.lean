import ZwayServer.Spec

/-!
# What a request can do

One case analysis for all twelve handlers: what a request did to the server is one
of five things (`Outcome`), and everything a session that is logged in can do to
the store is a sequence of four simple edits (`Edits`).  Invariants of whole runs
are proved from these two facts alone.

* `Authored` — a request that may be stored in the name of an account.
* `Edits` — what the work of a logged-in session is made of.
* `outcome` — every request has one of the five outcomes.
-/

namespace ZwayServer

open ClientSession

/-! ## Requests in the name of an account -/

/-- The account `x` is the sender of the request, and of what a push carries. -/
structure Authored (x : UInt32) (r : Request) : Prop where
  src : r.src = x
  type : r.type = .addContact ∨ r.type = .acceptContact ∨ r.type = .rejectContact ∨ r.type = .push
  code : r.addCode ≠ none → r.type = .addContact
  inner : r.type = .push → ∃ doc, r.data = some doc ∧ (bsonObjToUbj doc).get "src" = .int32 x

theorem authored_acceptRequest (head : UBJ.Object) (x : UInt32) (i : AcceptInput) :
    Authored x (acceptRequest head x i) where
  src := rfl
  type := Or.inr (Or.inl rfl)
  code h := absurd rfl h
  inner h := by cases h

theorem authored_rejectRequest (head : UBJ.Object) (x : UInt32) (request : Record) :
    Authored x (rejectRequest head x request) where
  src := rfl
  type := Or.inr (Or.inr (Or.inl rfl))
  code h := absurd rfl h
  inner h := by cases h

theorem authored_addCodeRequest (head : UBJ.Object) (x : UInt32) (code : String)
    (i : Account × Bson.Doc) : Authored x (addCodeRequest head x code i) where
  src := rfl
  type := Or.inl rfl
  code _ := rfl
  inner h := by cases h

theorem authored_contactRequest (head : UBJ.Object) (x : UInt32) (i : ContactInput) :
    Authored x (contactRequest head x i) where
  src := rfl
  type := Or.inl rfl
  code _ := rfl
  inner h := by cases h

/-- The object that a push re-uses from round to round keeps the sender. -/
theorem authored_pushRequests {x requestId : UInt32} {forward : UBJ.Object}
    {keys : List UBJ.Value} (hnd : (forward.map Prod.fst).Nodup)
    (hsrc : forward.get "src" = .int32 x) {r : Request}
    (hr : r ∈ pushRequests x requestId forward keys) : Authored x r := by
  induction keys generalizing forward with
  | nil => exact absurd hr List.not_mem_nil
  | cons it keys ih =>
    rw [pushRequests] at hr
    split at hr
    · exact ih hnd hsrc hr
    · have hnd' := UBJ.Object.nodup_set hnd "key" (it.get "key")
      have hsrc' : (forward.set "key" (it.get "key")).get "src" = .int32 x := by
        rw [UBJ.Object.get_set, if_neg (by decide), hsrc]
      rcases List.mem_cons.mp hr with rfl | hr
      · refine ⟨rfl, Or.inr (Or.inr (Or.inr rfl)), fun h => absurd rfl h, fun _ => ⟨_, rfl, ?_⟩⟩
        rw [get_bsonObjToUbj_ubjToBson hnd', hsrc', viaBson_int32]
      · exact ih hnd' hsrc' hr

/-- Nothing the client put into its head gets in the way of the sender. -/
theorem authored_pushedRequests {x : UInt32} {head : UBJ.Object} {r : Request}
    (hr : r ∈ pushedRequests head x) : Authored x r :=
  authored_pushRequests (by simp [forwardOf]) (by simp [forwardOf]) hr

/-! ## The work of a session -/

/-- What a session that is logged in as `x` can do: quiet things, storing requests in
the name of `x`, removing requests, and having requests processed. -/
inductive Edits (x : UInt32) (σ : ServerState) : ServerState → Prop
  | refl : Edits x σ σ
  | quiet {σ' σ'' : ServerState} (h : Edits x σ σ') (hq : Quiet σ' σ'') : Edits x σ σ''
  | insert {σ' : ServerState} (h : Edits x σ σ') {r : Request} (hr : Authored x r) :
      Edits x σ (σ'.insertRequest r)
  | remove {σ' : ServerState} (h : Edits x σ σ') (q : RequestQuery) :
      Edits x σ (σ'.removeRequest q)
  | schedule {σ' : ServerState} (h : Edits x σ σ') (id : UInt32) : Edits x σ (σ'.schedule id)

namespace Edits

variable {x : UInt32} {σ : ServerState} {w : World}

theorem of_quiet {σ' : ServerState} (h : Quiet σ σ') : Edits x σ σ' := Edits.refl.quiet h

theorem insertRequest (h : Edits x σ w.server) {r : Request} (hr : Authored x r) :
    Edits x σ (w.insertRequest r).server := by
  by_cases hf : (w.tape 0).fails = true
  · simpa [World.insertRequest, hf] using h
  · simpa [World.insertRequest, hf] using h.insert hr

theorem removeRequest (h : Edits x σ w.server) (q : RequestQuery) :
    Edits x σ (w.removeRequest q).server := by
  by_cases hf : (w.tape 0).fails = true
  · simpa [World.removeRequest, hf] using h
  · simpa [World.removeRequest, hf] using h.remove q

theorem respond (h : Edits x σ w.server) (s : SessionId) (r : Response) :
    Edits x σ (w.respond s r).server :=
  h.quiet (Quiet.respond _ s r)

theorem putContact (h : Edits x σ w.server) (s : SessionId) (id : UInt32) :
    Edits x σ (w.putContact s id).server :=
  h.quiet (.modify _ s (fun y => { y with contacts := y.contacts.insert id (newContact id) }) [] []
    (fun y => by simp) (by simp) (by simp))

theorem storePush (h : Edits x σ w.server) {r : Request} (hr : Authored x r) :
    Edits x σ (w.storePush r).server :=
  (h.insertRequest hr).schedule _

theorem foldl_storePush (h : Edits x σ w.server) {rs : List Request}
    (hrs : ∀ r ∈ rs, Authored x r) : Edits x σ (rs.foldl World.storePush w).server := by
  induction rs generalizing w with
  | nil => exact h
  | cons r rs ih =>
    exact ih (h.storePush (hrs r (List.mem_cons_self ..))) fun r' hr' =>
      hrs r' (List.mem_cons_of_mem _ hr')

theorem afterContact (h : Edits x σ w.server) (s : SessionId) (head data : UBJ.Object)
    (i : ContactInput) : Edits x σ (w.afterContact s head data i).server := by
  unfold World.afterContact
  split
  · exact ((h.removeRequest _).respond s _).schedule _
  · exact (h.respond s _).schedule _

end Edits

/-! ## The outcomes of a request -/

/-- What a request did to the server. -/
inductive Outcome (env : Env) (w : World) (s : SessionId) (head : UBJ.Object) :
    ServerState → Prop
  /-- Without a login, nothing came of it. -/
  | refused {σ' : ServerState} (hst : (w.server.sessions s).status ≠ .loggedIn)
      (h : Quiet w.server σ') : Outcome env w s head σ'
  /-- The session worked in the name of its account. -/
  | edited {σ' : ServerState} (hst : (w.server.sessions s).status = .loggedIn)
      (ht : env.decode (head.get "requestType").toInt ≠ some .logout)
      (h : Edits (w.server.sessions s).accountId w.server σ') : Outcome env w s head σ'
  /-- The session logged out. -/
  | loggedOut {σ' : ServerState} (hst : (w.server.sessions s).status = .loggedIn)
      (ht : env.decode (head.get "requestType").toInt = some .logout)
      (h : Quiet (w.server.setStatus s .connected) σ') : Outcome env w s head σ'
  /-- An account was created. -/
  | created {σ' : ServerState} (a : Account)
      (ht : env.decode (head.get "requestType").toInt = some .createAccount)
      (ha : createInput env w s head = some a) (hins : (w.tape 3).fails = false)
      (h : Quiet (w.server.insertAccount a) σ') : Outcome env w s head σ'
  /-- The session logged in. -/
  | loggedIn {σ' : ServerState} (x : UInt32)
      (ht : env.decode (head.get "requestType").toInt = some .login)
      (hx : loginInput env w s head = some x)
      (h : Delivers (fun t p => t = s ∧ MadeFrom env w.server.requests x p)
        (w.server.login s x) σ') : Outcome env w s head σ'

section

variable (env : Env) (w : World) (s : SessionId) (head : UBJ.Object)

theorem edits_processAcceptContact : Edits (w.server.sessions s).accountId w.server
    (Proc.run (step env) (processAcceptContact s head) w).2.server := by
  have h := run_processAcceptContact env w s head
  cases hi : acceptInput env w s head with
  | none =>
    rw [hi] at h
    exact .of_quiet h.quiet
  | some i =>
    rw [hi] at h
    obtain ⟨data, h⟩ := h
    rw [h]
    have hstored := Edits.refl (x := (w.server.sessions s).accountId) (σ := w.server)
      |>.insertRequest (w := w.skip 2) (authored_acceptRequest head _ i)
    exact (((hstored.respond s _).removeRequest _).putContact s _).schedule _

theorem edits_processRejectContact : Edits (w.server.sessions s).accountId w.server
    (Proc.run (step env) (processRejectContact s head) w).2.server := by
  have h := run_processRejectContact env w s head
  cases hi : rejectInput w s head with
  | none =>
    rw [hi] at h
    exact .of_quiet h.quiet
  | some request =>
    rw [hi] at h
    rw [h]
    have hstored := Edits.refl (x := (w.server.sessions s).accountId) (σ := w.server)
      |>.insertRequest (w := w.skip 1) (authored_rejectRequest head _ request)
    exact ((hstored.respond s _).removeRequest _).schedule _

theorem edits_processCreateAddCode : Edits (w.server.sessions s).accountId w.server
    (Proc.run (step env) (processCreateAddCode s head) w).2.server := by
  have h := run_processCreateAddCode env w s head
  cases hi : createAddCodeInput env w s head with
  | none =>
    rw [hi] at h
    exact .of_quiet h.quiet
  | some i =>
    rw [hi] at h
    obtain ⟨data, h⟩ := h
    rw [h]
    have hstored := Edits.refl (x := (w.server.sessions s).accountId) (σ := w.server)
      |>.insertRequest (w := w.skip 2)
        (authored_addCodeRequest head _ (addCodeHex (w.tape 1).word) i)
    exact hstored.respond s _

theorem edits_processAddContactRequest : Edits (w.server.sessions s).accountId w.server
    (Proc.run (step env) (processAddContactRequest s head) w).2.server := by
  have h := run_processAddContactRequest env w s head
  cases hi : addContactInput env w s head with
  | none =>
    rw [hi] at h
    exact .of_quiet h.quiet
  | some i =>
    rw [hi] at h
    obtain ⟨data, h⟩ := h
    rw [h]
    have hstored := Edits.refl (x := (w.server.sessions s).accountId) (σ := w.server)
      |>.insertRequest (w := w.skip (addContactSlot head)) (authored_contactRequest head _ i)
    exact hstored.afterContact s head data i

theorem edits_processPushRequest (hst : (w.server.sessions s).status = .loggedIn) :
    Edits (w.server.sessions s).accountId w.server
      (Proc.run (step env) (processPushRequest s head) w).2.server := by
  obtain ⟨data, h⟩ := run_processPushRequest env w s head hst
  rw [h]
  exact (Edits.refl.foldl_storePush fun r hr => authored_pushedRequests hr).respond s _

theorem edits_processDispatchRequest (hst : (w.server.sessions s).status = .loggedIn) :
    Edits (w.server.sessions s).accountId w.server
      (Proc.run (step env) (processDispatchRequest s head) w).2.server := by
  rw [run_processDispatchRequest env w s head hst]
  split
  · exact (Edits.refl.removeRequest _).respond s _
  · exact .refl

/-- A session that is logged in works in the name of its account, as long as it does not
log out. -/
theorem edits_processIncomingRequest (hst : (w.server.sessions s).status = .loggedIn)
    (ht : env.decode (head.get "requestType").toInt ≠ some .logout) :
    Edits (w.server.sessions s).accountId w.server
      (Proc.run (step env) (processIncomingRequest env s head) w).2.server := by
  unfold processIncomingRequest
  cases hd : env.decode (head.get "requestType").toInt with
  | none => exact .refl
  | some t =>
    cases t with
    | dispatch => exact edits_processDispatchRequest env w s head hst
    | createAccount =>
      have h := run_processCreateAccount env w s head
      rw [createInput, if_pos hst] at h
      exact .of_quiet h.quiet
    | login =>
      have h := run_processLogin env w s head
      rw [loginInput, if_pos hst] at h
      exact .of_quiet h.quiet
    | logout => exact absurd hd ht
    | config => exact .of_quiet (quiet_run (quiet_processConfigRequest env s head) w)
    | addContact => exact edits_processAddContactRequest env w s head
    | createAddCode => exact edits_processCreateAddCode env w s head
    | findContact => exact .of_quiet (quiet_run (quiet_processFindContactRequest s head) w)
    | acceptContact => exact edits_processAcceptContact env w s head
    | rejectContact => exact edits_processRejectContact env w s head
    | contactStatus => exact .of_quiet (quiet_run (quiet_processContactStatusRequest s head) w)
    | push => exact edits_processPushRequest env w s head hst

/-- Every request has one of the five outcomes. -/
theorem outcome :
    Outcome env w s head (Proc.run (step env) (processIncomingRequest env s head) w).2.server := by
  by_cases hst : (w.server.sessions s).status = .loggedIn
  · by_cases ht : env.decode (head.get "requestType").toInt = some .logout
    · have hrun : processIncomingRequest env s head = processLogout env s head := by
        simp [processIncomingRequest, ht]
      rw [hrun]
      exact .loggedOut hst ht (run_processLogout env w s head hst)
    · exact .edited hst ht (edits_processIncomingRequest env w s head hst ht)
  · cases ht : env.decode (head.get "requestType").toInt with
    | none =>
      have hrun : (Proc.run (step env) (processIncomingRequest env s head) w).2 = w := by
        simp [processIncomingRequest, ht]
      rw [hrun]
      exact .refused hst (.refl _)
    | some t =>
      by_cases hca : t = .createAccount
      · subst hca
        have hrun : processIncomingRequest env s head = processCreateAccount env s head := by
          simp [processIncomingRequest, ht]
        rw [hrun]
        have h := run_processCreateAccount env w s head
        cases ha : createInput env w s head with
        | none =>
          rw [ha] at h
          exact .refused hst h.quiet
        | some a =>
          rw [ha] at h
          simp only at h
          rw [h]
          by_cases hf : (w.tape 3).fails = true
          · rw [if_pos hf]
            exact .refused hst (Quiet.respond _ s _)
          · rw [if_neg hf]
            exact .created a ht ha (by simpa using hf) (Quiet.respond _ s _)
      by_cases hlogin : t = .login
      · subst hlogin
        have hrun : processIncomingRequest env s head = processLogin env s head := by
          simp [processIncomingRequest, ht]
        rw [hrun]
        have h := run_processLogin env w s head
        cases hx : loginInput env w s head with
        | none =>
          rw [hx] at h
          exact .refused hst h.quiet
        | some x =>
          rw [hx] at h
          simp only at h
          rw [h]
          have hdelivers := run_afterLogin env (w.next.update (·.login s x)) s head x
          refine .loggedIn x ht hx (hdelivers.mono fun t p hp => ?_)
          obtain ⟨rfl, hp⟩ := hp
          rw [World.update_server, ServerState.sessions_login, if_pos rfl,
            ServerState.login_eq] at hp
          exact ⟨rfl, hp⟩
      rw [run_notPermitted ht hca hlogin hst]
      exact .refused hst (Quiet.respond _ s _)

end

end ZwayServer
