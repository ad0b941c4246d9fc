import ZwayServer.Store

/-!
# Success means stored

What the five handlers that store requests tell their client, and what they have then
stored.  `addRequest` reports success even when its insert throws.

* `Handled` — a storing handler turns its request down, or tries to store everything and
  answers success.
* `storedLaw_iff` — a success means that everything was stored, and a failing insert is
  answered by a failure, exactly if no insert throws.
-/

namespace ZwayServer

open ClientSession

/-- The requests that make the server store something. -/
def RequestType.Storing (t : RequestType) : Prop :=
  t = .addContact ∨ t = .createAddCode ∨ t = .acceptContact ∨ t = .rejectContact ∨ t = .push

/-! ## Inserts and responses -/

/-- The inserts that a handler tries, each with whether it throws. -/
def attempts : (Nat → Choice) → List Request → List (Request × Bool)
  | _, [] => []
  | tape, r :: rs => (r, (tape 0).fails) :: attempts (fun n => tape (n + 1)) rs

theorem exists_attempts_iff {tape : Nat → Choice} {rs : List Request} :
    (∃ e ∈ attempts tape rs, e.2 = true) ↔ ∃ n < rs.length, (tape n).fails = true := by
  induction rs generalizing tape with
  | nil => simp [attempts]
  | cons r rs ih =>
    rw [attempts, List.length_cons]
    constructor
    · rintro ⟨e, he, hfails⟩
      rcases List.mem_cons.mp he with rfl | he
      · exact ⟨0, Nat.zero_lt_succ _, hfails⟩
      · obtain ⟨n, hn, hf⟩ := ih.mp ⟨e, he, hfails⟩
        exact ⟨n + 1, by omega, hf⟩
    · rintro ⟨n, hn, hf⟩
      cases n with
      | zero => exact ⟨_, List.mem_cons_self .., hf⟩
      | succ n =>
        have hrest : ∃ k < rs.length, ((fun k => tape (k + 1)) k).fails = true :=
          ⟨n, Nat.lt_of_succ_lt_succ hn, hf⟩
        obtain ⟨e, he, hfails⟩ := ih.mpr hrest
        exact ⟨e, List.mem_cons_of_mem _ he, hfails⟩

/-- What is handed over to the engine of the session `s` between `σ` and `σ'`. -/
def newMessages (σ σ' : ServerState) (s : SessionId) : List Message :=
  (σ'.sessions s).outbox.drop (σ.sessions s).outbox.length

/-- A success response is posted. -/
def PostsSuccess (σ σ' : ServerState) (s : SessionId) : Prop :=
  ∃ id data, .response (.success id data) ∈ newMessages σ σ' s

/-- A failure response is posted. -/
def PostsFailure (σ σ' : ServerState) (s : SessionId) : Prop :=
  ∃ id code text, .response (.failure id code text) ∈ newMessages σ σ' s

theorem newMessages_of_append {σ σ' : ServerState} {s : SessionId} (ms : List Message)
    (h : (σ'.sessions s).outbox = (σ.sessions s).outbox ++ ms) : newMessages σ σ' s = ms := by
  rw [newMessages, h, List.drop_left]

/-- A storing handler either turns its request down, or tries to store all that it wants to
and answers success. -/
inductive Handled (env : Env) (w : World) (s : SessionId) (head : UBJ.Object) (w' : World) : Prop
  | refused (hwanted : wanted env w s head = []) (hinserts : w'.inserts = w.inserts)
      (hmessages : ∀ m ∈ newMessages w.server w'.server s,
        ∃ id code text, m = .response (.failure id code text))
  | done (hinserts : w'.inserts =
        w.inserts ++ attempts (w.skip (insertSlot env head)).tape (wanted env w s head))
      (hmessages : ∃ id data,
        newMessages w.server w'.server s = [.response (.success id data)])

section

variable {env : Env} {w : World} {s : SessionId} {head : UBJ.Object}

theorem Handled.of_refused {out : Bool × World} (h : Refused s w out)
    (hwanted : wanted env w s head = []) : Handled env w s head out.2 := by
  refine .refused hwanted h.inserts fun m hm => ?_
  obtain ⟨id, code, text, hs⟩ | hs := h.server
  · rw [newMessages_of_append [.response (.failure id code text)]
      (by simp [hs, ServerState.send])] at hm
    exact ⟨id, code, text, List.mem_singleton.mp hm⟩
  · rw [newMessages_of_append [] (by simp [hs])] at hm
    cases hm

/-- Inserting, removing and scheduling hand nothing over. -/
theorem outbox_insertRequest (w : World) (r : Request) (s : SessionId) :
    ((w.insertRequest r).server.sessions s).outbox = (w.server.sessions s).outbox := by
  rw [sessions_insertRequest]

theorem outbox_removeRequest (w : World) (q : RequestQuery) (s : SessionId) :
    ((w.removeRequest q).server.sessions s).outbox = (w.server.sessions s).outbox := by
  rw [World.removeRequest]
  split <;> rfl

theorem outbox_respond (w : World) (s : SessionId) (r : Response) :
    ((w.respond s r).server.sessions s).outbox = (w.server.sessions s).outbox ++ [.response r] := by
  simp [World.respond, ServerState.send]

theorem outbox_putContact (w : World) (s : SessionId) (id : UInt32) :
    ((w.putContact s id).server.sessions s).outbox = (w.server.sessions s).outbox := by
  simp [World.putContact]

theorem outbox_foldl_storePush (w : World) (rs : List Request) (s : SessionId) :
    ((rs.foldl World.storePush w).server.sessions s).outbox = (w.server.sessions s).outbox ∧
      (rs.foldl World.storePush w).inserts = w.inserts ++ attempts w.tape rs := by
  induction rs generalizing w with
  | nil => simp [attempts]
  | cons r rs ih =>
    obtain ⟨hout, hins⟩ := ih (w.storePush r)
    rw [List.foldl_cons, hout, hins]
    refine ⟨outbox_insertRequest w r s, ?_⟩
    rw [attempts, List.append_cons]
    rfl

theorem handled_addContact
    (ht : env.decode (head.get "requestType").toInt = some .addContact) :
    Handled env w s head (Proc.run (step env) (processIncomingRequest env s head) w).2 := by
  have hrun := run_processAddContactRequest env w s head
  simp only [processIncomingRequest, ht]
  cases hi : addContactInput env w s head with
  | none =>
    rw [hi] at hrun
    exact .of_refused hrun (by simp [wanted, ht, hi])
  | some i =>
    rw [hi] at hrun
    obtain ⟨data, hrun⟩ := hrun
    rw [hrun]
    refine .done ?_ ⟨(head.get "requestId").toInt, data, newMessages_of_append _ ?_⟩
    · simp only [wanted, insertSlot, ht, hi, World.afterContact]
      split <;> rfl
    · rw [World.afterContact]
      split
      · exact (outbox_respond _ s _).trans (by rw [outbox_removeRequest, outbox_insertRequest]; rfl)
      · exact (outbox_respond _ s _).trans (by rw [outbox_insertRequest]; rfl)

theorem handled_createAddCode
    (ht : env.decode (head.get "requestType").toInt = some .createAddCode) :
    Handled env w s head (Proc.run (step env) (processIncomingRequest env s head) w).2 := by
  have hrun := run_processCreateAddCode env w s head
  simp only [processIncomingRequest, ht]
  cases hi : createAddCodeInput env w s head with
  | none =>
    rw [hi] at hrun
    exact .of_refused hrun (by simp [wanted, ht, hi])
  | some i =>
    rw [hi] at hrun
    obtain ⟨data, hrun⟩ := hrun
    rw [hrun]
    refine .done ?_ ⟨(head.get "requestId").toInt, data, newMessages_of_append _ ?_⟩
    · simp only [wanted, insertSlot, ht, hi]
      rfl
    · exact (outbox_respond _ s _).trans (by rw [outbox_insertRequest]; rfl)

theorem handled_acceptContact
    (ht : env.decode (head.get "requestType").toInt = some .acceptContact) :
    Handled env w s head (Proc.run (step env) (processIncomingRequest env s head) w).2 := by
  have hrun := run_processAcceptContact env w s head
  simp only [processIncomingRequest, ht]
  cases hi : acceptInput env w s head with
  | none =>
    rw [hi] at hrun
    exact .of_refused hrun (by simp [wanted, ht, hi])
  | some i =>
    rw [hi] at hrun
    obtain ⟨data, hrun⟩ := hrun
    rw [hrun]
    refine .done ?_ ⟨(head.get "requestId").toInt, data, newMessages_of_append _ ?_⟩
    · simp only [wanted, insertSlot, ht, hi]
      rfl
    · refine (outbox_putContact _ s _).trans ?_
      rw [outbox_removeRequest, outbox_respond, outbox_insertRequest]
      rfl

theorem handled_rejectContact
    (ht : env.decode (head.get "requestType").toInt = some .rejectContact) :
    Handled env w s head (Proc.run (step env) (processIncomingRequest env s head) w).2 := by
  have hrun := run_processRejectContact env w s head
  simp only [processIncomingRequest, ht]
  cases hi : rejectInput w s head with
  | none =>
    rw [hi] at hrun
    exact .of_refused hrun (by simp [wanted, ht, hi])
  | some request =>
    rw [hi] at hrun
    simp only at hrun
    rw [hrun]
    refine .done ?_ ⟨(head.get "requestId").toInt, [], newMessages_of_append _ ?_⟩
    · simp only [wanted, insertSlot, ht, hi]
      rfl
    · refine (outbox_removeRequest _ _ s).trans ?_
      rw [outbox_respond, outbox_insertRequest]
      rfl

theorem handled_push (ht : env.decode (head.get "requestType").toInt = some .push) :
    Handled env w s head (Proc.run (step env) (processIncomingRequest env s head) w).2 := by
  by_cases hst : (w.server.sessions s).status = .loggedIn
  · obtain ⟨data, hrun⟩ := run_processPushRequest env w s head hst
    simp only [processIncomingRequest, ht, hrun]
    obtain ⟨hout, hins⟩ := outbox_foldl_storePush w
      (pushedRequests head (w.server.sessions s).accountId) s
    refine .done ?_ ⟨(head.get "requestId").toInt, data, newMessages_of_append _ ?_⟩
    · simp only [wanted, insertSlot, ht, hst, if_true]
      exact hins
    · rw [outbox_respond, hout]
  · rw [run_notPermitted ht (by decide) (by decide) hst]
    exact .of_refused (refused_fail s w w rfl rfl _ _ _) (by simp [wanted, ht, hst])

theorem handled {t : RequestType} (ht : env.decode (head.get "requestType").toInt = some t)
    (hstoring : t.Storing) :
    Handled env w s head (Proc.run (step env) (processIncomingRequest env s head) w).2 := by
  rcases hstoring with rfl | rfl | rfl | rfl | rfl
  · exact handled_addContact ht
  · exact handled_createAddCode ht
  · exact handled_acceptContact ht
  · exact handled_rejectContact ht
  · exact handled_push ht

end

/-! ## The law -/

/-- Everything that the handler wants to store is stored, in records of its own. -/
def StoredAll (env : Env) (w : World) (s : SessionId) (head : UBJ.Object) (w' : World) : Prop :=
  ∃ rs : List Record, rs.map Record.toRequest = wanted env w s head ∧
    (∀ r ∈ rs, w.server.nextOid ≤ r.oid) ∧ rs.Sublist w'.server.requests

/-- A success response means that everything was stored; if an insert threw, there is a
failure response and no success. -/
def StoredLaw (env : Env) (w : World) (s : SessionId) (head : UBJ.Object) (w' : World) : Prop :=
  (PostsSuccess w.server w'.server s → StoredAll env w s head w') ∧
  ((∃ e ∈ w'.inserts, e.2 = true) →
    PostsFailure w.server w'.server s ∧ ¬ PostsSuccess w.server w'.server s)

/-- No insert of the handler throws. -/
def InsertsSucceed (env : Env) (w : World) (s : SessionId) (head : UBJ.Object) : Prop :=
  ∀ n < (wanted env w s head).length, ((w.skip (insertSlot env head)).tape n).fails = false

section

variable {env : Env} {w w' : World} {s : SessionId} {head : UBJ.Object}

/-- A handler that turned its request down has promised nothing and tried nothing. -/
theorem storedLaw_of_refused (hnone : w.inserts = []) (hinserts : w'.inserts = w.inserts)
    (hmessages : ∀ m ∈ newMessages w.server w'.server s,
      ∃ id code text, m = .response (.failure id code text)) : StoredLaw env w s head w' := by
  constructor
  · rintro ⟨id, data, hmem⟩
    obtain ⟨id', code, text, heq⟩ := hmessages _ hmem
    cases heq
  · rintro ⟨e, he, _⟩
    rw [hinserts, hnone] at he
    cases he

/-- An insert that throws is followed by a success response, so the law fails. -/
theorem insertsSucceed_of_storedLaw
    (hinserts : w'.inserts =
      w.inserts ++ attempts (w.skip (insertSlot env head)).tape (wanted env w s head))
    (hmessages : ∃ id data, newMessages w.server w'.server s = [.response (.success id data)])
    (hlaw : StoredLaw env w s head w') : InsertsSucceed env w s head := by
  intro n hn
  by_contra hf
  have hf : ((w.skip (insertSlot env head)).tape n).fails = true := by simpa using hf
  obtain ⟨e, he, hfails⟩ := exists_attempts_iff.mpr ⟨n, hn, hf⟩
  have hmem : e ∈ w'.inserts := by
    rw [hinserts]
    exact List.mem_append_right _ he
  obtain ⟨id, data, hm⟩ := hmessages
  refine (hlaw.2 ⟨e, hmem, hfails⟩).2 ⟨id, data, ?_⟩
  rw [hm]
  exact List.mem_singleton_self _

/-- If no insert throws, everything is stored, and no failure was due. -/
theorem storedLaw_of_insertsSucceed (hnone : w.inserts = [])
    (hinserts : w'.inserts =
      w.inserts ++ attempts (w.skip (insertSlot env head)).tape (wanted env w s head))
    (hrequests : w'.server.requests = without w.server.requests (removed env w s head) ++
      storedFrom (w.skip (insertSlot env head)).tape w.server.nextOid (wanted env w s head))
    (h : InsertsSucceed env w s head) : StoredLaw env w s head w' := by
  constructor
  · intro _
    refine ⟨_, toRequest_storedFrom h, fun r hr => (oid_of_mem_storedFrom hr).1, ?_⟩
    rw [hrequests]
    exact List.sublist_append_right _ _
  · rintro ⟨e, he, hfails⟩
    rw [hinserts, hnone, List.nil_append] at he
    obtain ⟨n, hn, hf⟩ := exists_attempts_iff.mp ⟨e, he, hfails⟩
    rw [h n hn] at hf
    cases hf

end

/-- **Success means stored.**  After any run, a request that makes the server store something
obeys the law exactly if none of its inserts throws. -/
theorem storedLaw_iff (env : Env) (tr : List Act) (s : SessionId) (head : UBJ.Object)
    (tape : Nat → Choice) (t : RequestType)
    (ht : env.decode (head.get "requestType").toInt = some t) (hstoring : t.Storing) :
    StoredLaw env ⟨after env tr, tape, []⟩ s head
        (Proc.run (step env) (processIncomingRequest env s head) ⟨after env tr, tape, []⟩).2 ↔
      InsertsSucceed env ⟨after env tr, tape, []⟩ s head := by
  have hinv : StoreInv (World.mk (after env tr) tape []).server := storeInv_after env tr
  cases handled (w := ⟨after env tr, tape, []⟩) ht hstoring with
  | refused hwanted hinserts hmessages =>
    refine ⟨fun _ n hn => ?_, fun _ => storedLaw_of_refused rfl hinserts hmessages⟩
    rw [hwanted] at hn
    exact absurd hn (Nat.not_lt_zero n)
  | done hinserts hmessages =>
    exact ⟨insertsSucceed_of_storedLaw hinserts hmessages,
      storedLaw_of_insertsSucceed rfl hinserts (requests_processIncomingRequest hinv)⟩

/-! ## A push whose insert throws -/

/-- Every call throws. -/
def allFail : Nat → Choice := fun _ => { fails := true }

/-- The push of a session that is logged in. -/
def storingHead : UBJ.Object :=
  sampleRequest .push 7 [("keys", .array [.object [("dst", .int32 5)]])]

/-- The push is stored if nothing fails. -/
theorem storedLaw_push : StoredLaw sampleEnv ⟨after sampleEnv (sampleJoin 0 "a" 1), calm 0, []⟩ 0
    storingHead (Proc.run (step sampleEnv) (processIncomingRequest sampleEnv 0 storingHead)
      ⟨after sampleEnv (sampleJoin 0 "a" 1), calm 0, []⟩).2 :=
  (storedLaw_iff sampleEnv (sampleJoin 0 "a" 1) 0 storingHead (calm 0) .push (by decide)
    (by simp [RequestType.Storing])).mpr fun _ _ => rfl

/-- If its insert throws, the push is answered by a success, and nothing is stored. -/
theorem not_storedLaw_push :
    ¬ StoredLaw sampleEnv ⟨after sampleEnv (sampleJoin 0 "a" 1), allFail, []⟩ 0 storingHead
      (Proc.run (step sampleEnv) (processIncomingRequest sampleEnv 0 storingHead)
        ⟨after sampleEnv (sampleJoin 0 "a" 1), allFail, []⟩).2 := by
  intro hlaw
  have hwanted : (wanted sampleEnv ⟨after sampleEnv (sampleJoin 0 "a" 1), allFail, []⟩ 0
      storingHead).length = 1 := by decide +kernel
  have ht : sampleEnv.decode (storingHead.get "requestType").toInt = some .push := by decide
  cases handled (s := 0) (w := ⟨after sampleEnv (sampleJoin 0 "a" 1), allFail, []⟩) ht
    (by simp [RequestType.Storing]) with
  | refused hnone _ _ =>
    rw [hnone] at hwanted
    cases hwanted
  | done hinserts hmessages =>
    have hfails := insertsSucceed_of_storedLaw hinserts hmessages hlaw 0 (by omega)
    cases hfails

end ZwayServer
