import ZwayServer.Collection
import ZwayServer.Authenticity

/-!
# What a request does to the store

The stored requests after each of the twelve handlers, exactly: those that were stored
before, without the one the handler removes, followed by those it stores.

* `wanted` — the requests that a handler stores.
* `storedFrom` — the records that come of them, with inserts that may throw.
* `removed` — the record that a handler removes.
* `requests_processIncomingRequest` — the store after a handler.
-/

namespace ZwayServer

open ClientSession

/-! ## Inserting -/

/-- The first stored record that matches, as lookups and removals find it. -/
def ServerState.first (σ : ServerState) (q : RequestQuery) : Option Record :=
  σ.requests.find? q.matches

/-- The records stored from a list of requests: an insert that throws stores nothing. -/
def storedFrom : (Nat → Choice) → Nat → List Request → List Record
  | _, _, [] => []
  | tape, oid, r :: rs =>
    if (tape 0).fails then storedFrom (fun n => tape (n + 1)) oid rs
    else ⟨r, oid⟩ :: storedFrom (fun n => tape (n + 1)) (oid + 1) rs

/-- A record that is stored gets an `_id` from the counter. -/
theorem oid_of_mem_storedFrom {tape : Nat → Choice} {oid : Nat} {rs : List Request} {r : Record}
    (hr : r ∈ storedFrom tape oid rs) : oid ≤ r.oid ∧ r.toRequest ∈ rs := by
  induction rs generalizing tape oid with
  | nil => exact absurd hr List.not_mem_nil
  | cons r' rs ih =>
    rw [storedFrom] at hr
    split at hr
    · obtain ⟨hoid, hmem⟩ := ih hr
      exact ⟨hoid, List.mem_cons_of_mem _ hmem⟩
    · rcases List.mem_cons.mp hr with rfl | hr
      · exact ⟨le_refl _, List.mem_cons_self ..⟩
      · obtain ⟨hoid, hmem⟩ := ih hr
        exact ⟨by omega, List.mem_cons_of_mem _ hmem⟩

/-- If no insert throws, everything is stored. -/
theorem toRequest_storedFrom {tape : Nat → Choice} {oid : Nat} {rs : List Request}
    (h : ∀ n < rs.length, (tape n).fails = false) :
    (storedFrom tape oid rs).map Record.toRequest = rs := by
  induction rs generalizing tape oid with
  | nil => rfl
  | cons r rs ih =>
    have hhead := h 0 (Nat.zero_lt_succ _)
    rw [storedFrom, if_neg (by rw [hhead]; decide), List.map_cons,
      ih fun n hn => h (n + 1) (Nat.succ_lt_succ hn)]

section

variable (w : World)

theorem requests_insertRequest (r : Request) : (w.insertRequest r).server.requests =
    w.server.requests ++ storedFrom w.tape w.server.nextOid [r] := by
  by_cases hf : (w.tape 0).fails = true <;>
    simp [World.insertRequest, storedFrom, hf, ServerState.insertRequest]

theorem requests_foldl_storePush (rs : List Request) :
    (rs.foldl World.storePush w).server.requests =
      w.server.requests ++ storedFrom w.tape w.server.nextOid rs := by
  induction rs generalizing w with
  | nil => simp [storedFrom]
  | cons r rs ih =>
    rw [List.foldl_cons, ih]
    by_cases hf : (w.tape 0).fails = true
    · simp [World.storePush, World.schedule, World.update, World.insertRequest, storedFrom, hf,
        ServerState.schedule]
    · simp [World.storePush, World.schedule, World.update, World.insertRequest, storedFrom, hf,
        ServerState.insertRequest, ServerState.schedule]

end

/-! ## What the handlers store and remove -/

section

variable (env : Env) (w : World) (s : SessionId) (head : UBJ.Object)

/-- The requests that a handler stores, unless it turns its request down. -/
def wanted : List Request :=
  let x := (w.server.sessions s).accountId
  match env.decode (head.get "requestType").toInt with
  | some .addContact => (addContactInput env w s head).toList.map (contactRequest head x)
  | some .createAddCode =>
    (createAddCodeInput env w s head).toList.map
      (addCodeRequest head x (addCodeHex (w.tape 1).word))
  | some .acceptContact => (acceptInput env w s head).toList.map (acceptRequest head x)
  | some .rejectContact => (rejectInput w s head).toList.map (rejectRequest head x)
  | some .push => if (w.server.sessions s).status = .loggedIn then pushedRequests head x else []
  | _ => []

/-- How many choices a handler has used up when it comes to its first insert. -/
def insertSlot : Nat :=
  match env.decode (head.get "requestType").toInt with
  | some .addContact => addContactSlot head
  | some .createAddCode => 2
  | some .acceptContact => 2
  | some .rejectContact => 1
  | _ => 0

/-- The record that an accepted or rejected contact request is read from. -/
def answered : Option Record :=
  match env.decode (head.get "requestType").toInt with
  | some .acceptContact => (acceptInput env w s head).map AcceptInput.request
  | some .rejectContact => rejectInput w s head
  | _ => none

/-- The query by which a handler removes a record, unless it removes none. -/
def removal : Option RequestQuery :=
  match env.decode (head.get "requestType").toInt with
  | some .dispatch =>
    if (w.server.sessions s).status = .loggedIn ∧ head.hasField "dispatchId" then
      some (dispatchQuery head (w.server.sessions s).accountId)
    else none
  | some .addContact =>
    if (addContactInput env w s head).isSome ∧ namedAddCode head ≠ "" then
      some { addCode := some (namedAddCode head) }
    else none
  | some .acceptContact | some .rejectContact =>
    (answered env w s head).map fun _ => { id := some (head.get "contactRequestId").toInt }
  | _ => none

/-- The choice that decides whether the removal throws. -/
def removalChoice : Choice :=
  (w.skip (insertSlot env head)).tape (wanted env w s head).length

/-- The record that a handler removes. -/
def removed : Option Record :=
  if (removalChoice env w s head).fails then none
  else (removal env w s head).bind w.server.first

end

/-- A list of records without one of them. -/
def without (rs : List Record) : Option Record → List Record
  | none => rs
  | some f => rs.filter (·.oid ≠ f.oid)

theorem mem_without {rs : List Record} {removed : Option Record} {r : Record} :
    r ∈ without rs removed ↔ r ∈ rs ∧ ∀ f, removed = some f → r.oid ≠ f.oid := by
  cases removed with
  | none => simp [without]
  | some f => simp [without]

theorem without_sublist (rs : List Record) (removed : Option Record) :
    (without rs removed).Sublist rs := by
  cases removed with
  | none => exact List.Sublist.refl _
  | some f => exact List.filter_sublist

/-! ## The store after a handler -/

/-- A removal from a store that has just been added to, and that had a match before. -/
theorem requests_removeRequest {σ : ServerState} {new : List Record} {q : RequestQuery}
    {w : World} (h : StoreInv σ) (hw : w.server.requests = σ.requests ++ new)
    (hmatch : (σ.first q).isSome) : (w.removeRequest q).server.requests =
      without σ.requests (if (w.tape 0).fails then none else σ.first q) ++ new := by
  by_cases hf : (w.tape 0).fails = true
  · simp [World.removeRequest, hf, hw, without]
  · obtain ⟨f, hfind⟩ := Option.isSome_iff_exists.mp hmatch
    simp only [World.removeRequest, hf, Bool.false_eq_true, if_false, hfind, without]
    show w.server.requests.eraseP q.matches = _
    rw [hw, Collection.eraseP_append_of_find? hfind,
      Collection.eraseP_eq_filter_key h.distinct hfind]

/-- A lookup that finds a record finds the first that matches. -/
theorem World.first_of_request {w : World} {q : RequestQuery} {d : Record}
    (h : w.request q = some d) : w.server.first q = some d := by
  rw [World.request] at h
  split at h
  · cases h
  · exact h

/-- The record that an answer reads is the first with the id that it names and with the
account of the session. -/
theorem mem_of_answeredRecord {w : World} {s : SessionId} {head : UBJ.Object} {d : Record}
    (h : answeredRecord w s head = some d) :
    d ∈ w.server.requests ∧ d.id = (head.get "contactRequestId").toInt ∧
      d.dst = some (w.server.sessions s).accountId ∧
      (w.server.first { id := some (head.get "contactRequestId").toInt }).isSome := by
  have hfind := World.first_of_request h
  rw [ServerState.first] at hfind ⊢
  have hmem := List.mem_of_find?_eq_some hfind
  obtain ⟨hid, _, _, hdst, _, _⟩ := RequestQuery.matches_iff.mp (List.find?_some hfind)
  refine ⟨hmem, hid _ rfl, hdst _ rfl, ?_⟩
  rw [List.find?_isSome]
  exact ⟨d, hmem, by simp [RequestQuery.matches, hid _ rfl]⟩

theorem answeredRecord_of_acceptInput {env : Env} {w : World} {s : SessionId} {head : UBJ.Object}
    {i : AcceptInput} (h : acceptInput env w s head = some i) :
    (w.server.sessions s).status = .loggedIn ∧ answeredRecord w s head = some i.request := by
  rw [acceptInput] at h
  split at h
  · next hst =>
    simp only [Option.bind_eq_bind, Option.bind_eq_some_iff] at h
    obtain ⟨request, hr, account, _, contactPublicKey, _, publicKey, _, hi⟩ := h
    cases hi
    exact ⟨hst, hr⟩
  · cases h

theorem answeredRecord_of_rejectInput {w : World} {s : SessionId} {head : UBJ.Object}
    {d : Record} (h : rejectInput w s head = some d) :
    (w.server.sessions s).status = .loggedIn ∧ answeredRecord w s head = some d := by
  rw [rejectInput] at h
  split at h
  · next hst => exact ⟨hst, h⟩
  · cases h

/-- A contact request that names an add code has found a record with it. -/
theorem addCodeRecord_of_addContactInput {env : Env} {w : World} {s : SessionId}
    {head : UBJ.Object} {i : ContactInput} (h : addContactInput env w s head = some i)
    (hcode : namedAddCode head ≠ "") :
    ∃ f, w.server.first { type := some .addContact, addCode := some (namedAddCode head) } =
      some f := by
  rw [addContactInput] at h
  split at h
  · simp only [Option.bind_eq_bind, Option.bind_eq_some_iff] at h
    obtain ⟨account, _, request, hr, _⟩ := h
    exact ⟨request, World.first_of_request (w := w.next) hr⟩
  · cases h

/-- The same record comes first among those with the add code, whatever their type: only
contact requests have one. -/
theorem first_addCode {σ : ServerState} (h : StoreInv σ) (code : String) :
    σ.first { addCode := some code } =
      σ.first { type := some .addContact, addCode := some code } := by
  let q : RequestQuery := { addCode := some code }
  let q' : RequestQuery := { type := some .addContact, addCode := some code }
  have hsame : ∀ rs : List Record, (∀ r ∈ rs, r ∈ σ.requests) →
      rs.find? q.matches = rs.find? q'.matches := by
    intro rs
    induction rs with
    | nil => intro _; rfl
    | cons r rs ih =>
      intro hmem
      have htype := h.code r (hmem r (List.mem_cons_self ..))
      have hrest := ih fun r' hr' => hmem r' (List.mem_cons_of_mem _ hr')
      rw [List.find?_cons, List.find?_cons, hrest]
      by_cases hr : r.addCode = some code
      · have ht := htype (by rw [hr]; exact Option.some_ne_none _)
        simp [q, q', RequestQuery.matches, hr, ht]
      · have hne : (some code == r.addCode) = false := beq_eq_false_iff_ne.mpr (Ne.symm hr)
        simp [q, q', RequestQuery.matches, hne]
  exact hsame σ.requests fun _ hr => hr

section

variable {env : Env} {w : World} {s : SessionId} {head : UBJ.Object}

theorem requests_acceptContact (h : StoreInv w.server)
    (ht : env.decode (head.get "requestType").toInt = some .acceptContact) :
    (Proc.run (step env) (processAcceptContact s head) w).2.server.requests =
      without w.server.requests (removed env w s head) ++
        storedFrom (w.skip (insertSlot env head)).tape w.server.nextOid (wanted env w s head) := by
  have hrun := run_processAcceptContact env w s head
  cases hi : acceptInput env w s head with
  | none =>
    rw [hi] at hrun
    simp [hrun.quiet.requests, removed, removal, answered, wanted, ht, hi, without, storedFrom]
  | some i =>
    rw [hi] at hrun
    obtain ⟨data, hrun⟩ := hrun
    obtain ⟨_, hread⟩ := answeredRecord_of_acceptInput hi
    have hmatch := (mem_of_answeredRecord hread).2.2.2
    rw [hrun]
    have hstored := requests_insertRequest (w.skip 2)
      (acceptRequest head (w.server.sessions s).accountId i)
    refine (requests_removeRequest (w := World.respond _ s _) h hstored hmatch).trans ?_
    simp only [removed, removalChoice, removal, answered, wanted, insertSlot, ht, hi]
    rfl

theorem requests_rejectContact (h : StoreInv w.server)
    (ht : env.decode (head.get "requestType").toInt = some .rejectContact) :
    (Proc.run (step env) (processRejectContact s head) w).2.server.requests =
      without w.server.requests (removed env w s head) ++
        storedFrom (w.skip (insertSlot env head)).tape w.server.nextOid (wanted env w s head) := by
  have hrun := run_processRejectContact env w s head
  cases hi : rejectInput w s head with
  | none =>
    rw [hi] at hrun
    simp [hrun.quiet.requests, removed, removal, answered, wanted, ht, hi, without, storedFrom]
  | some request =>
    rw [hi] at hrun
    simp only at hrun
    obtain ⟨_, hread⟩ := answeredRecord_of_rejectInput hi
    have hmatch := (mem_of_answeredRecord hread).2.2.2
    rw [hrun]
    have hstored := requests_insertRequest (w.skip 1)
      (rejectRequest head (w.server.sessions s).accountId request)
    refine (requests_removeRequest (w := World.respond _ s _) h hstored hmatch).trans ?_
    simp only [removed, removalChoice, removal, answered, wanted, insertSlot, ht, hi]
    rfl

theorem requests_createAddCode
    (ht : env.decode (head.get "requestType").toInt = some .createAddCode) :
    (Proc.run (step env) (processCreateAddCode s head) w).2.server.requests =
      without w.server.requests (removed env w s head) ++
        storedFrom (w.skip (insertSlot env head)).tape w.server.nextOid (wanted env w s head) := by
  have hnone : removed env w s head = none := by simp [removed, removal, ht]
  have hrun := run_processCreateAddCode env w s head
  rw [hnone]
  cases hi : createAddCodeInput env w s head with
  | none =>
    rw [hi] at hrun
    simp [hrun.quiet.requests, wanted, ht, hi, without, storedFrom]
  | some i =>
    rw [hi] at hrun
    obtain ⟨data, hrun⟩ := hrun
    rw [hrun]
    simp only [wanted, insertSlot, ht, hi]
    exact requests_insertRequest (w.skip 2) _

theorem requests_addContact (h : StoreInv w.server)
    (ht : env.decode (head.get "requestType").toInt = some .addContact) :
    (Proc.run (step env) (processAddContactRequest s head) w).2.server.requests =
      without w.server.requests (removed env w s head) ++
        storedFrom (w.skip (insertSlot env head)).tape w.server.nextOid (wanted env w s head) := by
  have hrun := run_processAddContactRequest env w s head
  cases hi : addContactInput env w s head with
  | none =>
    rw [hi] at hrun
    simp [hrun.quiet.requests, removed, removal, wanted, ht, hi, without, storedFrom]
  | some i =>
    rw [hi] at hrun
    obtain ⟨data, hrun⟩ := hrun
    rw [hrun]
    have hstored := requests_insertRequest (w.skip (addContactSlot head))
      (contactRequest head (w.server.sessions s).accountId i)
    by_cases hcode : namedAddCode head = ""
    · simp only [World.afterContact, hcode, ne_eq, not_true_eq_false, if_false]
      simp only [removed, removal, wanted, insertSlot, ht, hi, hcode, ne_eq, not_true_eq_false,
        and_false, if_false, Option.bind_none, ite_self, without]
      exact hstored
    · obtain ⟨f, hfind⟩ := addCodeRecord_of_addContactInput hi hcode
      have hmatch : (w.server.first { addCode := some (namedAddCode head) }).isSome := by
        rw [first_addCode h, hfind]
        rfl
      simp only [World.afterContact, hcode, ne_eq, not_false_eq_true, if_true]
      refine (requests_removeRequest (w := World.insertRequest _ _) h hstored hmatch).trans ?_
      simp only [removed, removalChoice, removal, wanted, insertSlot, ht, hi, hcode, ne_eq,
        not_false_eq_true, and_true, Option.isSome_some, if_true]
      rfl

theorem requests_dispatch (h : StoreInv w.server)
    (ht : env.decode (head.get "requestType").toInt = some .dispatch) :
    (Proc.run (step env) (processDispatchRequest s head) w).2.server.requests =
      without w.server.requests (removed env w s head) ++
        storedFrom (w.skip (insertSlot env head)).tape w.server.nextOid (wanted env w s head) := by
  have hwanted : wanted env w s head = [] := by simp [wanted, ht]
  rw [hwanted, storedFrom, List.append_nil]
  by_cases hst : (w.server.sessions s).status = .loggedIn
  swap
  · have hgate := run_notPermitted ht (by decide) (by decide) hst
    simp only [processIncomingRequest, ht] at hgate
    rw [hgate]
    simp [removed, removal, ht, hst, without]
    rfl
  rw [run_processDispatchRequest env w s head hst]
  by_cases hd : head.hasField "dispatchId" = true
  swap
  · simp [removed, removal, ht, hd, without]
  rw [if_pos hd]
  show (w.removeRequest _).server.requests = _
  cases hmatch : w.server.first (dispatchQuery head (w.server.sessions s).accountId) with
  | none =>
    have hself : w.server.requests.eraseP
        (dispatchQuery head (w.server.sessions s).accountId).matches = w.server.requests :=
      Collection.eraseP_eq_self_iff.mpr fun r hr => by
        simpa using List.find?_eq_none.mp hmatch r hr
    simp only [removed, removal, ht, hst, hd, and_self, if_true, Option.bind_some, hmatch,
      ite_self, without, World.removeRequest, ServerState.removeRequest, hself]
  | some f =>
    have hrem := requests_removeRequest (w := w) h
      (show w.server.requests = w.server.requests ++ [] by simp)
      (q := dispatchQuery head (w.server.sessions s).accountId) (by rw [hmatch]; rfl)
    rw [hrem, List.append_nil]
    simp [removed, removalChoice, removal, insertSlot, hwanted, ht, hst, hd, World.skip]

/-- Creating an account, logging in and logging out leave the stored requests alone. -/
theorem requests_account
    (ht : env.decode (head.get "requestType").toInt = some .createAccount ∨
      env.decode (head.get "requestType").toInt = some .login ∨
      env.decode (head.get "requestType").toInt = some .logout) :
    (Proc.run (step env) (processIncomingRequest env s head) w).2.server.requests =
      w.server.requests := by
  cases outcome env w s head with
  | refused _ hq => exact hq.requests
  | loggedOut _ _ hq => exact hq.requests
  | created a _ _ _ hq => exact hq.requests
  | loggedIn x _ _ hd => rw [hd.requests, ServerState.login_eq]
  | edited hst hout _ =>
    -- a session that is logged in is turned down
    rcases ht with ht | ht | ht
    · have hrun := run_processCreateAccount env w s head
      rw [createInput, if_pos hst] at hrun
      simpa only [processIncomingRequest, ht] using hrun.quiet.requests
    · have hrun := run_processLogin env w s head
      rw [loginInput, if_pos hst] at hrun
      simpa only [processIncomingRequest, ht] using hrun.quiet.requests
    · exact absurd ht hout

/-- **The store after a request.**  Of what was stored, the record that the handler removes
is gone; what it stores comes last. -/
theorem requests_processIncomingRequest (h : StoreInv w.server) :
    (Proc.run (step env) (processIncomingRequest env s head) w).2.server.requests =
      without w.server.requests (removed env w s head) ++
        storedFrom (w.skip (insertSlot env head)).tape w.server.nextOid (wanted env w s head) := by
  have hother : wanted env w s head = [] → removal env w s head = none →
      (Proc.run (step env) (processIncomingRequest env s head) w).2.server.requests =
        w.server.requests →
      (Proc.run (step env) (processIncomingRequest env s head) w).2.server.requests =
        without w.server.requests (removed env w s head) ++
          storedFrom (w.skip (insertSlot env head)).tape w.server.nextOid
            (wanted env w s head) := by
    intro hwanted hremoval hsame
    rw [hsame, hwanted, removed, hremoval]
    simp [without, storedFrom]
  cases ht : env.decode (head.get "requestType").toInt with
  | none =>
    refine hother (by simp [wanted, ht]) (by simp [removal, ht]) ?_
    simp [processIncomingRequest, ht]
  | some t =>
    cases t with
    | addContact =>
      simpa only [processIncomingRequest, ht] using requests_addContact h ht
    | createAddCode =>
      simpa only [processIncomingRequest, ht] using requests_createAddCode ht
    | acceptContact =>
      simpa only [processIncomingRequest, ht] using requests_acceptContact h ht
    | rejectContact =>
      simpa only [processIncomingRequest, ht] using requests_rejectContact h ht
    | dispatch =>
      simpa only [processIncomingRequest, ht] using requests_dispatch h ht
    | push =>
      by_cases hst : (w.server.sessions s).status = .loggedIn
      · obtain ⟨data, hrun⟩ := run_processPushRequest env w s head hst
        simp only [processIncomingRequest, ht, hrun, wanted, hst, if_true, removed, removal,
          Option.bind_none, ite_self, without, insertSlot]
        exact requests_foldl_storePush w _
      · refine hother (by simp [wanted, ht, hst]) (by simp [removal, ht]) ?_
        rw [run_notPermitted ht (by decide) (by decide) hst]
        rfl
    | config =>
      refine hother (by simp [wanted, ht]) (by simp [removal, ht]) ?_
      simpa only [processIncomingRequest, ht] using
        (quiet_run (quiet_processConfigRequest env s head) w).requests
    | findContact =>
      refine hother (by simp [wanted, ht]) (by simp [removal, ht]) ?_
      simpa only [processIncomingRequest, ht] using
        (quiet_run (quiet_processFindContactRequest s head) w).requests
    | contactStatus =>
      refine hother (by simp [wanted, ht]) (by simp [removal, ht]) ?_
      simpa only [processIncomingRequest, ht] using
        (quiet_run (quiet_processContactStatusRequest s head) w).requests
    | createAccount | login | logout =>
      refine hother (by simp [wanted, ht]) (by simp [removal, ht]) ?_
      exact requests_account (by simp [ht])

end

/-! ## The store after a step -/

/-- Every event but a request removes what it removes, or tells of an upload. -/
theorem requests_next_of_not_request (env : Env) {σ : ServerState} {a : Act} (hp : a.Possible σ)
    (h : ∀ s head, a.event ≠ .request s head) :
    (next env σ a).requests.Sublist σ.requests ∨ ∃ id x, (next env σ a).requests =
      σ.requests ++ storedFrom a.tape σ.nextOid [uploadRequest id x] := by
  have hsame : (next env σ a).requests = σ.requests →
      (next env σ a).requests.Sublist σ.requests := fun heq => by rw [heq]
  by_cases hlife : a.event.IsLife
  · exact Or.inl (hsame (sameStore_next env hp hlife).requests)
  obtain ⟨event, tape⟩ := a
  cases event with
  | connect | handshake | disconnect | removeSessions => exact absurd trivial hlife
  | request s head => exact absurd rfl (h s head)
  | response s k head =>
    obtain ⟨p, _, hresp⟩ := next_response env hp
    split at hresp
    · refine Or.inl ?_
      rw [hresp.requests, World.removeRequest]
      split
      · exact List.Sublist.refl _
      · exact List.eraseP_sublist
    · exact Or.inl (hsame (by rw [hresp]; rfl))
  | createReceiver s pkt => exact Or.inl (hsame (next_createReceiver env hp).requests)
  | receive s id body => exact Or.inl (hsame (next_receive env hp).requests)
  | received s id =>
    have hrecv := next_received env hp
    split at hrecv
    · exact Or.inl (hsame (by rw [hrecv]))
    · exact Or.inr ⟨_, _, hrecv.requests.trans (requests_insertRequest ⟨σ, tape, []⟩ _)⟩
  | userRequests k => exact Or.inl (hsame (next_userRequests env hp).requests)
  | send k size offset => exact Or.inl (hsame (next_send env hp).requests)
  | timer completed => exact Or.inl (hsame (next_timer env hp).requests)

/-- Without a request, some stored records may go, and of an upload the client is told. -/
def Upkeep (σ σ' : ServerState) : Prop :=
  ∃ kept new : List Record, kept.Sublist σ.requests ∧ σ'.requests = kept ++ new ∧
    ∀ r ∈ new, σ.nextOid ≤ r.oid ∧ r.type = .dispatch ∧ r.addCode = none

/-- Every event but a request leaves the store alone, removes a record that was acknowledged,
or tells of an upload. -/
theorem upkeep_next (env : Env) {σ : ServerState} {a : Act} (hp : a.Possible σ)
    (h : ∀ s head, a.event ≠ .request s head) : Upkeep σ (next env σ a) := by
  obtain hless | ⟨id, x, hupload⟩ := requests_next_of_not_request env hp h
  · exact ⟨_, [], hless, (List.append_nil _).symm, fun _ hr => absurd hr List.not_mem_nil⟩
  · refine ⟨σ.requests, _, List.Sublist.refl _, hupload, fun r hr => ?_⟩
    obtain ⟨hoid, hmem⟩ := oid_of_mem_storedFrom hr
    rw [List.mem_singleton] at hmem
    exact ⟨hoid, by rw [hmem]; rfl, by rw [hmem]; rfl⟩

/-- The store after a request. -/
theorem requests_next_request (env : Env) {σ : ServerState} (h : StoreInv σ) {s : SessionId}
    {head : UBJ.Object} {tape : Nat → Choice}
    (hp : (Act.mk (.request s head) tape).Possible σ) :
    (next env σ ⟨.request s head, tape⟩).requests =
      without σ.requests (removed env ⟨σ, tape, []⟩ s head) ++
        storedFrom (fun n => tape (n + insertSlot env head)) σ.nextOid
          (wanted env ⟨σ, tape, []⟩ s head) := by
  rw [next_request_eq env hp]
  exact requests_processIncomingRequest (w := ⟨σ, tape, []⟩) h

/-- The counter of `_id`s never goes back. -/
theorem nextOid_next (env : Env) {σ : ServerState} {a : Act} (hp : a.Possible σ) :
    σ.nextOid ≤ (next env σ a).nextOid := by
  by_cases hlife : a.event.IsLife
  · rw [(sameStore_next env hp hlife).nextOid]
  obtain ⟨event, tape⟩ := a
  cases event with
  | connect | handshake | disconnect | removeSessions => exact absurd trivial hlife
  | request s head =>
    cases next_request env hp with
    | refused _ hq => rw [hq.nextOid]
    | edited _ _ he => exact he.new_record.1
    | loggedOut _ _ hq =>
      rw [hq.nextOid]
      exact le_refl _
    | created account _ _ _ hq =>
      rw [hq.nextOid]
      exact le_refl _
    | loggedIn x _ _ hd => rw [hd.nextOid, ServerState.login_eq]
  | response s k head =>
    obtain ⟨p, _, hresp⟩ := next_response env hp
    split at hresp
    · rw [hresp.nextOid, World.removeRequest]
      split <;> exact le_refl _
    · rw [hresp]
      exact le_refl _
  | createReceiver s pkt => rw [(next_createReceiver env hp).nextOid]
  | receive s id body => rw [(next_receive env hp).nextOid]
  | received s id =>
    have hrecv := next_received env hp
    split at hrecv
    · rw [hrecv]
    · rw [hrecv.nextOid, World.insertRequest]
      split
      · exact le_refl _
      · exact Nat.le_succ _
  | userRequests k =>
    rw [(next_userRequests env hp).nextOid]
  | send k size offset => rw [(next_send env hp).nextOid]
  | timer completed => rw [(next_timer env hp).nextOid]

/-- A record that is stored after a step was stored before, or it is new: then it tells of an
upload, or it is one of those that a request has stored. -/
theorem mem_requests_next (env : Env) {σ : ServerState} (h : StoreInv σ) {a : Act} {r : Record}
    (hr : r ∈ (next env σ a).requests) : r ∈ σ.requests ∨ a.Possible σ ∧ σ.nextOid ≤ r.oid ∧
      (r.type = .dispatch ∧ r.addCode = none ∨ ∃ s head, a.event = .request s head ∧
        r ∈ storedFrom (fun n => a.tape (n + insertSlot env head)) σ.nextOid
          (wanted env ⟨σ, a.tape, []⟩ s head)) := by
  by_cases hp : a.Possible σ
  swap
  · rw [next_of_not_possible hp] at hr
    exact Or.inl hr
  by_cases hreq : ∃ s head, a.event = .request s head
  · obtain ⟨event, tape⟩ := a
    obtain ⟨s, head, rfl⟩ := hreq
    rw [requests_next_request env h hp] at hr
    rcases List.mem_append.mp hr with hold | hnew
    · exact Or.inl ((without_sublist _ _).subset hold)
    · exact Or.inr ⟨hp, (oid_of_mem_storedFrom hnew).1, Or.inr ⟨s, head, rfl, hnew⟩⟩
  · obtain ⟨kept, new, hkept, heq, hnew⟩ :=
      upkeep_next env hp fun s head he => hreq ⟨s, head, he⟩
    rw [heq] at hr
    rcases List.mem_append.mp hr with hold | hmem
    · exact Or.inl (hkept.subset hold)
    · exact Or.inr ⟨hp, (hnew r hmem).1, Or.inl (hnew r hmem).2⟩

theorem old_or_new_next (env : Env) {σ : ServerState} (h : StoreInv σ) {a : Act} {r : Record}
    (hr : r ∈ (next env σ a).requests) : r ∈ σ.requests ∨ σ.nextOid ≤ r.oid :=
  (mem_requests_next env h hr).imp_right fun hnew => hnew.2.1

/-- Which of the two it is can be told from its `_id`. -/
theorem new_next (env : Env) {σ : ServerState} (h : StoreInv σ) {a : Act} {r : Record}
    (hr : r ∈ (next env σ a).requests) (hnew : σ.nextOid ≤ r.oid) : a.Possible σ ∧
      (r.type = .dispatch ∧ r.addCode = none ∨ ∃ s head, a.event = .request s head ∧
        r ∈ storedFrom (fun n => a.tape (n + insertSlot env head)) σ.nextOid
          (wanted env ⟨σ, a.tape, []⟩ s head)) := by
  rcases mem_requests_next env h hr with hold | ⟨hp, -, hkind⟩
  · have hlt := h.fresh r hold
    omega
  · exact ⟨hp, hkind⟩

/-- What has left the store does not come back. -/
theorem mem_earlier (env : Env) (later earlier : List Act) {r : Record}
    (hr : r ∈ (after env (later ++ earlier)).requests) :
    r ∈ (after env earlier).requests ∨ (after env earlier).nextOid ≤ r.oid := by
  have hmono : ∀ later : List Act,
      (after env earlier).nextOid ≤ (after env (later ++ earlier)).nextOid := by
    intro later
    induction later with
    | nil => exact le_refl _
    | cons a later ih =>
      refine ih.trans ?_
      by_cases hp : a.Possible (after env (later ++ earlier))
      · exact nextOid_next env hp
      · rw [List.cons_append, after_cons, next_of_not_possible hp]
  induction later with
  | nil => exact Or.inl hr
  | cons a later ih =>
    rcases old_or_new_next env (storeInv_after env _) hr with hold | hnew
    · exact ih hold
    · exact Or.inr ((hmono later).trans hnew)

end ZwayServer
