import ZwayServer.Delivery
import ZwayServer.Store

/-!
# What is removed from the store

Records are removed by queries, "just one" at a time: the first record that matches.
Ids are chosen by clients, so several records may match.

* `ack_removes_iff` — when an acknowledgement removes the record that was acknowledged,
  and nothing else.
* `authorisedRemoval_iff` — when a request removes nothing but what its sender may remove.
-/

namespace ZwayServer

open ClientSession

/-! ## Acknowledgements -/

/-- The record `d` comes first among the stored records with its id and the addressee `x`. -/
def FirstOf (σ : ServerState) (d : Record) (x : UInt32) : Prop :=
  d.dst = some x ∧ ∃ before behind, σ.requests = before ++ d :: behind ∧
    ∀ r ∈ before, ¬ (r.id = d.id ∧ r.dst = some x)

/-- The acknowledgement of a request of the session `s` finds the record that the request
was made from, if it is still stored, and otherwise finds nothing. -/
def AckFinds (σ : ServerState) (s : SessionId) (p : Posted) (c : Choice) : Prop :=
  (p.record ∈ σ.requests → c.fails = false ∧ FirstOf σ p.record (σ.sessions s).accountId) ∧
  (p.record ∉ σ.requests →
    c.fails = true ∨ ∀ r ∈ σ.requests, ¬ (r.id = p.id ∧ r.dst = some (σ.sessions s).accountId))

theorem ackQuery_matches {p : Posted} {x : UInt32} {r : Record} :
    (ackQuery p x).matches r = true ↔ r.id = p.id ∧ r.dst = some x := by
  rw [RequestQuery.matches_iff]
  simp [ackQuery]

/-- The first match of the query of an acknowledgement. -/
theorem first_ackQuery_iff {σ : ServerState} {p : Posted} {x : UInt32}
    (hid : p.id = p.record.id) : σ.first (ackQuery p x) = some p.record ↔ FirstOf σ p.record x := by
  have hno : ∀ r : Record, (!(ackQuery p x).matches r) = true ↔
      ¬ (r.id = p.record.id ∧ r.dst = some x) := by
    intro r
    rw [Bool.not_eq_true', ← hid, ← ackQuery_matches, Bool.not_eq_true]
  rw [ServerState.first, List.find?_eq_some_iff_append, ackQuery_matches, FirstOf]
  simp only [hno]
  constructor
  · rintro ⟨⟨_, hdst⟩, hsplit⟩
    exact ⟨hdst, hsplit⟩
  · rintro ⟨hdst, hsplit⟩
    exact ⟨⟨hid.symm, hdst⟩, hsplit⟩

/-- **Acknowledgements.**  After any run, the acknowledgement of a request removes the record
that the request was made from, and no other, exactly if its query finds that record. -/
theorem ack_removes_iff (env : Env) (tr : List Act) (s : SessionId) (k : Nat)
    (head : UBJ.Object) (tape : Nat → Choice) (p : Posted)
    (hp : (Act.mk (.response s k head) tape).Possible (after env tr))
    (hposted : ((after env tr).sessions s).posted[k]? = some p) (hack : Acknowledges p head) :
    (after env (⟨.response s k head, tape⟩ :: tr)).requests =
        (after env tr).requests.filter (·.oid ≠ p.record.oid) ↔
      AckFinds (after env tr) s p (tape 0) := by
  have hinv := storeInv_after env tr
  obtain ⟨q, hq, hresp⟩ := next_response env hp
  obtain rfl : q = p := Option.some.inj (hq.symm.trans hposted)
  rw [if_pos hack] at hresp
  have hmem : q ∈ ((after env tr).sessions s).posted := List.mem_of_getElem? hposted
  have hid : q.id = q.record.id := (hinv.postedId s q hmem).1
  -- the store after the removal
  have hstore : (after env (⟨.response s k head, tape⟩ :: tr)).requests =
      if (tape 0).fails then (after env tr).requests
      else (after env tr).requests.eraseP
        (ackQuery q ((after env tr).sessions s).accountId).matches := by
    rw [after_cons, hresp.requests, World.removeRequest]
    show (if (tape 0).fails then _ else _ : ServerState).requests = _
    split <;> rfl
  rw [hstore]
  by_cases hstored : q.record ∈ (after env tr).requests
  · have hself : ¬ (after env tr).requests =
        (after env tr).requests.filter (·.oid ≠ q.record.oid) := fun heq =>
      Collection.filter_key_eq_self_iff.mp heq.symm q.record hstored rfl
    simp only [AckFinds, hstored, true_imp_iff, not_true_eq_false, false_imp_iff, and_true]
    by_cases hf : (tape 0).fails = true
    · simp only [hf, if_true, Bool.true_eq_false, false_and, iff_false]
      exact hself
    · simp only [hf, if_false, true_and, Bool.false_eq_true]
      rw [Collection.eraseP_eq_filter_key_iff hinv.distinct hstored, ← first_ackQuery_iff hid]
      rfl
  · have hgone : (after env tr).requests.filter (·.oid ≠ q.record.oid) =
        (after env tr).requests :=
      Collection.filter_key_eq_self_iff.mpr fun r hr ho =>
        hstored (hinv.postedSame s q hmem r hr ho ▸ hr)
    rw [hgone]
    simp only [AckFinds, hstored, false_imp_iff, true_and, not_false_eq_true, true_imp_iff]
    by_cases hf : (tape 0).fails = true
    · simp [hf]
    · simp only [hf, if_false, false_or, Bool.false_eq_true]
      rw [Collection.eraseP_eq_self_iff]
      simp only [← ackQuery_matches, Bool.not_eq_true]

/-- Two accounts; the second pushes to the first under the id 7, and then the first uploads
a stream with the same id. -/
def collisionRun : List Act :=
  [sampleUploaded 0 7, sampleUpload 0 7, samplePush 1 7 1] ++ sampleJoin 1 "b" 2 ++
    sampleJoin 0 "a" 1

/-- The answer with status 1 to the `k`-th posted request. -/
def sampleAck (s : SessionId) (k : Nat) : Act := ⟨.response s k [("status", .int32 1)], calm 0⟩

/-- A request that has been posted in the collision. -/
theorem posted_collision : ∃ p, ((after sampleEnv collisionRun).sessions 0).posted[1]? = some p ∧
    p.type = .dispatch ∧ p.record.oid = 1 := by
  have hsome : (((after sampleEnv collisionRun).sessions 0).posted[1]?).isSome = true := by
    decide +kernel
  have htype : (((after sampleEnv collisionRun).sessions 0).posted[1]?).map Posted.type =
      some .dispatch := by decide +kernel
  have hoid : (((after sampleEnv collisionRun).sessions 0).posted[1]?).map (·.record.oid) =
      some 1 := by decide +kernel
  obtain ⟨p, hp⟩ := Option.isSome_iff_exists.mp hsome
  rw [hp] at htype hoid
  exact ⟨p, hp, Option.some.inj htype, Option.some.inj hoid⟩

/-- In the collision, what the acknowledgement of the upload removes depends on the push. -/
theorem ack_removes_collision :
    ∃ p, ((after sampleEnv collisionRun).sessions 0).posted[1]? = some p ∧
      ((after sampleEnv (sampleAck 0 1 :: collisionRun)).requests =
        (after sampleEnv collisionRun).requests.filter (·.oid ≠ p.record.oid) ↔
      AckFinds (after sampleEnv collisionRun) 0 p (calm 0 0)) := by
  obtain ⟨p, hp, htype, _⟩ := posted_collision
  refine ⟨p, hp, ack_removes_iff sampleEnv collisionRun 0 1 [("status", .int32 1)] (calm 0) p
    (by decide +kernel) hp ⟨?_, by decide +kernel⟩⟩
  rw [htype]
  decide

/-- The acknowledgement of the upload removes the push, which nobody has acknowledged. -/
theorem ack_removes_push :
    ∃ p, (sampleAck 0 1).Possible (after sampleEnv collisionRun) ∧
      ((after sampleEnv collisionRun).sessions 0).posted[1]? = some p ∧
      Acknowledges p [("status", .int32 1)] ∧
      ¬ (after sampleEnv (sampleAck 0 1 :: collisionRun)).requests =
        (after sampleEnv collisionRun).requests.filter (·.oid ≠ p.record.oid) := by
  obtain ⟨p, hp, htype, hoid⟩ := posted_collision
  refine ⟨p, by decide +kernel, hp, ⟨?_, by decide +kernel⟩, fun h => ?_⟩
  · rw [htype]
    decide
  · have hids := congrArg (List.map Record.oid) h
    rw [hoid] at hids
    revert hids
    decide +kernel

/-! ## Requests -/

section

variable (env : Env) (w : World) (s : SessionId) (head : UBJ.Object)

/-- The add-code record that an `AddContact` request names. -/
def NamesCode (r : Record) : Prop :=
  env.decode (head.get "requestType").toInt = some .addContact ∧ namedAddCode head ≠ "" ∧
    r.addCode = some (namedAddCode head) ∧ r.dst = none

/-- What the account `x` may remove by a request. -/
def MayRemove (x : UInt32) (r : Record) : Prop :=
  r.src = x ∨ r.dst = some x ∨ NamesCode env head r

/-- From the store `w` to the store `after`, only records were removed that the account of
the session may remove; a contact request that was accepted or rejected was removed, and
nothing with it.  What stays does so unchanged and in order. -/
def AuthorisedRemoval (after : List Record) : Prop :=
  ∃ (keep : Record → Bool) (new : List Record),
    after = w.server.requests.filter keep ++ new ∧ (∀ r ∈ new, w.server.nextOid ≤ r.oid) ∧
    (∀ r ∈ w.server.requests, keep r = false →
      MayRemove env head (w.server.sessions s).accountId r) ∧
    ∀ d, answered env w s head = some d →
      ∀ r ∈ w.server.requests, keep r = false ↔ r = d

/-- The queries by which the handlers remove find what may be removed: an answer finds the
contact request that it has read, and an `AddContact` that names a code finds a record of
its own account, or one without an addressee. -/
def RemovalFinds : Prop :=
  let x := (w.server.sessions s).accountId
  (∀ d, answered env w s head = some d →
    (removalChoice env w s head).fails = false ∧
      ∃ f, w.server.first { id := some (head.get "contactRequestId").toInt } = some f ∧
        f.dst = some x) ∧
  (env.decode (head.get "requestType").toInt = some .addContact →
    (addContactInput env w s head).isSome → namedAddCode head ≠ "" →
    (removalChoice env w s head).fails = true ∨
      ∃ f, w.server.first { addCode := some (namedAddCode head) } = some f ∧
        (f.dst = none ∨ f.src = x ∨ f.dst = some x))

end

section

variable {env : Env} {w : World} {s : SessionId} {head : UBJ.Object}

/-- The record that is removed was stored. -/
theorem mem_of_removed {f : Record} (hf : removed env w s head = some f) :
    ∃ q, removal env w s head = some q ∧ w.server.first q = some f ∧
      f ∈ w.server.requests ∧ (removalChoice env w s head).fails = false := by
  rw [removed] at hf
  split at hf
  · cases hf
  · next hfails =>
    obtain ⟨q, hq, hfirst⟩ := Option.bind_eq_some_iff.mp hf
    exact ⟨q, hq, hfirst, List.mem_of_find?_eq_some hfirst, by simpa using hfails⟩

/-- The contact request that is answered was stored, for the account of the session. -/
theorem mem_of_answered {d : Record} (hd : answered env w s head = some d) :
    answeredRecord w s head = some d ∧
      removal env w s head = some { id := some (head.get "contactRequestId").toInt } := by
  cases ht : env.decode (head.get "requestType").toInt with
  | none => simp [answered, ht] at hd
  | some t =>
    cases t with
    | acceptContact =>
      simp only [answered, ht, Option.map_eq_some_iff] at hd
      obtain ⟨i, hi, rfl⟩ := hd
      refine ⟨(answeredRecord_of_acceptInput hi).2, ?_⟩
      simp [removal, answered, ht, hi]
    | rejectContact =>
      simp only [answered, ht] at hd
      refine ⟨(answeredRecord_of_rejectInput hd).2, ?_⟩
      simp [removal, answered, ht, hd]
    | _ => simp [answered, ht] at hd

/-- The law in terms of the record that the handler removes. -/
theorem authorisedRemoval_iff_removed (h : StoreInv w.server) :
    AuthorisedRemoval env w s head
      (Proc.run (step env) (processIncomingRequest env s head) w).2.server.requests ↔
    (∀ f, removed env w s head = some f → MayRemove env head (w.server.sessions s).accountId f) ∧
      ∀ d, answered env w s head = some d → removed env w s head = some d := by
  rw [requests_processIncomingRequest h]
  -- what is stored now and was stored before has not been removed
  have hkept : ∀ r ∈ w.server.requests,
      (r ∈ without w.server.requests (removed env w s head) ++
        storedFrom (w.skip (insertSlot env head)).tape w.server.nextOid (wanted env w s head)) ↔
      removed env w s head ≠ some r := by
    intro r hr
    have hfresh := h.fresh r hr
    rw [List.mem_append, mem_without]
    constructor
    · rintro (⟨_, hne⟩ | hnew) heq
      · exact hne r heq rfl
      · have := (oid_of_mem_storedFrom hnew).1
        omega
    · intro hne
      refine Or.inl ⟨hr, fun f hf hoid => hne ?_⟩
      obtain ⟨_, _, _, hmem, _⟩ := mem_of_removed hf
      rw [hf, h.eq_of_oid hr hmem hoid]
  constructor
  · rintro ⟨keep, new, hafter, hnew, hmay, hanswer⟩
    have hkeep : ∀ r ∈ w.server.requests, removed env w s head = some r ↔ keep r = false := by
      intro r hr
      have hfresh := h.fresh r hr
      have hiff := hkept r hr
      rw [hafter, List.mem_append, List.mem_filter] at hiff
      constructor
      · intro heq
        by_contra hk
        exact hiff.mp (Or.inl ⟨hr, by simpa using hk⟩) heq
      · intro hk
        by_contra hne
        rcases hiff.mpr hne with ⟨_, hk'⟩ | hmem
        · rw [hk] at hk'
          cases hk'
        · have := hnew r hmem
          omega
    refine ⟨fun f hf => ?_, fun d hd => ?_⟩
    · obtain ⟨_, _, _, hmem, _⟩ := mem_of_removed hf
      exact hmay f hmem ((hkeep f hmem).mp hf)
    · have hmem := (mem_of_answeredRecord (mem_of_answered hd).1).1
      exact (hkeep d hmem).mpr ((hanswer d hd d hmem).mpr rfl)
  · rintro ⟨hmay, hanswer⟩
    let keep : Record → Bool := fun r => (removed env w s head).all (·.oid != r.oid)
    have hkeep : ∀ r ∈ w.server.requests, keep r = false ↔ removed env w s head = some r := by
      intro r hr
      cases hf : removed env w s head with
      | none => simp [keep, hf]
      | some f =>
        obtain ⟨_, _, _, hmem, _⟩ := mem_of_removed hf
        have hoid : f.oid = r.oid ↔ f = r :=
          ⟨fun ho => h.eq_of_oid hmem hr ho, fun he => by rw [he]⟩
        simp [keep, hf, hoid]
    let new := storedFrom (w.skip (insertSlot env head)).tape w.server.nextOid (wanted env w s head)
    have hnew : ∀ r ∈ new, w.server.nextOid ≤ r.oid := fun r hr => (oid_of_mem_storedFrom hr).1
    refine ⟨keep, new, ?_, hnew, fun r hr hk => ?_, ?_⟩
    · congr 1
      cases hf : removed env w s head with
      | none => simp [keep, hf, without]
      | some f =>
        simp only [without, keep, hf, Option.all_some]
        refine List.filter_congr fun r _ => ?_
        by_cases ho : f.oid = r.oid
        · simp [ho]
        · simp [ho, Ne.symm ho]
    · exact hmay r ((hkeep r hr).mp hk)
    · intro d hd r hr
      rw [hkeep r hr, hanswer d hd, Option.some.injEq, eq_comm]

/-- An answer removes the contact request that it has read exactly if that is the first with
its id, and the removal does not throw. -/
theorem removed_answered_iff {d : Record} (hd : answered env w s head = some d) :
    removed env w s head = some d ↔
      (removalChoice env w s head).fails = false ∧
        ∃ f, w.server.first { id := some (head.get "contactRequestId").toInt } = some f ∧
          f.dst = some (w.server.sessions s).accountId := by
  obtain ⟨hread, hremoval⟩ := mem_of_answered hd
  constructor
  · intro hrem
    obtain ⟨q, hq, hfirst, _, hfails⟩ := mem_of_removed hrem
    obtain rfl := Option.some.inj (hremoval.symm.trans hq)
    exact ⟨hfails, d, hfirst, (mem_of_answeredRecord hread).2.2.1⟩
  · rintro ⟨hfails, f, hfirst, hdst⟩
    have hid : f.id = (head.get "contactRequestId").toInt :=
      (RequestQuery.matches_iff.mp (List.find?_some hfirst)).1 _ rfl
    have hboth : w.server.first
        { id := some (head.get "contactRequestId").toInt,
          dst := some (w.server.sessions s).accountId } = some f := by
      refine Collection.find?_of_imp hfirst ?_ fun r hr => ?_
      · simp [RequestQuery.matches_iff, hid, hdst]
      · simp only [RequestQuery.matches_iff] at hr ⊢
        simp [hr.1]
    have hfd : some f = some d := hboth.symm.trans (World.first_of_request hread)
    rw [removed, if_neg (by rw [hfails]; decide), hremoval, Option.bind_some, hfirst, hfd]

/-- What a handler removes is authorised, the add code of an `AddContact` and the record of an
answer apart. -/
theorem mayRemove_of_removed {f : Record} (hf : removed env w s head = some f)
    (hcode : env.decode (head.get "requestType").toInt ≠ some .addContact)
    (hanswer : answered env w s head = none) :
    MayRemove env head (w.server.sessions s).accountId f := by
  obtain ⟨q, hq, hfirst, _, _⟩ := mem_of_removed hf
  cases ht : env.decode (head.get "requestType").toInt with
  | none => simp [removal, ht] at hq
  | some t =>
    cases t with
    | dispatch =>
      simp only [removal, ht, Option.ite_none_right_eq_some, Option.some.injEq] at hq
      obtain ⟨_, rfl⟩ := hq
      have hmatch := (RequestQuery.matches_iff.mp (List.find?_some hfirst)).2.2.2.2.2 _ rfl
      rcases hmatch with hsrc | hdst
      · exact Or.inl hsrc
      · exact Or.inr (Or.inl hdst)
    | addContact => exact absurd ht hcode
    | acceptContact | rejectContact => simp [removal, ht, hanswer] at hq
    | _ => simp [removal, ht] at hq

/-- What an `AddContact` removes is authorised exactly if its query finds such a record. -/
theorem mayRemove_addContact_iff (ht : env.decode (head.get "requestType").toInt = some .addContact)
    (h : StoreInv w.server) :
    (∀ f, removed env w s head = some f →
      MayRemove env head (w.server.sessions s).accountId f) ↔
    ((addContactInput env w s head).isSome → namedAddCode head ≠ "" →
      (removalChoice env w s head).fails = true ∨
        ∃ f, w.server.first { addCode := some (namedAddCode head) } = some f ∧
          (f.dst = none ∨ f.src = (w.server.sessions s).accountId ∨
            f.dst = some (w.server.sessions s).accountId)) := by
  by_cases hremoves : (addContactInput env w s head).isSome ∧ namedAddCode head ≠ ""
  swap
  · have hnone : removed env w s head = none := by simp [removed, removal, ht, hremoves]
    simp only [hnone, reduceCtorEq, false_imp_iff, implies_true, true_iff]
    exact fun hi hcode => absurd ⟨hi, hcode⟩ hremoves
  obtain ⟨i, hi⟩ := Option.isSome_iff_exists.mp hremoves.1
  obtain ⟨f, hfirst⟩ := addCodeRecord_of_addContactInput hi hremoves.2
  rw [← first_addCode h] at hfirst
  have hfcode : f.addCode = some (namedAddCode head) :=
    (RequestQuery.matches_iff.mp (List.find?_some hfirst)).2.2.2.2.1 _ rfl
  rw [forall_prop_of_true hremoves.1, forall_prop_of_true hremoves.2]
  by_cases hfails : (removalChoice env w s head).fails = true
  · simp [removed, hfails]
  · have hremoved : removed env w s head = some f := by
      simp [removed, hfails, removal, ht, hremoves, hfirst]
    simp only [hremoved, Option.some.injEq, forall_eq', hfails, Bool.false_eq_true, false_or,
      hfirst, exists_eq_left', MayRemove, NamesCode, ht, true_and, hremoves.2, ne_eq,
      not_false_eq_true, hfcode]
    tauto

end

/-- **Authorised removal.**  After any run, a request removes only what the account of its
session may remove, and an answer the contact request that it has read, exactly if the
query of the removal finds such a record. -/
theorem authorisedRemoval_iff (env : Env) (tr : List Act) (s : SessionId) (head : UBJ.Object)
    (tape : Nat → Choice) (hp : (Act.mk (.request s head) tape).Possible (after env tr)) :
    AuthorisedRemoval env ⟨after env tr, tape, []⟩ s head
        (after env (⟨.request s head, tape⟩ :: tr)).requests ↔
      RemovalFinds env ⟨after env tr, tape, []⟩ s head := by
  have hinv : StoreInv (World.mk (after env tr) tape []).server := storeInv_after env tr
  rw [after_cons, next_request_eq env hp, authorisedRemoval_iff_removed hinv, RemovalFinds]
  generalize World.mk (after env tr) tape [] = w at hinv
  have hanswers : (∀ d, answered env w s head = some d → removed env w s head = some d) ↔
      ∀ d, answered env w s head = some d →
        (removalChoice env w s head).fails = false ∧
          ∃ f, w.server.first { id := some (head.get "contactRequestId").toInt } = some f ∧
            f.dst = some (w.server.sessions s).accountId :=
    forall₂_congr fun d hd => removed_answered_iff hd
  rw [← hanswers, and_comm]
  refine and_congr_right fun hanswer => ?_
  by_cases ht : env.decode (head.get "requestType").toInt = some .addContact
  · rw [forall_prop_of_true ht]
    exact mayRemove_addContact_iff ht hinv
  · simp only [ht, false_imp_iff, iff_true]
    intro f hf
    cases hd : answered env w s head with
    | none => exact mayRemove_of_removed hf ht hd
    | some d =>
      obtain rfl : f = d := Option.some.inj (hf.symm.trans (hanswer d hd))
      exact Or.inr (Or.inl (mem_of_answeredRecord (mem_of_answered hd).1).2.2.1)

/-- The second of two accounts pushes to the account 3 and to the first, under one id. -/
def fanOutRun : List Act :=
  sampleStep 1 (sampleRequest .push 7
    [("keys", .array [.object [("dst", .int32 3)], .object [("dst", .int32 1)]])]) ::
  (sampleJoin 1 "b" 2 ++ sampleJoin 0 "a" 1)

/-- The first account rejects a contact request, naming that id. -/
def sampleReject : UBJ.Object := sampleRequest .rejectContact 8 [("contactRequestId", .int32 7)]

/-- In the run, whether the rejection removes what it may depends on the push. -/
theorem authorisedRemoval_fanOut :
    AuthorisedRemoval sampleEnv ⟨after sampleEnv fanOutRun, calm 0, []⟩ 0 sampleReject
        (after sampleEnv (⟨.request 0 sampleReject, calm 0⟩ :: fanOutRun)).requests ↔
      RemovalFinds sampleEnv ⟨after sampleEnv fanOutRun, calm 0, []⟩ 0 sampleReject :=
  authorisedRemoval_iff sampleEnv fanOutRun 0 sampleReject (calm 0) (by decide +kernel)

/-- The rejection by account 1 removes the push of account 2 to account 3. -/
theorem not_authorisedRemoval_fanOut :
    LoggedInAs (after sampleEnv fanOutRun) 0 1 ∧
      ¬ AuthorisedRemoval sampleEnv ⟨after sampleEnv fanOutRun, calm 0, []⟩ 0 sampleReject
        (after sampleEnv (⟨.request 0 sampleReject, calm 0⟩ :: fanOutRun)).requests := by
  refine ⟨by decide +kernel, fun h => ?_⟩
  have hinv : StoreInv (World.mk (after sampleEnv fanOutRun) (calm 0) []).server :=
    storeInv_after sampleEnv fanOutRun
  rw [after_cons, next_request_eq sampleEnv (by decide +kernel),
    authorisedRemoval_iff_removed hinv] at h
  have hanswered : (answered sampleEnv ⟨after sampleEnv fanOutRun, calm 0, []⟩ 0
      sampleReject).map Record.oid = some 1 := by decide +kernel
  have hremoved : (removed sampleEnv ⟨after sampleEnv fanOutRun, calm 0, []⟩ 0
      sampleReject).map Record.oid = some 0 := by decide +kernel
  obtain ⟨d, hd, hoid⟩ := Option.map_eq_some_iff.mp hanswered
  rw [h.2 d hd, Option.map_some, hoid] at hremoved
  cases hremoved

end ZwayServer
