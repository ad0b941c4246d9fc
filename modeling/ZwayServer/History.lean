import ZwayServer.Footprint
import ZwayServer.Proc.Ledger
import ZwayServer.Removal
import ZwayServer.Storing

/-!
# The history of the store

The collection of requests is a ledger: a step of the server files what it stores, under the
next `_id`, and strikes the one record that it removes.  So the collection after a run is known
from what the steps of the run have filed and struck.

* `deeds` — what a step files and strikes.
* `history` — what the steps of a run have, in order.
* `book_next`, `book_after` — the collection is the ledger of that history.
* `requests_history` — what is stored after a run is what was ever stored, in order, without what
  was removed; and nothing is removed twice.
-/

namespace ZwayServer

open ClientSession

/-! ## Deeds -/

/-- The collection of requests as a ledger. -/
def ServerState.book (σ : ServerState) : Ledger.Book Request :=
  { entries := σ.requests.map fun r => (r.oid, r.toRequest), issued := σ.nextOid }

/-- The removal of a record. -/
def strikes (r : Option Record) : List (Ledger.Deed Request) :=
  r.toList.map fun r => .strike r.oid

/-- The records that are stored. -/
def files (rs : List Record) : List (Ledger.Deed Request) :=
  (rs.map Record.toRequest).map .file

/-- What a step does to the collection. -/
def deeds (env : Env) (σ : ServerState) (a : Act) : List (Ledger.Deed Request) :=
  if ¬ a.Possible σ then [] else
  match a.event with
  | .request s head =>
    strikes (removed env ⟨σ, a.tape, []⟩ s head) ++
      files (storedFrom (fun n => a.tape (n + insertSlot env head)) σ.nextOid
        (wanted env ⟨σ, a.tape, []⟩ s head))
  | .response s k head =>
    match (σ.sessions s).posted[k]? with
    | some p =>
      if Acknowledges p head ∧ (a.tape 0).fails = false then
        strikes (σ.first (ackQuery p (σ.sessions s).accountId))
      else []
    | none => []
  | .received s id =>
    match (σ.sessions s).receivers.find? (·.streamId == id) with
    | some receiver =>
      files (storedFrom a.tape σ.nextOid [uploadRequest receiver.streamId (σ.sessions s).accountId])
    | none => []
  | _ => []

/-- What the steps of a run have done to the collection, the earliest first. -/
def history (env : Env) : List Act → List (Ledger.Deed Request)
  | [] => []
  | a :: tr => history env tr ++ deeds env (after env tr) a

/-! ## The counter of `_id`s -/

/-- How many inserts have not thrown. -/
def succeeded (inserts : List (Request × Bool)) : Nat := inserts.countP fun x => !x.2

/-- How many `_id`s an operation uses up. -/
def Op.issues (c : Choice) : Op → Nat
  | .insertRequest _ => if c.fails then 0 else 1
  | _ => 0

theorem nextOid_exec (env : Env) (o : Op) (c : Choice) (σ : ServerState) :
    (exec env o c σ).2.nextOid = σ.nextOid + o.issues c := by
  by_cases hreads : o.Reads
  · rw [exec_of_reads env hreads]
    cases o <;> first | rfl | exact hreads.elim
  cases o with
  | insertRequest r =>
    cases hf : c.fails <;> simp [exec, dbCall, hf, Op.issues, ServerState.insertRequest]
  | insertAccount | setFcmToken | removeRequest =>
    exact dbCall_cases (P := fun τ => τ.nextOid = σ.nextOid + 0) rfl fun _ => rfl
  | addReceiver | addEngineSender | fopenAppend =>
    rw [exec]
    split <;> rfl
  | removeSession s =>
    rw [exec, ServerState.removeSession_eq]
    rfl
  | _ => first | rfl | exact absurd trivial hreads

theorem succeeded_step (env : Env) (o : Op) (w : World) :
    succeeded (step env o w).2.inserts = succeeded w.inserts + o.issues (w.tape 0) := by
  cases o with
  | insertRequest r =>
    cases hf : (w.tape 0).fails <;> simp [step, succeeded, hf, Op.issues, List.countP_append]
  | _ => rfl

/-- The counter counts the inserts that have not thrown. -/
theorem nextOid_run {α : Type} (env : Env) (p : Prog α) (w : World) :
    (Proc.run (step env) p w).2.server.nextOid + succeeded w.inserts =
      w.server.nextOid + succeeded (Proc.run (step env) p w).2.inserts := by
  induction p generalizing w with
  | ret a => rfl
  | op o k ih =>
    have hrest := ih (step env o w).1 (step env o w).2
    have hnext : (step env o w).2.server.nextOid = w.server.nextOid + o.issues (w.tape 0) :=
      nextOid_exec env o (w.tape 0) w.server
    have hcount := succeeded_step env o w
    rw [Proc.run_op]
    omega

theorem succeeded_attempts (tape : Nat → Choice) (oid : Nat) (rs : List Request) :
    succeeded (attempts tape rs) = (storedFrom tape oid rs).length := by
  induction rs generalizing tape oid with
  | nil => rfl
  | cons r rs ih =>
    rw [attempts, storedFrom]
    by_cases hf : (tape 0).fails = true
    · rw [if_pos hf, ← ih]
      simp [succeeded, hf]
    · rw [if_neg hf, List.length_cons, ← ih (fun n => tape (n + 1)) (oid + 1)]
      simp [succeeded, hf]

/-- The operations that store no request. -/
@[simp] def Op.IsUnstoring : Op → Prop
  | .insertRequest _ => False
  | _ => True

theorem inserts_of_unstoring {α : Type} {env : Env} {p : Prog α}
    (hp : Proc.Within Op.IsUnstoring p) (w : World) :
    (Proc.run (step env) p w).2.inserts = w.inserts := by
  refine hp.run (P := fun w' : World => w'.inserts = w.inserts) (fun o w' ho hw' => ?_) rfl
  cases o <;> first | exact hw' | exact ho.elim

section

variable {env : Env} {w : World} {s : SessionId} {head : UBJ.Object}

/-- The handlers of the other requests store nothing. -/
theorem unstoring_of_not_storing
    (h : ∀ t, env.decode (head.get "requestType").toInt = some t → ¬ t.Storing) :
    Proc.Within Op.IsUnstoring (processIncomingRequest env s head) := by
  have hof : ∀ {t : RequestType}, env.decode (head.get "requestType").toInt = some t →
      (∀ o, t.Footprint s o → o.IsUnstoring) →
      Proc.Within Op.IsUnstoring (processIncomingRequest env s head) := by
    intro t ht hfoot
    refine (within_processIncomingRequest env s head).sub fun o ho => ?_
    obtain ⟨t', ht', ho⟩ := ho
    obtain rfl : t = t' := Option.some.inj (ht.symm.trans ht')
    exact hfoot o ho
  cases ht : env.decode (head.get "requestType").toInt with
  | none =>
    rw [processIncomingRequest, ht]
    exact trivial
  | some t =>
    cases t with
    | dispatch =>
      rw [processIncomingRequest, ht]
      simp [processDispatchRequest]
    | findContact =>
      rw [processIncomingRequest, ht]
      simp [processFindContactRequest]
    | contactStatus =>
      have hlist : Proc.Within Op.IsUnstoring (contactStatusList s) :=
        within_contactStatusList (by simp) (by simp) (by simp) s
      rw [processIncomingRequest, ht]
      simp [processContactStatusRequest, hlist.safe]
    | createAccount | config | logout =>
      refine hof ht fun o ho => ?_
      cases o <;> first | exact trivial | exact ho.elim
    | login =>
      refine hof ht fun o ho => ?_
      cases o <;> first | exact trivial | exact ho.elim id id
    | _ => exact absurd (by simp [RequestType.Storing]) (h _ ht)

/-- The counter after a request. -/
theorem nextOid_processIncomingRequest (hnone : w.inserts = []) :
    (Proc.run (step env) (processIncomingRequest env s head) w).2.server.nextOid =
      w.server.nextOid + (storedFrom (w.skip (insertSlot env head)).tape w.server.nextOid
        (wanted env w s head)).length := by
  have hcount := nextOid_run env (processIncomingRequest env s head) w
  by_cases hstoring : ∃ t, env.decode (head.get "requestType").toInt = some t ∧ t.Storing
  · obtain ⟨t, ht, hstoring⟩ := hstoring
    cases handled (s := s) (w := w) ht hstoring with
    | refused hwanted hinserts _ =>
      rw [hinserts] at hcount
      rw [hwanted, storedFrom, List.length_nil]
      omega
    | done hinserts _ =>
      rw [hinserts, hnone, List.nil_append, succeeded_attempts _ w.server.nextOid] at hcount
      simpa [succeeded] using hcount
  · have hnot : ∀ t, env.decode (head.get "requestType").toInt = some t → ¬ t.Storing :=
      fun t ht hs => hstoring ⟨t, ht, hs⟩
    have hwanted : wanted env w s head = [] := by
      cases ht : env.decode (head.get "requestType").toInt with
      | none => simp [wanted, ht]
      | some t =>
        cases t with
        | addContact | createAddCode | acceptContact | rejectContact | push =>
          exact absurd (by simp [RequestType.Storing]) (hnot _ ht)
        | _ => simp [wanted, ht]
    rw [inserts_of_unstoring (unstoring_of_not_storing hnot)] at hcount
    rw [hwanted, storedFrom, List.length_nil]
    omega

end

/-! ## The ledger of a step -/

section

variable {env : Env} {σ : ServerState}

/-- A well-kept store is a well-kept ledger, and the other way round. -/
theorem mem_book {r : Record} : (r.oid, r.toRequest) ∈ σ.book.entries ↔ r ∈ σ.requests := by
  constructor
  · intro h
    obtain ⟨r', hr', he⟩ := List.mem_map.mp h
    obtain ⟨hoid, hreq⟩ := Prod.mk.inj he
    have : r' = r := by
      cases r
      cases r'
      simp_all
    rwa [← this]
  · exact fun h => List.mem_map.mpr ⟨r, h, rfl⟩

/-- The records that are stored get their numbers in order. -/
theorem numbered_storedFrom (tape : Nat → Choice) (oid : Nat) (rs : List Request) :
    (storedFrom tape oid rs).map (fun r => (r.oid, r.toRequest)) =
      Ledger.numbered oid ((storedFrom tape oid rs).map Record.toRequest) := by
  induction rs generalizing tape oid with
  | nil => rfl
  | cons r rs ih =>
    rw [storedFrom]
    split
    · exact ih _ _
    · rw [List.map_cons, List.map_cons, Ledger.numbered, ih]

/-- Removing a record strikes its number, and what is stored is filed. -/
theorem book_of_requests {σ' : ServerState} {gone : Option Record} {new : List Record}
    (hrequests : σ'.requests = without σ.requests gone ++ new)
    (hissued : σ'.nextOid = σ.nextOid + new.length)
    (hnew : new.map (fun r => (r.oid, r.toRequest)) =
      Ledger.numbered σ.nextOid (new.map Record.toRequest)) :
    σ'.book = σ.book.after (strikes gone ++ files new) := by
  have hstruck : σ.book.after (strikes gone) =
      { entries := (without σ.requests gone).map fun r => (r.oid, r.toRequest),
        issued := σ.nextOid } := by
    cases gone with
    | none => rfl
    | some f =>
      show { entries := (σ.requests.map _).filter _, issued := σ.nextOid } = Ledger.Book.mk _ _
      rw [List.filter_map]
      rfl
  rw [Ledger.Book.after_append, hstruck, files, Ledger.after_map_file, ← hnew, List.length_map,
    ServerState.book, hrequests, hissued, List.map_append]

/-- Only what is stored is removed. -/
theorem lawful_strikes_files {gone : Option Record} {new : List Record}
    (h : ∀ r, gone = some r → r ∈ σ.requests) :
    Ledger.Lawful σ.book (strikes gone ++ files new) := by
  refine Ledger.lawful_append.mpr ⟨?_, Ledger.lawful_map_file _⟩
  cases gone with
  | none => exact trivial
  | some f =>
    refine ⟨?_, trivial⟩
    rw [ServerState.book, List.map_map]
    exact List.mem_map.mpr ⟨f, h f rfl, rfl⟩

/-- A step that leaves the store alone. -/
theorem book_of_same {σ' : ServerState} (hrequests : σ'.requests = σ.requests)
    (hissued : σ'.nextOid = σ.nextOid) : σ'.book = σ.book := by
  rw [ServerState.book, hrequests, hissued]
  rfl

/-- Removing the first match of a query. -/
theorem removeRequest_eq_without (h : StoreInv σ) (q : RequestQuery) :
    (σ.removeRequest q).requests = without σ.requests (σ.first q) := by
  show σ.requests.eraseP q.matches = _
  cases hfirst : σ.first q with
  | none =>
    refine Collection.eraseP_eq_self_iff.mpr fun r hr => ?_
    simpa using List.find?_eq_none.mp hfirst r hr
  | some f => exact Collection.eraseP_eq_filter_key h.distinct hfirst

/-- **One step.**  What it does to the collection is what it does to the ledger, and it strikes
nothing but what stands. -/
theorem book_next (env : Env) (h : StoreInv σ) (a : Act) :
    (next env σ a).book = σ.book.after (deeds env σ a) ∧ Ledger.Lawful σ.book (deeds env σ a) := by
  by_cases hp : a.Possible σ
  swap
  · rw [next_of_not_possible hp, deeds, if_pos hp]
    exact ⟨rfl, trivial⟩
  have hsame : ∀ {σ' : ServerState}, σ'.requests = σ.requests → σ'.nextOid = σ.nextOid →
      σ'.book = σ.book.after [] ∧ Ledger.Lawful σ.book [] :=
    fun hr hn => ⟨book_of_same hr hn, trivial⟩
  rw [deeds, if_neg (not_not.mpr hp)]
  by_cases hlife : a.event.IsLife
  · have hstore := sameStore_next env hp hlife
    obtain ⟨event, tape⟩ := a
    cases event with
    | connect | handshake | disconnect | removeSessions =>
        exact hsame hstore.requests hstore.nextOid
    | _ => exact hlife.elim
  obtain ⟨event, tape⟩ := a
  cases event with
  | connect | handshake | disconnect | removeSessions => exact absurd trivial hlife
  | request s head =>
    -- what the handler removes and stores is known, whatever it answers
    refine ⟨book_of_requests (requests_next_request env h hp) ?_ (numbered_storedFrom ..),
      lawful_strikes_files fun r hr => ?_⟩
    · rw [next_request_eq env hp]
      exact nextOid_processIncomingRequest (w := ⟨σ, tape, []⟩) rfl
    · obtain ⟨-, -, -, hmem, -⟩ := mem_of_removed hr
      exact hmem
  | response s k head =>
    obtain ⟨p, hposted, hresp⟩ := next_response env hp
    simp only [hposted]
    by_cases hack : Acknowledges p head
    · rw [if_pos hack] at hresp
      cases hf : (tape 0).fails with
      -- the removal throws, and the record stays
      | true =>
        simp only [World.removeRequest, hf, if_true] at hresp
        simp only [hack, Bool.true_eq_false, and_false, if_false]
        exact hsame hresp.requests hresp.nextOid
      | false =>
        simp only [World.removeRequest, hf] at hresp
        simp only [hack, and_self, if_true]
        have hgone : (next env σ ⟨.response s k head, tape⟩).requests =
            without σ.requests (σ.first (ackQuery p (σ.sessions s).accountId)) ++ [] := by
          rw [hresp.requests, List.append_nil]
          exact removeRequest_eq_without h _
        rw [← List.append_nil (strikes _)]
        exact ⟨book_of_requests hgone hresp.nextOid rfl,
          @lawful_strikes_files _ _ [] fun r hr => List.mem_of_find?_eq_some hr⟩
    -- an answer that is no acknowledgement leaves the store alone
    · rw [if_neg hack] at hresp
      simp only [hack, false_and, if_false]
      rw [hresp]
      exact hsame rfl rfl
  | received s id =>
    have hrecv := next_received env hp
    cases hfind : (σ.sessions s).receivers.find? (·.streamId == id) with
    | none =>
      rw [hfind] at hrecv
      simp only [hfind]
      rw [hrecv]
      exact hsame rfl rfl
    | some receiver =>
      -- the end of an upload stores its dispatch request, if the insert does not throw
      simp only [hfind] at hrecv ⊢
      have hstored : (next env σ ⟨.received s id, tape⟩).requests = without σ.requests none ++
          storedFrom tape σ.nextOid
            [uploadRequest receiver.streamId (σ.sessions s).accountId] := by
        rw [hrecv.requests]
        exact requests_insertRequest ⟨σ, tape, []⟩ _
      have hissued : (next env σ ⟨.received s id, tape⟩).nextOid = σ.nextOid +
          (storedFrom tape σ.nextOid
            [uploadRequest receiver.streamId (σ.sessions s).accountId]).length := by
        rw [hrecv.nextOid]
        cases hf : (tape 0).fails <;>
          simp [World.insertRequest, storedFrom, hf, ServerState.insertRequest]
      exact ⟨@book_of_requests _ _ none _ hstored hissued (numbered_storedFrom ..),
        @lawful_strikes_files _ none _ fun r hr => by cases hr⟩
  -- the other events store and remove nothing
  | createReceiver s pkt =>
    exact hsame (next_createReceiver env hp).requests (next_createReceiver env hp).nextOid
  | receive s id body => exact hsame (next_receive env hp).requests (next_receive env hp).nextOid
  | userRequests k =>
    exact hsame (next_userRequests env hp).requests (next_userRequests env hp).nextOid
  | send k size offset => exact hsame (next_send env hp).requests (next_send env hp).nextOid
  | timer completed => exact hsame (next_timer env hp).requests (next_timer env hp).nextOid

end

/-! ## The ledger of a run -/

/-- **The collection is the ledger of its history.** -/
theorem book_after (env : Env) (tr : List Act) :
    (after env tr).book = ({} : Ledger.Book Request).after (history env tr) ∧
      Ledger.Lawful {} (history env tr) := by
  induction tr with
  | nil => exact ⟨rfl, trivial⟩
  | cons a tr ih =>
    obtain ⟨hbook, hlawful⟩ := book_next env (storeInv_after env tr) a
    rw [after_cons, history, Ledger.Book.after_append, ← ih.1]
    exact ⟨hbook, Ledger.lawful_append.mpr ⟨ih.2, by rwa [← ih.1]⟩⟩

/-- **The store after a run.**  The records are the requests that the steps of the run have
stored, in the order in which they were stored and under the numbers in that order, without those
that a step has removed; nothing is removed twice. -/
theorem requests_history (env : Env) (tr : List Act) :
    (after env tr).requests.map (fun r => (r.oid, r.toRequest)) =
        (Ledger.numbered 0 (Ledger.filed (history env tr))).filter
          (fun x => decide (x.1 ∉ Ledger.struck (history env tr))) ∧
      (after env tr).nextOid = (Ledger.filed (history env tr)).length ∧
      (Ledger.struck (history env tr)).Nodup := by
  obtain ⟨hbook, hlawful⟩ := book_after env tr
  refine ⟨?_, ?_, hlawful.nodup_struck .init⟩
  · have hentries := congrArg Ledger.Book.entries hbook
    rw [Ledger.entries_after .init hlawful] at hentries
    exact hentries
  · have hissued := congrArg Ledger.Book.issued hbook
    rw [Ledger.issued_after] at hissued
    exact hissued.trans (Nat.zero_add _)

/-! ## How a record goes -/

/-- What makes a step remove the record: a session that has the account of its recipient answers a
posted request with its id, or one of the four requests that remove names it. -/
inductive Removes (env : Env) (σ : ServerState) (a : Act) (r : Record) : Prop
  /-- A posted request with its id is answered on a session with the account of its recipient,
  which need not be logged in any more. -/
  | acknowledged {s : SessionId} {k : Nat} {head : UBJ.Object} {p : Posted}
      (he : a.event = .response s k head) (hp : (σ.sessions s).posted[k]? = some p)
      (hack : Acknowledges p head) (hid : r.id = p.id)
        (hdst : r.dst = some (σ.sessions s).accountId)
  /-- Its sender or its recipient dispatches it. -/
  | dispatched {s : SessionId} {head : UBJ.Object} (he : a.event = .request s head)
      (ht : env.decode (head.get "requestType").toInt = some .dispatch)
      (hst : (σ.sessions s).status = .loggedIn) (hid : r.id = (head.get "dispatchId").toInt)
      (hmine : r.src = (σ.sessions s).accountId ∨ r.dst = some (σ.sessions s).accountId)
  /-- Some record with its id, addressed to the account of the session, is accepted or rejected. -/
  | answered {s : SessionId} {head : UBJ.Object} {d : Record} (he : a.event = .request s head)
      (ht : env.decode (head.get "requestType").toInt = some .acceptContact ∨
        env.decode (head.get "requestType").toInt = some .rejectContact)
      (hst : (σ.sessions s).status = .loggedIn) (hid : r.id = (head.get "contactRequestId").toInt)
      (hd : d ∈ σ.requests) (hdid : d.id = r.id) (hdst : d.dst = some (σ.sessions s).accountId)
  /-- Its add code is used. -/
  | used {s : SessionId} {head : UBJ.Object} (he : a.event = .request s head)
      (ht : env.decode (head.get "requestType").toInt = some .addContact)
      (hst : (σ.sessions s).status = .loggedIn) (hne : namedAddCode head ≠ "")
      (hcode : r.addCode = some (namedAddCode head))

section

variable {env : Env} {σ : ServerState} {a : Act} {r : Record}

theorem struck_strikes_files {gone : Option Record} {new : List Record} {n : ℕ} :
    n ∈ Ledger.struck (strikes gone ++ files new) ↔ ∃ f, gone = some f ∧ f.oid = n := by
  rw [Ledger.struck_append, files, Ledger.struck_map_file, List.append_nil]
  cases gone <;> simp [strikes, Ledger.struck, eq_comm]

/-- What a request removes is named by it. -/
theorem removes_of_removed {s : SessionId} {head : UBJ.Object} (he : a.event = .request s head)
    (hr : removed env ⟨σ, a.tape, []⟩ s head = some r) : Removes env σ a r := by
  obtain ⟨q, hq, hfirst, hmem, -⟩ := mem_of_removed hr
  have hmatch := RequestQuery.matches_iff.mp (List.find?_some hfirst)
  -- an acceptance and a rejection read some record with the id first, and remove by the id alone
  have hanswered : ∀ t, (t = .acceptContact ∨ t = .rejectContact) →
      env.decode (head.get "requestType").toInt = some t → Removes env σ a r := by
    intro t ht htype
    have hquery : ∃ d, answered env ⟨σ, a.tape, []⟩ s head = some d ∧
        q = { id := some (head.get "contactRequestId").toInt } := by
      rcases ht with rfl | rfl <;>
        · simp only [removal, htype, Option.map_eq_some_iff] at hq
          obtain ⟨d, hd, rfl⟩ := hq
          exact ⟨d, hd, rfl⟩
    obtain ⟨d, hd, rfl⟩ := hquery
    have hread := (mem_of_answered hd).1
    have hst : (σ.sessions s).status = .loggedIn := by
      rcases ht with rfl | rfl
      · simp only [answered, htype, Option.map_eq_some_iff] at hd
        obtain ⟨i, hi, -⟩ := hd
        exact (answeredRecord_of_acceptInput hi).1
      · simp only [answered, htype] at hd
        exact (answeredRecord_of_rejectInput hd).1
    obtain ⟨hdmem, hdid, hdst, -⟩ := mem_of_answeredRecord hread
    have hid : r.id = (head.get "contactRequestId").toInt := hmatch.1 _ rfl
    refine .answered he ?_ hst hid hdmem (hdid.trans hid.symm) hdst
    rcases ht with rfl | rfl
    · exact Or.inl htype
    · exact Or.inr htype
  cases ht : env.decode (head.get "requestType").toInt with
  | none => simp [removal, ht] at hq
  | some t =>
    cases t with
    | acceptContact => exact hanswered _ (Or.inl rfl) ht
    | rejectContact => exact hanswered _ (Or.inr rfl) ht
    | dispatch =>
      -- removed by the id and the account of the session, as the sender or the recipient
      simp only [removal, ht] at hq
      split at hq
      · next hst =>
        cases hq
        obtain ⟨hid, -, -, -, -, hmine⟩ := hmatch
        exact .dispatched he ht hst.1 (hid _ rfl) (hmine _ rfl)
      · cases hq
    | addContact =>
      -- removed by the add code alone
      simp only [removal, ht] at hq
      split at hq
      · next hcode =>
        cases hq
        have hst : (σ.sessions s).status = .loggedIn := by
          obtain ⟨i, hi⟩ := Option.isSome_iff_exists.mp hcode.1
          rw [addContactInput] at hi
          split at hi
          · next hst => exact hst
          · cases hi
        obtain ⟨-, -, -, -, hrcode, -⟩ := hmatch
        exact .used he ht hst hcode.2 (hrcode _ rfl)
      · cases hq
    | _ => simp [removal, ht] at hq

/-- **What a step strikes.**  It is a record that stands, and the step is one of those that may
remove it. -/
theorem removes_of_struck (h : StoreInv σ) (hr : r ∈ σ.requests)
    (hs : r.oid ∈ Ledger.struck (deeds env σ a)) : a.Possible σ ∧ Removes env σ a r := by
  rw [deeds] at hs
  split at hs
  · cases hs
  next hp =>
  refine ⟨not_not.mp hp, ?_⟩
  -- the number tells which record was struck
  have heq : ∀ {f : Record}, f ∈ σ.requests → f.oid = r.oid → f = r :=
    fun hf ho => h.eq_of_oid hf hr ho
  obtain ⟨event, tape⟩ := a
  cases event with
  | request s head =>
    obtain ⟨f, hf, ho⟩ := struck_strikes_files.mp hs
    obtain ⟨-, -, -, hmem, -⟩ := mem_of_removed hf
    obtain rfl := heq hmem ho
    exact removes_of_removed rfl hf
  | response s k head =>
    dsimp only at hs
    split at hs
    · next p hposted =>
      split at hs
      · next hack =>
        rw [← List.append_nil (strikes _)] at hs
        obtain ⟨f, hf, ho⟩ := (@struck_strikes_files _ [] _).mp hs
        obtain rfl := heq (List.mem_of_find?_eq_some hf) ho
        obtain ⟨hid, hdst⟩ := ackQuery_matches.mp (List.find?_some hf)
        exact .acknowledged rfl hposted hack.1 hid hdst
      · cases hs
    · cases hs
  | received s id =>
    -- the end of an upload only stores
    dsimp only at hs
    split at hs
    · obtain ⟨f, hf, -⟩ := (@struck_strikes_files none _ _).mp hs
      cases hf
    · cases hs
  | _ => cases hs

end

/-- What the later steps of a run have done to the collection. -/
def historySince (env : Env) (earlier : List Act) : List Act → List (Ledger.Deed Request)
  | [] => []
  | a :: later => historySince env earlier later ++ deeds env (after env (later ++ earlier)) a

section

variable (env : Env) (earlier : List Act)

theorem history_append (later : List Act) :
    history env (later ++ earlier) = history env earlier ++ historySince env earlier later := by
  induction later with
  | nil => exact (List.append_nil _).symm
  | cons a later ih =>
    rw [List.cons_append, history, ih, historySince, List.append_assoc]

theorem kept_after : Ledger.Kept (after env earlier).book := by
  rw [(book_after env earlier).1]
  exact Ledger.Kept.init.after _

/-- The later steps start from the ledger that the earlier ones have left. -/
theorem book_since (later : List Act) :
    (after env (later ++ earlier)).book =
        (after env earlier).book.after (historySince env earlier later) ∧
      Ledger.Lawful (after env earlier).book (historySince env earlier later) := by
  obtain ⟨hbook, hlawful⟩ := book_after env (later ++ earlier)
  rw [history_append, Ledger.Book.after_append, ← (book_after env earlier).1] at hbook
  rw [history_append, Ledger.lawful_append, ← (book_after env earlier).1] at hlawful
  exact ⟨hbook, hlawful.2⟩

/-- What the later steps have struck, one of them has. -/
theorem step_of_struck {later : List Act} {n : ℕ}
    (h : n ∈ Ledger.struck (historySince env earlier later)) :
    ∃ newer a older, later = newer ++ a :: older ∧
      n ∈ Ledger.struck (deeds env (after env (older ++ earlier)) a) := by
  induction later with
  | nil => cases h
  | cons a later ih =>
    rw [historySince, Ledger.struck_append] at h
    rcases List.mem_append.mp h with hbefore | hnow
    · obtain ⟨newer, b, older, rfl, hb⟩ := ih hbefore
      exact ⟨a :: newer, b, older, rfl, hb⟩
    · exact ⟨[], a, later, rfl, hnow⟩

/-- The deeds of one of the later steps come after those of the steps before it. -/
theorem historySince_split (newer : List Act) (a : Act) (older : List Act) :
    ∃ rest, historySince env earlier (newer ++ a :: older) =
      historySince env earlier older ++ (deeds env (after env (older ++ earlier)) a ++ rest) := by
  induction newer with
  | nil => exact ⟨[], by rw [List.nil_append, historySince, List.append_nil]⟩
  | cons b newer ih =>
    obtain ⟨rest, hrest⟩ := ih
    refine ⟨rest ++ deeds env (after env (newer ++ a :: older ++ earlier)) b, ?_⟩
    rw [List.cons_append, historySince, hrest]
    simp only [List.append_assoc]

/-- **How a record goes.**  A record that is stored stays stored, unchanged, until one step of
the run removes it: an acknowledgement of its id on a session with the account of its recipient,
or a request that names it.  From then on nothing is stored under its number. -/
theorem stands_or_removed {r : Record} (hr : r ∈ (after env earlier).requests)
    (later : List Act) : r ∈ (after env (later ++ earlier)).requests ∨
      (∀ r' ∈ (after env (later ++ earlier)).requests, r'.oid ≠ r.oid) ∧
      ∃ newer a older, later = newer ++ a :: older ∧
        r ∈ (after env (older ++ earlier)).requests ∧ a.Possible (after env (older ++ earlier)) ∧
        Removes env (after env (older ++ earlier)) a r := by
  have hkept := kept_after env earlier
  obtain ⟨hbook, hlawful⟩ := book_since env earlier later
  by_cases hstruck : r.oid ∈ Ledger.struck (historySince env earlier later)
  -- a number that is not struck stands for the same record
  swap
  · refine Or.inl (mem_book.mp ?_)
    rw [hbook]
    exact (Ledger.mem_after hkept hlawful).mpr ⟨Or.inl (mem_book.mpr hr), hstruck⟩
  refine Or.inr ⟨fun r' hr' ho => ?_, ?_⟩
  -- and one that is struck is given to no other
  · have hstands := mem_book.mpr hr'
    rw [hbook] at hstands
    refine ((Ledger.mem_after hkept hlawful).mp hstands).2 ?_
    show r'.oid ∈ _
    rw [ho]
    exact hstruck
  obtain ⟨newer, a, older, rfl, ha⟩ := step_of_struck env earlier hstruck
  -- it still stood when it was struck, since nothing is struck twice
  have hbefore : r.oid ∉ Ledger.struck (historySince env earlier older) := by
    have hnodup := hlawful.nodup_struck hkept
    obtain ⟨rest, hrest⟩ := historySince_split env earlier newer a older
    rw [hrest, Ledger.struck_append, Ledger.struck_append] at hnodup
    intro hin
    exact (List.nodup_append.mp hnodup).2.2 _ hin _ (List.mem_append_left _ ha) rfl
  obtain ⟨hbook', hlawful'⟩ := book_since env earlier older
  have hstood : r ∈ (after env (older ++ earlier)).requests := by
    refine mem_book.mp ?_
    rw [hbook']
    exact (Ledger.mem_after hkept hlawful').mpr ⟨Or.inl (mem_book.mpr hr), hbefore⟩
  exact ⟨newer, a, older, rfl, hstood, removes_of_struck (storeInv_after env _) hstood ha⟩

end

/-- The account 2 has pushed to the account 1, which is online. -/
def pushedOnce : List Act := samplePush 1 7 1 :: (sampleJoin 1 "b" 2 ++ sampleJoin 0 "a" 1)

/-- The push is posted and acknowledged. -/
def pushedThen : List Act := [sampleAck 0 0, ⟨.userRequests 0, calm 0⟩]

theorem stands_or_removed_push : ∃ r ∈ (after sampleEnv pushedOnce).requests, r.type = .push ∧
    ∃ newer a older, pushedThen = newer ++ a :: older ∧
      r ∈ (after sampleEnv (older ++ pushedOnce)).requests ∧
      a.Possible (after sampleEnv (older ++ pushedOnce)) ∧
      Removes sampleEnv (after sampleEnv (older ++ pushedOnce)) a r := by
  have hany : (after sampleEnv pushedOnce).requests.any (·.type = .push) = true := by
    decide +kernel
  have hempty : (after sampleEnv (pushedThen ++ pushedOnce)).requests.isEmpty = true := by
    decide +kernel
  obtain ⟨r, hr, hpush⟩ := List.any_eq_true.mp hany
  refine ⟨r, hr, of_decide_eq_true hpush, ?_⟩
  rcases stands_or_removed sampleEnv pushedOnce hr pushedThen with hstands | ⟨-, hremoved⟩
  · rw [List.isEmpty_iff.mp hempty] at hstands
    cases hstands
  · exact hremoved

end ZwayServer
