import ZwayServer.System

/-!
# Invariants of every run

What holds of the server after any run, whatever the clients do and whatever fails.

* `StoreInv` — every stored request has an `_id` of its own, and a request that waits
  for its answer was made from one stored record.
* `SessionInv` — the registry lists live sessions under their own account id, and a
  session that is logged in is listed under an account that exists.
* `authenticated` — the account a session has proved to own, read off the run; the
  state of the session agrees with it (`authenticated_of_loggedIn`).
-/

namespace ZwayServer

open ClientSession

/-! ## Connections that come and go -/

/-- The events in the life of a connection; they touch neither the store nor what is
posted. -/
def Event.IsLife : Event → Prop
  | connect _ | handshake .. | disconnect _ | removeSessions => True
  | _ => False

/-- The database and what has been posted are the same. -/
structure SameStore (σ σ' : ServerState) : Prop where
  accounts : σ'.accounts = σ.accounts
  requests : σ'.requests = σ.requests
  nextOid : σ'.nextOid = σ.nextOid
  posted : ∀ s, (σ'.sessions s).posted = (σ.sessions s).posted
  outbox : ∀ s, (σ'.sessions s).outbox = (σ.sessions s).outbox

namespace SameStore

variable (σ : ServerState) (s : SessionId)

theorem trans {σ σ' σ'' : ServerState} (h : SameStore σ σ') (h' : SameStore σ' σ'') :
    SameStore σ σ'' where
  accounts := h'.accounts.trans h.accounts
  requests := h'.requests.trans h.requests
  nextOid := h'.nextOid.trans h.nextOid
  posted t := (h'.posted t).trans (h.posted t)
  outbox t := (h'.outbox t).trans (h.outbox t)

theorem modify (f : Session → Session) (hp : ∀ x, (f x).posted = x.posted)
    (ho : ∀ x, (f x).outbox = x.outbox) : SameStore σ (σ.modify s f) where
  accounts := rfl
  requests := rfl
  nextOid := rfl
  posted t := by by_cases h : t = s <;> simp [h, hp]
  outbox t := by by_cases h : t = s <;> simp [h, ho]

theorem close : SameStore σ (σ.close s) := by
  have h : SameStore σ (σ.setStatus s .disconnected) := modify σ s _ (fun _ => rfl) fun _ => rfl
  rw [ServerState.close, ServerState.removeSession_eq]
  exact { h with }

end SameStore

/-- Nothing in the life of a connection touches the store. -/
theorem sameStore_next (env : Env) {σ : ServerState} {a : Act} (h : a.Possible σ)
    (hlife : a.event.IsLife) : SameStore σ (next env σ a) := by
  obtain ⟨event, tape⟩ := a
  cases event with
  | connect s =>
    rw [next_connect env h]
    have hmod := SameStore.modify σ s
      (fun x => { x with started := true, accountId := (tape 0).word }) (fun _ => rfl) fun _ => rfl
    exact { hmod with }
  | handshake s error =>
    rw [next_handshake env h]
    have hmod := SameStore.modify σ s (fun x => { x with handshaken := true }) (fun _ => rfl)
      fun _ => rfl
    cases error with
    | true =>
      have hclose := SameStore.close (σ.modify s fun x => { x with handshaken := true }) s
      exact hmod.trans hclose
    | false =>
      rw [if_neg (by decide), ServerState.setStatus, ServerState.modify_modify]
      exact SameStore.modify σ s _ (fun _ => rfl) fun _ => rfl
  | disconnect s =>
    rw [next_disconnect env h]
    exact SameStore.close σ s
  | removeSessions =>
    rw [next_removeSessions env h]
    refine ⟨rfl, rfl, rfl, fun t => ?_, fun t => ?_⟩ <;>
      · simp only [ServerState.closeAll]
        split <;> rfl
  | _ => exact hlife.elim

/-! ## The store -/

/-- What holds of the stored requests, and of those posted. -/
structure StoreInv (σ : ServerState) : Prop where
  distinct : (σ.requests.map Record.oid).Nodup
  fresh : ∀ r ∈ σ.requests, r.oid < σ.nextOid
  code : ∀ r ∈ σ.requests, r.addCode ≠ none → r.type = .addContact
  postedFresh : ∀ s, ∀ p ∈ (σ.sessions s).posted, p.record.oid < σ.nextOid
  postedSame : ∀ s, ∀ p ∈ (σ.sessions s).posted, ∀ r ∈ σ.requests, r.oid = p.record.oid →
    r = p.record
  postedId : ∀ s, ∀ p ∈ (σ.sessions s).posted, p.id = p.record.id ∧ p.type = p.record.type

namespace StoreInv

variable {σ σ' : ServerState}

/-- A record is known by its `_id`. -/
theorem eq_of_oid (h : StoreInv σ) {r r' : Record} (hr : r ∈ σ.requests) (hr' : r' ∈ σ.requests)
    (ho : r.oid = r'.oid) : r = r' :=
  List.inj_on_of_nodup_map h.distinct hr hr' ho

theorem init : StoreInv {} where
  distinct := List.nodup_nil
  fresh := fun _ hr => absurd hr List.not_mem_nil
  code := fun _ hr => absurd hr List.not_mem_nil
  postedFresh := fun _ _ hp => absurd hp List.not_mem_nil
  postedSame := fun _ _ hp => absurd hp List.not_mem_nil
  postedId := fun _ _ hp => absurd hp List.not_mem_nil

/-- The invariant looks at the store and at what is posted; less may be posted. -/
theorem of_eq (h : StoreInv σ) (hr : σ'.requests = σ.requests) (hn : σ'.nextOid = σ.nextOid)
    (hp : ∀ s, ∀ p ∈ (σ'.sessions s).posted, p ∈ (σ.sessions s).posted) : StoreInv σ' where
  distinct := hr ▸ h.distinct
  fresh := by rw [hr, hn]; exact h.fresh
  code := hr ▸ h.code
  postedFresh := fun s p hmem => hn ▸ h.postedFresh s p (hp s p hmem)
  postedSame := fun s p hmem => hr ▸ h.postedSame s p (hp s p hmem)
  postedId := fun s p hmem => h.postedId s p (hp s p hmem)

/-- Delivery posts what is stored. -/
theorem delivers (env : Env) {F : SessionId → Posted → Prop} (h : StoreInv σ)
    (hd : Delivers F σ σ') (hF : ∀ s p, F s p → ∃ x, MadeFrom env σ.requests x p) :
    StoreInv σ' where
  distinct := hd.requests ▸ h.distinct
  fresh := by rw [hd.requests, hd.nextOid]; exact h.fresh
  code := hd.requests ▸ h.code
  postedFresh := fun s p hmem => by
    rw [hd.nextOid]
    rcases hd.mem_posted hmem with hold | hnew
    · exact h.postedFresh s p hold
    · obtain ⟨x, hp⟩ := hF s p hnew
      exact h.fresh _ hp.mem
  postedSame := fun s p hmem => by
    rw [hd.requests]
    rcases hd.mem_posted hmem with hold | hnew
    · exact h.postedSame s p hold
    · obtain ⟨x, hp⟩ := hF s p hnew
      exact fun r hr ho => h.eq_of_oid hr hp.mem ho
  postedId := fun s p hmem => by
    rcases hd.mem_posted hmem with hold | hnew
    · exact h.postedId s p hold
    · obtain ⟨x, hp⟩ := hF s p hnew
      exact ⟨hp.id, hp.type⟩

theorem quiet (h : StoreInv σ) (hq : Quiet σ σ') : StoreInv σ' :=
  h.of_eq hq.requests hq.nextOid fun s p hp => by rwa [hq.posted_eq] at hp

/-- A new record gets an `_id` that no record had before. -/
theorem insertRequest (h : StoreInv σ) {r : Request}
    (hcode : r.addCode ≠ none → r.type = .addContact) :
    StoreInv (σ.insertRequest r) where
  distinct := by
    simp only [ServerState.insertRequest, List.map_append, List.map_cons, List.map_nil]
    refine List.nodup_append.mpr ⟨h.distinct, List.nodup_singleton _, fun o ho o' ho' => ?_⟩
    obtain ⟨r', hr', rfl⟩ := List.mem_map.mp ho
    rw [List.mem_singleton] at ho'
    have := h.fresh r' hr'
    omega
  fresh := by
    intro r' hr'
    show r'.oid < σ.nextOid + 1
    rcases List.mem_append.mp hr' with hr' | hr'
    · have := h.fresh r' hr'
      omega
    · obtain rfl := List.mem_singleton.mp hr'
      exact Nat.lt_succ_self _
  code := by
    intro r' hr'
    rcases List.mem_append.mp hr' with hr' | hr'
    · exact h.code r' hr'
    · obtain rfl := List.mem_singleton.mp hr'
      exact hcode
  postedFresh := fun s p hp => by
    have := h.postedFresh s p hp
    show p.record.oid < σ.nextOid + 1
    omega
  postedSame := fun s p hp r' hr' ho => by
    rcases List.mem_append.mp hr' with hr' | hr'
    · exact h.postedSame s p hp r' hr' ho
    · obtain rfl := List.mem_singleton.mp hr'
      have := h.postedFresh s p hp
      exact absurd ho (by show σ.nextOid ≠ p.record.oid; omega)
  postedId := h.postedId

theorem removeRequest (h : StoreInv σ) (q : RequestQuery) : StoreInv (σ.removeRequest q) where
  distinct := h.distinct.sublist (List.eraseP_sublist.map _)
  fresh := fun r hr => h.fresh r (List.mem_of_mem_eraseP hr)
  code := fun r hr => h.code r (List.mem_of_mem_eraseP hr)
  postedFresh := h.postedFresh
  postedSame := fun s p hp r hr => h.postedSame s p hp r (List.mem_of_mem_eraseP hr)
  postedId := h.postedId

theorem schedule (h : StoreInv σ) (id : UInt32) : StoreInv (σ.schedule id) :=
  h.of_eq rfl rfl fun _ _ hp => hp

theorem edits (h : StoreInv σ) {x : UInt32} (he : Edits x σ σ') : StoreInv σ' := by
  induction he with
  | refl => exact h
  | quiet _ hq ih => exact ih.quiet hq
  | insert _ hr ih => exact ih.insertRequest hr.code
  | remove _ q ih => exact ih.removeRequest q
  | schedule _ id ih => exact ih.schedule id

/-- An insert that may throw. -/
theorem world_insertRequest {w : World} (h : StoreInv w.server) {r : Request}
    (hcode : r.addCode ≠ none → r.type = .addContact) : StoreInv (w.insertRequest r).server := by
  rw [World.insertRequest]
  split
  · exact h
  · exact h.insertRequest hcode

/-- A removal that may throw. -/
theorem world_removeRequest {w : World} (h : StoreInv w.server) (q : RequestQuery) :
    StoreInv (w.removeRequest q).server := by
  rw [World.removeRequest]
  split
  · exact h
  · exact h.removeRequest q

theorem takePosted (h : StoreInv σ) (s : SessionId) (k : Nat) : StoreInv (σ.takePosted s k) :=
  h.of_eq rfl rfl fun _ _ hp => σ.mem_posted_takePosted hp

/-- One request keeps the invariant. -/
theorem outcome {env : Env} {w : World} {s : SessionId} {head : UBJ.Object}
    (h : StoreInv w.server) (ho : Outcome env w s head σ') : StoreInv σ' := by
  cases ho with
  | refused _ hq => exact h.quiet hq
  | edited _ _ he => exact h.edits he
  | loggedOut _ _ hq =>
    have hset : StoreInv (w.server.setStatus s .connected) := h.of_eq rfl rfl fun t p hp => by
      by_cases ht : t = s <;> simp_all [ServerState.setStatus]
    exact hset.quiet hq
  | created a _ _ _ hq =>
    have hins : StoreInv (w.server.insertAccount a) := h.of_eq rfl rfl fun _ _ hp => hp
    exact hins.quiet hq
  | loggedIn x _ _ hd =>
    have hlogin : StoreInv (w.server.login s x) := by
      refine h.of_eq (by rw [ServerState.login_eq]) (by rw [ServerState.login_eq]) fun t p hp => ?_
      by_cases ht : t = s <;> simp_all
    refine hlogin.delivers env hd fun t p hp => ⟨x, ?_⟩
    rw [ServerState.login_eq]
    exact hp.2

/-- One step keeps the invariant. -/
theorem next {env : Env} {a : Act} (hp : a.Possible σ) (h : StoreInv σ) :
    StoreInv (next env σ a) := by
  by_cases hlife : a.event.IsLife
  · have hsame := sameStore_next env hp hlife
    exact h.of_eq hsame.requests hsame.nextOid fun s p hmem => by rwa [hsame.posted] at hmem
  obtain ⟨event, tape⟩ := a
  cases event with
  | connect | handshake | disconnect | removeSessions => exact absurd trivial hlife
  | request s head => exact outcome (w := ⟨σ, tape, []⟩) h (next_request env hp)
  | response s k head =>
    obtain ⟨p, hmem, hresp⟩ := next_response env hp
    split at hresp
    · have hremoved := world_removeRequest (w := ⟨σ.takePosted s k, tape, []⟩) (h.takePosted s k)
      exact (hremoved _).quiet hresp
    · rw [hresp]
      exact h.takePosted s k
  | createReceiver s pkt => exact h.quiet (next_createReceiver env hp)
  | receive s id body => exact h.quiet (next_receive env hp)
  | received s id =>
    have hrecv := next_received env hp
    split at hrecv
    · rw [hrecv]
      exact h
    · exact (world_insertRequest (w := ⟨σ, tape, []⟩) h fun hc => absurd rfl hc).delivers env hrecv
        fun t p hp => ⟨_, hp.2⟩
  | userRequests k =>
    have htasks : StoreInv { σ with tasks := σ.tasks.eraseIdx k } :=
      h.of_eq rfl rfl fun _ _ hmem => hmem
    exact htasks.delivers env (next_userRequests env hp) fun t p hp => ⟨_, hp.2⟩
  | send k size offset => exact h.quiet (next_send env hp)
  | timer completed => exact h.quiet (next_timer env hp)

end StoreInv

/-- The stored requests are in order after every run. -/
theorem storeInv_after (env : Env) (tr : List Act) : StoreInv (after env tr) :=
  invariant_after .init (fun _ _ hp h => h.next hp) tr

/-! ## The sessions -/

/-- A connection that has not ended yet. -/
def Session.Live (x : Session) : Prop :=
  x.started = true ∧ (x.handshaken = true → x.status ≠ .disconnected)

/-- The ids of the accounts. -/
def ServerState.accountIds (σ : ServerState) : List UInt32 := σ.accounts.map Account.id

/-- What holds of a session and of its places in the registry. -/
structure SessionOk (σ : ServerState) (s : SessionId) : Prop where
  shaken : (σ.sessions s).handshaken = true → (σ.sessions s).started = true
  connected : (σ.sessions s).status ≠ .disconnected → (σ.sessions s).handshaken = true
  listed : ∀ k, s ∈ σ.getSessions k → (σ.sessions s).accountId = k ∧ (σ.sessions s).Live
  registered : (σ.sessions s).status = .loggedIn → s ∈ σ.getSessions (σ.sessions s).accountId
  account : (σ.sessions s).status = .loggedIn → (σ.sessions s).accountId ∈ σ.accountIds

/-- The registry lists live sessions under their own account id; whoever is logged in is
listed, under an account that exists. -/
def SessionInv (σ : ServerState) : Prop := ∀ s, SessionOk σ s

/-- The accounts, the registry and the identity of every session are the same. -/
structure Unmoved (σ σ' : ServerState) : Prop where
  accountIds : σ'.accountIds = σ.accountIds
  registry : σ'.registry = σ.registry
  started : ∀ s, (σ'.sessions s).started = (σ.sessions s).started
  handshaken : ∀ s, (σ'.sessions s).handshaken = (σ.sessions s).handshaken
  status : ∀ s, (σ'.sessions s).status = (σ.sessions s).status
  accountId : ∀ s, (σ'.sessions s).accountId = (σ.sessions s).accountId

namespace Unmoved

variable {σ σ' σ'' : ServerState}

theorem refl (σ : ServerState) : Unmoved σ σ :=
  ⟨rfl, rfl, fun _ => rfl, fun _ => rfl, fun _ => rfl, fun _ => rfl⟩

theorem trans (h : Unmoved σ σ') (h' : Unmoved σ' σ'') : Unmoved σ σ'' where
  accountIds := h'.accountIds.trans h.accountIds
  registry := h'.registry.trans h.registry
  started s := (h'.started s).trans (h.started s)
  handshaken s := (h'.handshaken s).trans (h.handshaken s)
  status s := (h'.status s).trans (h.status s)
  accountId s := (h'.accountId s).trans (h.accountId s)

theorem of_delivers {F : SessionId → Posted → Prop} (h : Delivers F σ σ') : Unmoved σ σ' where
  accountIds := h.accounts
  registry := h.registry
  started := h.started
  handshaken := h.handshaken
  status := h.status
  accountId := h.accountId

theorem of_edits {x : UInt32} (h : Edits x σ σ') : Unmoved σ σ' := by
  induction h with
  | refl => exact .refl _
  | quiet _ hq ih => exact ih.trans (.of_delivers hq)
  | insert _ _ ih => exact { ih with }
  | remove _ _ ih => exact { ih with }
  | schedule _ _ ih => exact { ih with }

theorem takePosted (σ : ServerState) (s : SessionId) (k : Nat) : Unmoved σ (σ.takePosted s k) :=
  { refl σ with
    started := fun t => by by_cases h : t = s <;> simp [ServerState.takePosted, h]
    handshaken := fun t => by by_cases h : t = s <;> simp [ServerState.takePosted, h]
    status := fun t => by by_cases h : t = s <;> simp [ServerState.takePosted, h]
    accountId := fun t => by by_cases h : t = s <;> simp [ServerState.takePosted, h] }

/-- An insert that may throw. -/
theorem insertRequest (w : World) (r : Request) : Unmoved w.server (w.insertRequest r).server := by
  rw [World.insertRequest]
  split
  · exact refl _
  · exact { refl w.server with }

/-- A removal that may throw. -/
theorem removeRequest (w : World) (q : RequestQuery) :
    Unmoved w.server (w.removeRequest q).server := by
  rw [World.removeRequest]
  split
  · exact refl _
  · exact { refl w.server with }

theorem getSessions (h : Unmoved σ σ') (k : UInt32) : σ'.getSessions k = σ.getSessions k := by
  rw [ServerState.getSessions, h.registry, ServerState.getSessions]

theorem live (h : Unmoved σ σ') (s : SessionId) :
    (σ'.sessions s).Live ↔ (σ.sessions s).Live := by
  rw [Session.Live, Session.Live, h.started, h.handshaken, h.status]

end Unmoved

/-- Only these events change which accounts there are, and who is registered as whom. -/
def Act.Moves (env : Env) (a : Act) : Prop :=
  match a.event with
  | .request _ head =>
    env.decode (head.get "requestType").toInt = some .createAccount ∨
      env.decode (head.get "requestType").toInt = some .login ∨
      env.decode (head.get "requestType").toInt = some .logout
  | e => e.IsLife

/-- A request moves nobody, unless it creates an account, or is a login or a logout. -/
theorem Outcome.unmoved {env : Env} {w : World} {s : SessionId} {head : UBJ.Object}
    {σ' : ServerState} (h : Outcome env w s head σ')
    (hcreate : env.decode (head.get "requestType").toInt ≠ some .createAccount)
    (hlogin : env.decode (head.get "requestType").toInt ≠ some .login)
    (hlogout : env.decode (head.get "requestType").toInt ≠ some .logout) :
    Unmoved w.server σ' := by
  cases h with
  | refused _ hq => exact .of_delivers hq
  | edited _ _ he => exact .of_edits he
  | loggedOut _ ht _ => exact absurd ht hlogout
  | created a ht _ _ _ => exact absurd ht hcreate
  | loggedIn _ ht _ _ => exact absurd ht hlogin

theorem unmoved_next (env : Env) {σ : ServerState} {a : Act} (hp : a.Possible σ)
    (h : ¬ a.Moves env) : Unmoved σ (next env σ a) := by
  obtain ⟨event, tape⟩ := a
  cases event with
  | connect | handshake | disconnect | removeSessions => exact absurd trivial h
  | request s head =>
    exact (next_request env hp).unmoved (fun ht => h (Or.inl ht)) (fun ht => h (Or.inr (Or.inl ht)))
      fun ht => h (Or.inr (Or.inr ht))
  | response s k head =>
    obtain ⟨p, hmem, hresp⟩ := next_response env hp
    have htake := Unmoved.takePosted σ s k
    split at hresp
    · exact (htake.trans (.removeRequest ⟨σ.takePosted s k, tape, []⟩ _)).trans (.of_delivers hresp)
    · rw [hresp]
      exact htake
  | createReceiver s pkt => exact .of_delivers (next_createReceiver env hp)
  | receive s id body => exact .of_delivers (next_receive env hp)
  | received s id =>
    have hrecv := next_received env hp
    split at hrecv
    · rw [hrecv]
      exact .refl σ
    · exact (Unmoved.insertRequest ⟨σ, tape, []⟩ _).trans (.of_delivers hrecv)
  | userRequests k =>
    have htasks : Unmoved σ { σ with tasks := σ.tasks.eraseIdx k } := { Unmoved.refl σ with }
    exact htasks.trans (.of_delivers (next_userRequests env hp))
  | send k size offset => exact .of_delivers (next_send env hp)
  | timer completed => exact .of_delivers (next_timer env hp)

namespace SessionOk

variable {σ σ' : ServerState} {s t : SessionId}

/-- Nothing about a session depends on what else is in the registry. -/
theorem of_same (h : SessionOk σ s) (hstarted : (σ'.sessions s).started = (σ.sessions s).started)
    (hshaken : (σ'.sessions s).handshaken = (σ.sessions s).handshaken)
    (hst : (σ'.sessions s).status = (σ.sessions s).status)
    (hid : (σ'.sessions s).accountId = (σ.sessions s).accountId)
    (hget : ∀ k, s ∈ σ'.getSessions k ↔ s ∈ σ.getSessions k)
    (hids : ∀ id ∈ σ.accountIds, id ∈ σ'.accountIds) : SessionOk σ' s where
  shaken := by rw [hshaken, hstarted]; exact h.shaken
  connected := by rw [hst, hshaken]; exact h.connected
  listed k := by
    rw [hget, hid, Session.Live, hstarted, hshaken, hst]
    exact h.listed k
  registered := by rw [hst, hid, hget]; exact h.registered
  account hs := by
    rw [hst] at hs
    rw [hid]
    exact hids _ (h.account hs)

/-- A session that has not been started is as it was made, and in no list. -/
theorem of_not_started (h : SessionOk σ s) (hs : (σ.sessions s).started = false) :
    (σ.sessions s).handshaken = false ∧ (σ.sessions s).status = .disconnected ∧
      ∀ k, s ∉ σ.getSessions k := by
  have hshaken : (σ.sessions s).handshaken = false := by
    by_contra hne
    have hstarted := h.shaken (by simpa using hne)
    rw [hs] at hstarted
    cases hstarted
  refine ⟨hshaken, ?_, fun k hmem => ?_⟩
  · by_contra hne
    have hconnected := h.connected hne
    rw [hshaken] at hconnected
    cases hconnected
  · have hlive := (h.listed k hmem).2.1
    rw [hs] at hlive
    cases hlive

/-- A session that is neither connected nor waiting for its handshake is in no list. -/
theorem of_closed (hshaken : (σ.sessions s).handshaken = true → (σ.sessions s).started = true)
    (hst : (σ.sessions s).status = .disconnected) (hget : ∀ k, s ∉ σ.getSessions k) :
    SessionOk σ s where
  shaken := hshaken
  connected hne := absurd hst hne
  listed k hmem := absurd hmem (hget k)
  registered hs := by rw [hst] at hs; cases hs
  account hs := by rw [hst] at hs; cases hs

end SessionOk

namespace SessionInv

variable {σ σ' : ServerState}

theorem init : SessionInv {} := fun s => .of_closed (fun h => by cases h) rfl fun k h => by
  simp [ServerState.getSessions] at h

theorem unmoved (h : SessionInv σ) (hu : Unmoved σ σ') : SessionInv σ' := fun s =>
  (h s).of_same (hu.started s) (hu.handshaken s) (hu.status s) (hu.accountId s)
    (fun k => by rw [hu.getSessions]) fun id hid => by rwa [hu.accountIds]

theorem insertAccount (h : SessionInv σ) (a : Account) : SessionInv (σ.insertAccount a) := fun s =>
  (h s).of_same rfl rfl rfl rfl (fun _ => Iff.rfl) fun id hid => by
    simp only [ServerState.accountIds, ServerState.insertAccount, List.map_append]
    exact List.mem_append_left _ hid

theorem connect (h : SessionInv σ) {s : SessionId} (hs : (σ.sessions s).started = false)
    (id : UInt32) : SessionInv (σ.connect s id) := fun t => by
  have hget : ∀ k, (σ.connect s id).getSessions k =
      if id = k then σ.getSessions k ++ [s] else σ.getSessions k := fun k => by
    simp [ServerState.connect]
  obtain ⟨hshaken, hst, hnot⟩ := (h s).of_not_started hs
  by_cases hts : t = s
  · subst hts
    have hsess : (σ.connect t id).sessions t =
        { σ.sessions t with started := true, accountId := id } := by simp [ServerState.connect]
    refine ⟨?_, ?_, fun k hk => ?_, ?_, ?_⟩ <;> rw [hsess]
    · exact fun _ => rfl
    · exact fun hne => absurd hst hne
    · rw [hget] at hk
      split at hk
      · next hid => exact ⟨hid, rfl, fun hsh => by rw [hshaken] at hsh; cases hsh⟩
      · exact absurd hk (hnot k)
    · exact fun hin => by rw [hst] at hin; cases hin
    · exact fun hin => by rw [hst] at hin; cases hin
  · have hsess : (σ.connect s id).sessions t = σ.sessions t := by simp [ServerState.connect, hts]
    refine (h t).of_same (by rw [hsess]) (by rw [hsess]) (by rw [hsess]) (by rw [hsess])
      (fun k => ?_) fun _ hmem => hmem
    rw [hget]
    split <;> simp [hts]

/-- A session whose status becomes `STATUS_CONNECTED` stays where it is in the registry. -/
theorem setConnected (h : SessionInv σ) {s : SessionId} (f : Session → Session)
    (hid : (f (σ.sessions s)).accountId = (σ.sessions s).accountId)
    (hstarted : (f (σ.sessions s)).started = true)
    (hshaken : (f (σ.sessions s)).handshaken = true)
    (hst : (f (σ.sessions s)).status = .connected) : SessionInv (σ.modify s f) := fun t => by
  by_cases hts : t = s
  · subst hts
    have hsess : (σ.modify t f).sessions t = f (σ.sessions t) := by simp
    refine ⟨?_, ?_, fun k hk => ?_, ?_, ?_⟩ <;> rw [hsess]
    · exact fun _ => hstarted
    · exact fun _ => hshaken
    · refine ⟨?_, hstarted, fun _ => by rw [hst]; decide⟩
      rw [hid]
      exact ((h t).listed k hk).1
    · exact fun hin => by rw [hst] at hin; cases hin
    · exact fun hin => by rw [hst] at hin; cases hin
  · have hsess : (σ.modify s f).sessions t = σ.sessions t := by simp [hts]
    exact (h t).of_same (by rw [hsess]) (by rw [hsess]) (by rw [hsess]) (by rw [hsess])
      (fun _ => Iff.rfl) fun _ hmem => hmem

/-- A session that is closed is in no list, however far it had got. -/
theorem modify_close (h : SessionInv σ) (s : SessionId) (f : Session → Session)
    (hid : (f (σ.sessions s)).accountId = (σ.sessions s).accountId)
    (hshaken : (f (σ.sessions s)).handshaken = true → (f (σ.sessions s)).started = true) :
    SessionInv ((σ.modify s f).close s) := fun t => by
  have hget : ∀ k, ((σ.modify s f).close s).getSessions k =
      if (σ.sessions s).accountId = k then (σ.getSessions k).filter (· ≠ s)
      else σ.getSessions k := fun k => by
    simp [ServerState.close, ServerState.setStatus, hid]
  by_cases hts : t = s
  · subst hts
    have hsess : ((σ.modify t f).close t).sessions t =
        { f (σ.sessions t) with status := .disconnected } := by
      simp [ServerState.close, ServerState.setStatus]
    refine .of_closed (by rw [hsess]; exact hshaken) (by rw [hsess]) fun k hk => ?_
    rw [hget] at hk
    split at hk
    · simp at hk
    · next hne => exact hne ((h t).listed k hk).1
  · have hsess : ((σ.modify s f).close s).sessions t = σ.sessions t := by
      simp [ServerState.close, ServerState.setStatus, hts]
    refine (h t).of_same (by rw [hsess]) (by rw [hsess]) (by rw [hsess]) (by rw [hsess])
      (fun k => ?_) fun _ hmem => ?_
    · rw [hget]
      split <;> simp [hts]
    · rw [ServerState.close, ServerState.removeSession_eq]
      exact hmem

theorem close (h : SessionInv σ) (s : SessionId) : SessionInv (σ.close s) := by
  have hid : σ.modify s id = σ := by simp [ServerState.modify]
  rw [← hid]
  exact h.modify_close s id rfl (h s).shaken

theorem closeAll (h : SessionInv σ) : SessionInv σ.closeAll := fun t => by
  have hget : ∀ k, t ∉ σ.closeAll.getSessions k := fun k hk => by
    simp [ServerState.getSessions, ServerState.closeAll] at hk
  by_cases hlisted : t ∈ σ.listed
  · have hsess : σ.closeAll.sessions t = { σ.sessions t with status := .disconnected } := by
      simp only [ServerState.closeAll, if_pos hlisted]
    exact .of_closed (by rw [hsess]; exact (h t).shaken) (by rw [hsess]) hget
  · have hsess : σ.closeAll.sessions t = σ.sessions t := by
      simp only [ServerState.closeAll, if_neg hlisted]
    have hst : (σ.sessions t).status ≠ .loggedIn := fun hin =>
      hlisted ((σ.mem_listed t).mpr ⟨_, (h t).registered hin⟩)
    refine ⟨?_, ?_, fun k hk => absurd hk (hget k), ?_, ?_⟩ <;> rw [hsess]
    · exact (h t).shaken
    · exact (h t).connected
    · exact fun hin => absurd hin hst
    · exact fun hin => absurd hin hst

theorem login (h : SessionInv σ) {s : SessionId} (hst : (σ.sessions s).status ≠ .disconnected)
    {x : UInt32} (hx : x ∈ σ.accountIds) : SessionInv (σ.login s x) := fun t => by
  by_cases hts : t = s
  · subst hts
    have hsess : (σ.login t x).sessions t =
        { σ.sessions t with status := .loggedIn, accountId := x } := by simp
    have hshaken := (h t).connected hst
    refine ⟨?_, ?_, fun k hk => ?_, ?_, ?_⟩ <;> rw [hsess]
    · exact (h t).shaken
    · exact fun _ => hshaken
    · refine ⟨?_, (h t).shaken hshaken, fun _ => Status.noConfusion⟩
      rw [ServerState.getSessions_login] at hk
      by_contra hne
      rw [if_neg hne, List.append_nil] at hk
      split at hk
      · simp at hk
      · next hold => exact hold ((h t).listed k hk).1
    · intro _
      rw [ServerState.getSessions_login]
      simp
    · intro _
      rw [ServerState.login_eq]
      exact hx
  · have hsess : (σ.login s x).sessions t = σ.sessions t := by simp [hts]
    refine (h t).of_same (by rw [hsess]) (by rw [hsess]) (by rw [hsess]) (by rw [hsess])
      (fun k => ?_) fun _ hmem => ?_
    · rw [ServerState.getSessions_login, List.mem_append]
      have hnew : t ∉ if x = k then [s] else [] := by split <;> simp [hts]
      have hold : (t ∈ if (σ.sessions s).accountId = k then (σ.getSessions k).filter (· ≠ s)
          else σ.getSessions k) ↔ t ∈ σ.getSessions k := by
        split <;> simp [hts]
      rw [hold]
      exact ⟨fun ht => ht.resolve_right hnew, Or.inl⟩
    · rw [ServerState.login_eq]
      exact hmem

end SessionInv

/-- Who logs in has named an account that exists, and its password. -/
theorem loginInput_verified {env : Env} {w : World} {s : SessionId} {head : UBJ.Object}
    {x : UInt32} (h : loginInput env w s head = some x) :
    ∃ account ∈ w.server.accounts, account.id = x ∧ x = (head.get "account").toInt ∧
      verifyPassword env account (head.get "password").buffer? = some true := by
  unfold loginInput at h
  split at h
  · cases h
  split at h
  · cases h
  cases ha : w.account env { id := some (head.get "account").toInt } with
  | none =>
    rw [ha] at h
    cases h
  | some account =>
    rw [ha] at h
    simp only [Option.ite_none_right_eq_some, Option.some.injEq] at h
    obtain ⟨hv, rfl⟩ := h
    simp only [World.account, AccountQuery.test, Option.bind_some] at ha
    split at ha
    · cases ha
    have hid := List.find?_some ha
    simp at hid
    exact ⟨account, List.mem_of_find?_eq_some ha, hid.symm, rfl, hv⟩

namespace SessionInv

variable {env : Env} {σ : ServerState}

/-- One request keeps the invariant. -/
theorem outcome {w : World} {s : SessionId} {head : UBJ.Object} {σ' : ServerState}
    (h : SessionInv w.server) (hst : (w.server.sessions s).status ≠ .disconnected)
    (ho : Outcome env w s head σ') : SessionInv σ' := by
  cases ho with
  | refused _ hq => exact h.unmoved (.of_delivers hq)
  | edited _ _ he => exact h.unmoved (.of_edits he)
  | loggedOut _ _ hq =>
    have hshaken := (h s).connected hst
    have hset := h.setConnected (s := s) (fun x => { x with status := .connected }) rfl
      ((h s).shaken hshaken) hshaken rfl
    exact hset.unmoved (.of_delivers hq)
  | created a _ _ _ hq => exact (h.insertAccount a).unmoved (.of_delivers hq)
  | loggedIn x _ hx hd =>
    obtain ⟨account, hmem, rfl, _⟩ := loginInput_verified hx
    exact (h.login hst (List.mem_map_of_mem hmem)).unmoved (.of_delivers hd)

/-- One step keeps the invariant. -/
theorem next {a : Act} (hp : a.Possible σ) (h : SessionInv σ) : SessionInv (next env σ a) := by
  obtain ⟨event, tape⟩ := a
  cases event with
  | connect s =>
    rw [next_connect env hp]
    exact h.connect hp.2 _
  | handshake s error =>
    rw [next_handshake env hp]
    cases error with
    | true => exact h.modify_close s _ rfl fun _ => hp.2.1
    | false =>
      rw [if_neg (by decide), ServerState.setStatus, ServerState.modify_modify]
      exact h.setConnected _ rfl hp.2.1 rfl rfl
  | disconnect s =>
    rw [next_disconnect env hp]
    exact h.close s
  | removeSessions =>
    rw [next_removeSessions env hp]
    exact h.closeAll
  | request s head => exact outcome (w := ⟨σ, tape, []⟩) h hp.2 (next_request env hp)
  | _ => exact h.unmoved (unmoved_next env hp fun hm => hm.elim)

end SessionInv

/-- The registry is in order after every run. -/
theorem sessionInv_after (env : Env) (tr : List Act) : SessionInv (after env tr) :=
  invariant_after .init (fun _ _ hp h => h.next hp) tr

/-- A session is started by connecting. -/
theorem started_next (env : Env) {σ : ServerState} {a : Act} (hp : a.Possible σ) {s : SessionId}
    (hs : ((next env σ a).sessions s).started = true) :
    a.event = .connect s ∨ (σ.sessions s).started = true := by
  obtain ⟨event, tape⟩ := a
  cases event with
  | connect t =>
    rw [next_connect env hp] at hs
    by_cases hst : s = t
    · exact Or.inl (congrArg Event.connect hst.symm)
    · simp [ServerState.connect, hst] at hs
      exact Or.inr hs
  | handshake t error =>
    rw [next_handshake env hp] at hs
    refine Or.inr ?_
    cases error <;> by_cases hst : s = t <;> simp_all [ServerState.close, ServerState.setStatus]
  | disconnect t =>
    rw [next_disconnect env hp] at hs
    refine Or.inr ?_
    by_cases hst : s = t <;> simp_all [ServerState.close, ServerState.setStatus]
  | removeSessions =>
    rw [next_removeSessions env hp] at hs
    refine Or.inr ?_
    simp only [ServerState.closeAll] at hs
    split at hs <;> exact hs
  | request t head =>
    refine Or.inr ?_
    cases next_request env hp with
    | refused _ hq => rwa [hq.started] at hs
    | edited _ _ he => rwa [(Unmoved.of_edits he).started] at hs
    | loggedOut _ _ hq =>
      rw [hq.started] at hs
      by_cases hst : s = t <;> simp_all [ServerState.setStatus]
    | created account _ _ _ hq => rwa [hq.started] at hs
    | loggedIn x _ _ hd =>
      rw [hd.started] at hs
      by_cases hst : s = t <;> simp_all
  | _ =>
    rw [(unmoved_next env hp fun hm => hm.elim).started] at hs
    exact Or.inr hs

/-- Whatever has been started has connected in the course of the run. -/
theorem started_after (env : Env) (tr : List Act) {s : SessionId}
    (hs : ((after env tr).sessions s).started = true) : ∃ a ∈ tr, a.event = .connect s := by
  induction tr with
  | nil => cases hs
  | cons a tr ih =>
    by_cases hp : a.Possible (after env tr)
    · rcases started_next env hp hs with he | hold
      · exact ⟨a, List.mem_cons_self .., he⟩
      · obtain ⟨b, hmem, he⟩ := ih hold
        exact ⟨b, List.mem_cons_of_mem _ hmem, he⟩
    · rw [after_cons, next_of_not_possible hp] at hs
      obtain ⟨b, hmem, he⟩ := ih hs
      exact ⟨b, List.mem_cons_of_mem _ hmem, he⟩

/-! ## Who has authenticated -/

/-- The account that a step logs the session `s` in to. -/
def loginOf (env : Env) (σ : ServerState) (a : Act) (s : SessionId) : Option UInt32 :=
  match a.event with
  | .request t head =>
    if a.Possible σ ∧ t = s ∧ env.decode (head.get "requestType").toInt = some .login then
      loginInput env (a.world σ) s head
    else none
  | _ => none

/-- Does the step log the session `s` out? -/
def LogsOut (env : Env) (σ : ServerState) (a : Act) (s : SessionId) : Prop :=
  match a.event with
  | .request t head =>
    a.Possible σ ∧ t = s ∧ env.decode (head.get "requestType").toInt = some .logout ∧
      (σ.sessions s).status = .loggedIn
  | _ => False

instance (env : Env) (σ : ServerState) (a : Act) (s : SessionId) :
    Decidable (LogsOut env σ a s) := by
  unfold LogsOut
  split <;> infer_instance

/-- The account whose password the session gave in its most recent successful login, if
it has not logged out since. -/
def authenticated (env : Env) : List Act → SessionId → Option UInt32
  | [], _ => none
  | a :: tr, s =>
    match loginOf env (after env tr) a s with
    | some x => some x
    | none => if LogsOut env (after env tr) a s then none else authenticated env tr s

/-- Nobody gets logged in by a connection that comes or goes. -/
theorem loggedIn_life {env : Env} {σ : ServerState} (h : SessionInv σ) {a : Act}
    (hp : a.Possible σ) (hlife : a.event.IsLife) {s : SessionId}
    (hst : ((next env σ a).sessions s).status = .loggedIn) :
    (σ.sessions s).status = .loggedIn ∧
      (σ.sessions s).accountId = ((next env σ a).sessions s).accountId := by
  obtain ⟨event, tape⟩ := a
  cases event with
  | connect t =>
    rw [next_connect env hp] at hst ⊢
    by_cases hs : s = t
    · subst hs
      obtain ⟨_, hold, _⟩ := (h s).of_not_started hp.2
      simp [ServerState.connect, hold] at hst
    · simp_all [ServerState.connect]
  | handshake t error =>
    rw [next_handshake env hp] at hst ⊢
    cases error <;> by_cases hs : s = t <;>
      simp_all [ServerState.close, ServerState.setStatus]
  | disconnect t =>
    rw [next_disconnect env hp] at hst ⊢
    by_cases hs : s = t <;> simp_all [ServerState.close, ServerState.setStatus]
  | removeSessions =>
    rw [next_removeSessions env hp] at hst ⊢
    simp only [ServerState.closeAll] at hst ⊢
    split at hst
    · cases hst
    · next hs => simpa [hs] using hst
  | _ => exact hlife.elim

/-- Who is logged in cannot log in. -/
theorem loginOf_of_loggedIn {env : Env} {σ : ServerState} {s : SessionId} {head : UBJ.Object}
    {tape : Nat → Choice} (h : (σ.sessions s).status = .loggedIn) :
    loginOf env σ ⟨.request s head, tape⟩ s = none := by
  simp [loginOf, loginInput, Act.world, Event.note, h]

/-- A request leaves the identity of the other sessions alone. -/
theorem Outcome.status_of_ne {env : Env} {w : World} {s t : SessionId} {head : UBJ.Object}
    {σ' : ServerState} (h : Outcome env w t head σ') (hs : s ≠ t) :
    (σ'.sessions s).status = (w.server.sessions s).status ∧
      (σ'.sessions s).accountId = (w.server.sessions s).accountId := by
  cases h with
  | refused _ hq => exact ⟨hq.status s, hq.accountId s⟩
  | edited _ _ he => exact ⟨(Unmoved.of_edits he).status s, (Unmoved.of_edits he).accountId s⟩
  | loggedOut _ _ hq =>
    rw [hq.status, hq.accountId]
    simp [ServerState.setStatus, hs]
  | created a _ _ _ hq => exact ⟨hq.status s, hq.accountId s⟩
  | loggedIn x _ _ hd =>
    rw [hd.status, hd.accountId]
    simp [hs]

/-- A session that is logged in after a step has logged in by it, or was before and has
not logged out. -/
theorem loggedIn_next {env : Env} {σ : ServerState} (h : SessionInv σ) {a : Act}
    (hp : a.Possible σ) {s : SessionId}
    (hst : ((next env σ a).sessions s).status = .loggedIn) :
    loginOf env σ a s = some ((next env σ a).sessions s).accountId ∨
      loginOf env σ a s = none ∧ ¬ LogsOut env σ a s ∧ (σ.sessions s).status = .loggedIn ∧
        (σ.sessions s).accountId = ((next env σ a).sessions s).accountId := by
  by_cases hlife : a.event.IsLife
  · obtain ⟨hold, hid⟩ := loggedIn_life h hp hlife hst
    refine Or.inr ⟨?_, ?_, hold, hid⟩
    · unfold loginOf
      split
      · next he => rw [he] at hlife; exact hlife.elim
      · rfl
    · unfold LogsOut
      split
      · next he => rw [he] at hlife; exact hlife.elim
      · exact id
  obtain ⟨event, tape⟩ := a
  cases event with
  | connect | handshake | disconnect | removeSessions => exact absurd trivial hlife
  | request t head =>
    have ho := next_request env hp
    generalize next env σ ⟨.request t head, tape⟩ = σ' at hst ho ⊢
    by_cases hs : s = t
    · subst hs
      cases ho with
      | refused hne hq =>
        rw [hq.status] at hst
        exact absurd hst hne
      | edited hold ht he =>
        refine Or.inr ⟨loginOf_of_loggedIn hold, fun hout => ht hout.2.2.1, hold, ?_⟩
        exact ((Unmoved.of_edits he).accountId s).symm
      | loggedOut hold ht hq =>
        rw [hq.status] at hst
        simp [ServerState.setStatus] at hst
      | created account ht ha hins hq =>
        rw [hq.status] at hst
        refine Or.inr ⟨?_, fun hout => ?_, hst, (hq.accountId s).symm⟩
        · simp [loginOf, ht]
        · have hdecode := hout.2.2.1
          rw [ht] at hdecode
          cases hdecode
      | loggedIn x ht hx hd =>
        refine Or.inl ?_
        rw [hd.accountId]
        simpa [loginOf, hp, ht, Act.world, Event.note] using hx
    · have hnone : loginOf env σ ⟨.request t head, tape⟩ s = none := by
        simp [loginOf, Ne.symm hs]
      have hout : ¬ LogsOut env σ ⟨.request t head, tape⟩ s := fun hout => hs hout.2.1.symm
      have hsame := ho.status_of_ne hs
      rw [hsame.1] at hst
      exact Or.inr ⟨hnone, hout, hst, hsame.2.symm⟩
  | _ =>
    have hu := unmoved_next env hp fun hm => hm.elim
    rw [hu.status] at hst
    exact Or.inr ⟨rfl, id, hst, (hu.accountId s).symm⟩

/-- A session that is logged in has given the password of its account, and has not logged
out since. -/
theorem authenticated_of_loggedIn (env : Env) (tr : List Act) {s : SessionId}
    (hst : ((after env tr).sessions s).status = .loggedIn) :
    authenticated env tr s = some ((after env tr).sessions s).accountId := by
  induction tr with
  | nil => cases hst
  | cons a tr ih =>
    rw [authenticated, after_cons] at *
    by_cases hp : a.Possible (after env tr)
    · rcases loggedIn_next (sessionInv_after env tr) hp hst with hin | ⟨hnone, hout, hold, hid⟩
      · rw [hin]
      · rw [hnone, ← hid]
        simp only [if_neg hout]
        exact ih hold
    · have hnone : loginOf env (after env tr) a s = none := by
        unfold loginOf
        split
        · exact if_neg fun h => hp h.1
        · rfl
      have hout : ¬ LogsOut env (after env tr) a s := by
        unfold LogsOut
        split
        · exact fun h => hp h.1
        · exact id
      rw [next, if_neg hp] at hst ⊢
      rw [hnone]
      simp only [if_neg hout]
      exact ih hst

end ZwayServer
