import ZwayServer.Announcement
import ZwayServer.Duties
import ZwayServer.Provenance
import ZwayServer.Serial

/-!
# What is stored arrives

A contact request, an answer or a push is stored first and delivered later: the handler that
stores it schedules a task, and the task, like every login, scans the store.  Over a whole run
this leaves nothing behind.  Whatever is stored for the account of a client that is logged in
has been sent to it, or the task that will send it is still waiting.

* `SentTo` — what has been sent to a client.
* `Onward` — nothing that was sent or scheduled is forgotten.
* `stored_next` — what a step stores it has announced.
* `Looks` — the steps that scan the store are not told that it cannot be read.
* `arrives` — everything stored for a client has been sent to it, or will be.
-/

namespace ZwayServer

open ClientSession

/-! ## What has been sent -/

/-- The client has been sent a request with this type and id. -/
def SentTo (σ : ServerState) (s : SessionId) (key : RequestType × UInt32) : Prop :=
  ∃ head, Message.request key.1 key.2 head ∈ (σ.sessions s).outbox

/-- What waits for an answer has been sent. -/
def PostedSent (σ : ServerState) (s : SessionId) : Prop := ∀ key ∈ outstanding σ s, SentTo σ s key

/-- What was sent has been sent, and what was scheduled is. -/
structure Onward (σ σ' : ServerState) : Prop where
  sent : ∀ {s key}, SentTo σ s key → SentTo σ' s key
  tasks : ∀ {x}, x ∈ σ.tasks → x ∈ σ'.tasks
  posted : ∀ {s}, PostedSent σ s → PostedSent σ' s

namespace Onward

variable {σ σ' σ'' : ServerState}

theorem refl (σ : ServerState) : Onward σ σ := ⟨id, id, id⟩

theorem trans (h : Onward σ σ') (h' : Onward σ' σ'') : Onward σ σ'' :=
  ⟨fun hs => h'.sent (h.sent hs), fun hx => h'.tasks (h.tasks hx), fun hp =>
    h'.posted (h.posted hp)⟩

/-- A change of one session that forgets no message, and waits for no answer to a request that
it has not sent. -/
theorem modify (σ : ServerState) (s : SessionId) (f : Session → Session)
    (hout : ∀ x, ∀ m ∈ x.outbox, m ∈ (f x).outbox)
    (hnew : ∀ x, ∀ p ∈ (f x).posted, p ∈ x.posted ∨ .request p.type p.id p.head ∈ (f x).outbox) :
    Onward σ (σ.modify s f) := by
  have hsent : ∀ {t key}, SentTo σ t key → SentTo (σ.modify s f) t key := by
    rintro t key ⟨head, hm⟩
    refine ⟨head, ?_⟩
    rw [ServerState.sessions_modify]
    split
    · next ht =>
      subst ht
      exact hout _ _ hm
    · exact hm
  refine ⟨hsent, id, fun {t} hp key hkey => ?_⟩
  obtain ⟨p, hmem, rfl⟩ := List.mem_map.mp hkey
  rw [ServerState.sessions_modify] at hmem
  split at hmem
  · next ht =>
    subst ht
    rcases hnew _ p hmem with hold | hin
    · exact hsent (hp _ (List.mem_map_of_mem hold))
    · refine ⟨p.head, ?_⟩
      rw [ServerState.sessions_modify, if_pos rfl]
      exact hin
  · exact hsent (hp _ (List.mem_map_of_mem hmem))

/-- A change that leaves the sessions alone. -/
theorem of_sessions (hs : σ'.sessions = σ.sessions) (htasks : ∀ {x}, x ∈ σ.tasks → x ∈ σ'.tasks) :
    Onward σ σ' := by
  have hsent : ∀ {t key}, SentTo σ t key → SentTo σ' t key := by
    rintro t key ⟨head, hm⟩
    exact ⟨head, hs ▸ hm⟩
  refine ⟨hsent, htasks, fun hp key hkey => hsent (hp key ?_)⟩
  rwa [outstanding, hs] at hkey

end Onward

/-- No operation takes a scheduled task back. -/
theorem mem_tasks_exec (env : Env) (o : Op) (c : Choice) {σ : ServerState} {x : UInt32}
    (hx : x ∈ σ.tasks) : x ∈ (exec env o c σ).2.tasks := by
  by_cases hreads : o.Reads
  · rwa [exec_of_reads env hreads]
  cases he : o.edit c with
  | some e =>
    obtain ⟨s, f⟩ := e
    rwa [exec_of_edit he]
  | none =>
    cases o with
    | schedule id => exact List.mem_append_left _ hx
    | insertAccount | setFcmToken | insertRequest | removeRequest =>
      exact dbCall_cases (P := fun τ => x ∈ τ.tasks) hx fun _ => hx
    | fopenAppend =>
      rw [exec]
      split <;> exact hx
    | addReceiver t r =>
      rw [exec]
      split <;> exact hx
    | addEngineSender t y =>
      rw [exec]
      split <;> exact hx
    | removeSession t =>
      rw [exec, ServerState.removeSession_eq]
      exact hx
    | _ => first | exact hx | exact absurd trivial hreads

theorem onward_exec (env : Env) (o : Op) (c : Choice) (σ : ServerState) :
    Onward σ (exec env o c σ).2 := by
  cases he : o.edit c with
  | none => exact .of_sessions (sessions_exec_of_none he σ) (mem_tasks_exec env o c)
  | some e =>
    obtain ⟨s, f⟩ := e
    rw [exec_of_edit he]
    refine .modify σ s f (fun x m hm => ?_) fun x p hp => ?_
    · cases o <;> simp only [Op.edit, reduceCtorEq] at he <;> grind
    · cases o with
      | takePosted t k =>
        obtain ⟨rfl, rfl⟩ := Prod.mk.inj (Option.some.inj he)
        exact Or.inl (List.mem_of_mem_eraseIdx hp)
      | postRequest t q =>
        obtain ⟨rfl, rfl⟩ := Prod.mk.inj (Option.some.inj he)
        rcases List.mem_append.mp hp with hp | hp
        · exact Or.inl hp
        · rw [List.mem_singleton.mp hp]
          exact Or.inr (List.mem_append_right _ (List.mem_singleton_self _))
      | _ => exact Or.inl (by simp only [Op.edit, reduceCtorEq] at he <;> grind)

/-- Whatever is performed, nothing is forgotten. -/
theorem onward_run (env : Env) {α : Type} (p : Prog α) (w : World) :
    Onward w.server (Proc.run (step env) p w).2.server := by
  induction p generalizing w with
  | ret a => exact .refl _
  | op o k ih => exact (onward_exec env o (w.tape 0) w.server).trans (ih _ (step env o w).2)

/-! ## What is stored is announced -/

section

variable {env : Env} {σ : ServerState} {d : UInt32}

/-- Who gets to scheduling a task has scheduled it in the end. -/
theorem gets_run {p : Prog Bool} (h : p.Gets (.schedule d)) (w : World) :
    d ∈ (Proc.run (step env) p w).2.server.tasks := by
  induction p generalizing w with
  | ret b => exact h.elim
  | op o k ih =>
    rcases h with rfl | hk
    · exact (onward_run env (k ()) (step env (.schedule d) w).2).tasks
        (List.mem_append_right _ (List.mem_singleton_self d))
    · exact ih _ (hk _ trivial) (step env o w).2

/-- A request that is stored in the end was stored before, or its recipient is about to be
looked after. -/
theorem stored_run {e : Event} {p : Prog Bool} (h : p.Honours (Duty e)) (w : World) {r : Record}
    (hr : r ∈ (Proc.run (step env) p w).2.server.requests) (hn : r.toRequest.Notifies d) :
    r ∈ w.server.requests ∨ d ∈ (Proc.run (step env) p w).2.server.tasks := by
  induction p generalizing w with
  | ret b => exact Or.inl hr
  | op o k ih =>
    rcases ih _ (h _).2 (step env o w).2 hr with hmem | htask
    · rcases mem_requests_exec env hmem with hold | ⟨rfl, -⟩
      · exact Or.inl hold
      · exact Or.inr (gets_run ((h _).1 d hn) _)
    · exact Or.inr htask

theorem requests_note (σ : ServerState) (e : Event) : (e.note σ).requests = σ.requests := by
  cases e <;> rfl

/-- What a step stores for an account it has announced. -/
theorem stored_next {a : Act} (hp : a.Possible σ) {r : Record}
    (hr : r ∈ (next env σ a).requests) (hn : r.toRequest.Notifies d) :
    r ∈ σ.requests ∨ d ∈ (next env σ a).tasks := by
  rw [next_of_possible env hp, ← run_program] at hr ⊢
  have hstored := stored_run (honours_program env σ a.event) (a.world σ) hr hn
  rwa [Act.world, requests_note] at hstored

/-- A step keeps what was sent, and what was noted to be scheduled. -/
theorem onward_next {a : Act} (hp : a.Possible σ) : Onward (a.event.note σ) (next env σ a) := by
  rw [next_of_possible env hp]
  exact onward_run env _ (a.world σ)

/-- What is noted at the start of a step concerns no message. -/
theorem messages_note (σ : ServerState) (e : Event) (s : SessionId) :
    ((e.note σ).sessions s).outbox = (σ.sessions s).outbox ∧
      ((e.note σ).sessions s).posted = (σ.sessions s).posted := by
  cases e with
  | connect t | handshake t error => by_cases hs : s = t <;> simp [Event.note, hs]
  | _ => exact ⟨rfl, rfl⟩

theorem sentTo_note {e : Event} {s : SessionId} {key : RequestType × UInt32} :
    SentTo (e.note σ) s key ↔ SentTo σ s key := by
  rw [SentTo, (messages_note σ e s).1, SentTo]

theorem postedSent_note {e : Event} {s : SessionId} (h : PostedSent σ s) :
    PostedSent (e.note σ) s := by
  intro key hkey
  rw [outstanding, (messages_note σ e s).2] at hkey
  exact sentTo_note.mpr (h key hkey)

/-- A task that waits goes on waiting until it is its turn. -/
theorem tasks_next {a : Act} (hp : a.Possible σ) (hd : d ∈ σ.tasks) :
    d ∈ (next env σ a).tasks ∨ ∃ k, a.event = .userRequests k ∧ σ.tasks.getD k 0 = d := by
  by_cases hturn : ∃ k, a.event = .userRequests k ∧ σ.tasks.getD k 0 = d
  · exact Or.inr hturn
  refine Or.inl ((onward_next hp).tasks ?_)
  obtain ⟨event, tape⟩ := a
  cases event with
  | userRequests k =>
    show d ∈ σ.tasks.eraseIdx k
    obtain ⟨i, hi, hget⟩ := List.getElem_of_mem hd
    have hne : i ≠ k := by
      rintro rfl
      exact hturn ⟨i, rfl, by rw [List.getD_eq_getElem _ _ hi, hget]⟩
    exact List.mem_eraseIdx_iff_getElem.mpr ⟨i, hi, hne, hget⟩
  | _ => exact hd

/-- What waits for an answer has been sent, after every run. -/
theorem postedSent_after (env : Env) (tr : List Act) (s : SessionId) :
    PostedSent (after env tr) s :=
  invariant_after (P := fun σ => PostedSent σ s) (fun _ h => absurd h List.not_mem_nil)
    (fun _ _ hp h => (onward_next hp).posted (postedSent_note h)) tr

end

/-! ## Scanning -/

section

variable (env : Env) {s : SessionId} {w : World} {r : Record}

/-- A scan that can read the store sends whatever is in it for the client. -/
theorem sentTo_processRequests (hread : (w.tape 0).fails = false) (hposted : PostedSent w.server s)
    (hr : r ∈ w.server.requests) (hdst : r.dst = some (w.server.sessions s).accountId)
    (ht : r.isDelivered = true) :
    SentTo (Proc.run (step env) (processRequests env s) w).2.server s r.key := by
  have hscanned : r ∈ (scanRead w s).filter Record.isDelivered := by
    rw [scanRead_of_succeeds hread]
    exact List.mem_filter.mpr ⟨mem_storedFor.mpr ⟨hr, hdst⟩, ht⟩
  refine (onward_run env (processRequests env s) w).posted hposted r.key ?_
  rw [(run_processRequests_posts env s w).outstanding]
  exact Keyed.mem_seen_fresh hscanned

/-- So does the task that scans for all sessions of an account. -/
theorem sentTo_forM {sessions : List SessionId} (hs : s ∈ sessions) (htape : NoFaults w.tape)
    (hposted : PostedSent w.server s) (hr : r ∈ w.server.requests)
    (hdst : r.dst = some (w.server.sessions s).accountId) (ht : r.isDelivered = true) :
    SentTo (Proc.run (step env) (forM sessions fun t => do
      let _ ← processRequests env t) w).2.server s r.key := by
  induction sessions generalizing w with
  | nil => exact absurd hs List.not_mem_nil
  | cons t sessions ih =>
    have hfirst : (Proc.run (step env) (do
        let _ ← processRequests env t) w).2 =
        (Proc.run (step env) (processRequests env t) w).2 := by
      rw [Proc.run_bind, Proc.run_pure]
    rw [Proc.run_forM_cons, hfirst]
    rcases List.mem_cons.mp hs with rfl | hs
    · exact (onward_run env _ _).sent
        (sentTo_processRequests env (htape 0) hposted hr hdst ht)
    · have hd := run_processRequests env t w
      refine ih hs (noFaults_run _ htape) ((onward_run env _ w).posted hposted) ?_ ?_
      · rwa [hd.requests]
      · rwa [hd.accountId]

theorem sentTo_processUserRequests {x : UInt32} (hs : s ∈ w.server.getSessions x)
    (htape : NoFaults w.tape) (hposted : PostedSent w.server s) (hr : r ∈ w.server.requests)
    (hdst : r.dst = some (w.server.sessions s).accountId) (ht : r.isDelivered = true) :
    SentTo (Proc.run (step env) (Server.processUserRequests env x) w).2.server s r.key := by
  have hsome : (step env (.getSessions x) w).1 ≠ [] := List.ne_nil_of_mem hs
  rw [Server.processUserRequests, Proc.run_bind, Proc.run_perform, Proc.run_ite, if_pos hsome]
  exact sentTo_forM env hs htape hposted hr hdst ht

end

section

variable {env : Env} {σ : ServerState} {s : SessionId} {x : UInt32} {r : Record}

/-- A login that is not told of a fault sends what is stored for the account. -/
theorem sentTo_login {head : UBJ.Object} {tape : Nat → Choice}
    (hp : (Act.mk (.request s head) tape).Possible σ)
    (hlogin : loginOf env σ ⟨.request s head, tape⟩ s = some x) (htape : NoFaults tape)
    (hposted : PostedSent σ s) (hr : r ∈ σ.requests) (hdst : r.dst = some x)
    (ht : r.isDelivered = true) : SentTo (next env σ ⟨.request s head, tape⟩) s r.key := by
  have hinput : env.decode (head.get "requestType").toInt = some .login ∧
      loginInput env ⟨σ, tape, []⟩ s head = some x := by
    simp only [loginOf] at hlogin
    split at hlogin
    · next h => exact ⟨h.2.2, hlogin⟩
    · cases hlogin
  have hrun := run_processLogin env ⟨σ, tape, []⟩ s head
  rw [hinput.2] at hrun
  obtain ⟨w, status, hbefore, hafter⟩ := run_afterLogin_eq env s head x
    ((World.next ⟨σ, tape, []⟩).update (·.login s x)) fun n => htape (n + 1)
  have hend : next env σ ⟨.request s head, tape⟩ =
      (Proc.run (step env) (processRequests env s) (w.next.respond s
        (.success (head.get "requestId").toInt [("contactStatus", .array status),
          ("inbox", .array (Inbox.getInbox [] ⟨pushesTo w.server x, false⟩).2)]))).2.server := by
    rw [next_request_eq env hp, ← hafter]
    simp only [processIncomingRequest, hinput.1]
    exact congrArg (·.2.server) hrun
  rw [hend]
  -- nothing but messages has been added since the session took the account on
  obtain ⟨ms, hms, -⟩ := hbefore.outbox
  have hlogged : ((σ.login s x).sessions s).outbox = (σ.sessions s).outbox ∧
      ((σ.login s x).sessions s).posted = (σ.sessions s).posted := by
    simp [ServerState.sessions_login]
  have hsent : PostedSent w.server s := by
    intro key hkey
    rw [outstanding, hbefore.posted] at hkey
    obtain ⟨head', hm⟩ := hposted key (by rwa [outstanding, ← hlogged.2])
    refine ⟨head', ?_⟩
    rw [hms]
    exact List.mem_append_left _ (by rw [← hlogged.1] at hm; exact hm)
  refine sentTo_processRequests env (hbefore.calls 1)
    ((onward_exec env (.respond s _) {} w.server).posted hsent) ?_ ?_ ht
  · show r ∈ w.server.requests
    rw [hbefore.quiet.requests]
    show r ∈ (σ.login s x).requests
    rw [ServerState.login_eq]
    exact hr
  · have hid : (w.server.sessions s).accountId = x := by
      rw [hbefore.quiet.accountId s]
      show ((σ.login s x).sessions s).accountId = x
      simp
    rw [hdst, ← hid]
    simp [World.respond, World.update, World.next, ServerState.send]

/-- The task of an account that is not told of a fault sends what is stored for it to all its
sessions. -/
theorem sentTo_userRequests {k : Nat} {tape : Nat → Choice}
    (hp : (Act.mk (.userRequests k) tape).Possible σ) (htape : NoFaults tape)
    (hposted : PostedSent σ s) (hs : s ∈ σ.getSessions (σ.tasks.getD k 0)) (hr : r ∈ σ.requests)
    (hdst : r.dst = some (σ.sessions s).accountId) (ht : r.isDelivered = true) :
    SentTo (next env σ ⟨.userRequests k, tape⟩) s r.key := by
  rw [next_of_possible env hp]
  exact sentTo_processUserRequests env (w := ⟨{ σ with tasks := σ.tasks.eraseIdx k }, tape, []⟩)
    hs htape hposted hr hdst ht

end

/-! ## Arrival -/

/-- A login, and the task of an account, can read the store. -/
def Act.Looks (env : Env) (a : Act) : Prop :=
  match a.event with
  | .userRequests _ => NoFaults a.tape
  | .request _ head =>
    env.decode (head.get "requestType").toInt = some .login → NoFaults a.tape
  | _ => True

theorem looks_of_noFaults {env : Env} {a : Act} (h : NoFaults a.tape) : a.Looks env := by
  obtain ⟨event, tape⟩ := a
  cases event with
  | userRequests k => exact h
  | request s head => exact fun _ => h
  | _ => exact trivial

/-- Whatever is stored for the account of a client that is logged in has been sent to it, or a
task for the account waits. -/
def Informed (σ : ServerState) : Prop :=
  ∀ s, ∀ r ∈ σ.requests, (σ.sessions s).status = .loggedIn →
    r.toRequest.Notifies (σ.sessions s).accountId →
    (σ.sessions s).accountId ∈ σ.tasks ∨ SentTo σ s r.key

theorem Request.Notifies.isDelivered {r : Record} {x : UInt32} (h : r.toRequest.Notifies x) :
    r.isDelivered = true := by
  rcases h.1 with ht | ht | ht | ht <;> rw [Record.isDelivered, ht] <;> rfl

/-- **One step.** -/
theorem informed_next {env : Env} {σ : ServerState} {a : Act} (hp : a.Possible σ)
    (hlooks : a.Looks env) (hsessions : SessionInv σ) (hposted : ∀ s, PostedSent σ s)
    (h : Informed σ) : Informed (next env σ a) := by
  intro s r hr hstatus hn
  rcases stored_next hp hr hn with hold | htask
  swap
  · exact Or.inl htask
  rcases loggedIn_next hsessions hp hstatus with hlogin | ⟨-, -, hwas, hsame⟩
  · -- the session has just logged in
    obtain ⟨event, tape⟩ := a
    cases event with
    | request t head =>
      have hin : t = s ∧ env.decode (head.get "requestType").toInt = some .login := by
        simp only [loginOf] at hlogin
        split at hlogin
        · next hl => exact ⟨hl.2.1, hl.2.2⟩
        · cases hlogin
      obtain ⟨rfl, hdecode⟩ := hin
      exact Or.inr (sentTo_login hp hlogin (hlooks hdecode) (hposted t) hold hn.2 hn.isDelivered)
    | _ => cases hlogin
  · -- it was logged in before, to the same account
    rw [← hsame] at hn ⊢
    rcases h s r hold hwas hn with htask | hsent
    · rcases tasks_next hp htask with hstays | ⟨k, hturn, hk⟩
      · exact Or.inl hstays
      · obtain ⟨event, tape⟩ := a
        obtain rfl : event = .userRequests k := hturn
        refine Or.inr (sentTo_userRequests hp hlooks (hposted s) ?_ hold hn.2 hn.isDelivered)
        rw [hk]
        exact (hsessions s).registered hwas
    · exact Or.inr ((onward_next hp).sent (sentTo_note.mpr hsent))

/-- **What is stored arrives.**  After every run whose logins and tasks could read the store:
whatever contact request, answer or push is stored for the account of a client that is logged in
has been sent to the client, under its type and id, or the task that sends it still waits. -/
theorem arrives {env : Env} {tr : List Act} (h : EveryStep env (fun _ a => a.Looks env) tr)
    {s : SessionId} (hs : ((after env tr).sessions s).status = .loggedIn) {r : Record}
    (hr : r ∈ (after env tr).requests)
    (hn : r.toRequest.Notifies ((after env tr).sessions s).accountId) :
    ((after env tr).sessions s).accountId ∈ (after env tr).tasks ∨
      SentTo (after env tr) s r.key := by
  have hinformed : Informed (after env tr) := by
    refine invariant_everyStep (I := fun tr => Informed (after env tr)) ?_ ?_ ?_ h
    · exact fun s r hr => absurd hr List.not_mem_nil
    · intro tr a hp hi
      rwa [after_cons, next_of_not_possible hp]
    · exact fun tr a hp hlooks hi =>
        informed_next hp hlooks (sessionInv_after env tr) (postedSent_after env tr) hi
  exact hinformed s r hr hs hn

end ZwayServer
