import ZwayServer.Inbox
import ZwayServer.OneAnswer
import ZwayServer.Scan

/-!
# What a login announces

The answer to a login lists, in its inbox, the pushes that are stored for the account, and the
scan at the end of the login posts them.  The list and the scan are built by different queries,
and the scan passes over a push whose id is that of one already posted, whoever sent it.

* `inboxPairs`, `postedPushes` — the senders and ids that are listed, and those that are posted.
* `AnnouncesDelivered` — they are the same, each as often.
* `announcesDelivered_iff` — that holds of a login exactly if the ids of the pushes are
  different.
-/

namespace ZwayServer

open ClientSession

/-- The senders and the request ids that an inbox lists. -/
def inboxPairs (inbox : List UBJ.Value) : List (UInt32 × UInt32) :=
  inbox.flatMap fun e =>
    (e.get "requestIds").toArray.map fun id => ((e.get "contactId").toInt, id.toInt)

/-- The senders and the ids of the pushes that are posted to a session. -/
def postedPushes (σ : ServerState) (s : SessionId) : List (UInt32 × UInt32) :=
  ((σ.sessions s).posted.filter fun p => p.type == .push).map fun p => (p.record.src, p.id)

/-- The pushes that are stored for an account. -/
def pushesTo (σ : ServerState) (x : UInt32) : List Record :=
  σ.requests.filter (Inbox.query x).matches

/-- The answer to the login lists the pushes that the login posts, each as often. -/
def AnnouncesDelivered (env : Env) (σ : ServerState) (s : SessionId) (head : UBJ.Object)
    (tape : Nat → Choice) : Prop :=
  ∃ data,
    newResponses σ (Prog.runOn env (processLogin env s head) tape σ).2 s =
      [.success (head.get "requestId").toInt data] ∧
    (inboxPairs (data.get "inbox").toArray).Perm
      (postedPushes (Prog.runOn env (processLogin env s head) tape σ).2 s)

/-! ## Before the answer -/

section

variable {env : Env} {α : Type} {p : Prog α} {w : World}

/-- A program uses up choices from the front. -/
theorem noFaults_run (p : Prog α) (h : NoFaults w.tape) :
    NoFaults (Proc.run (step env) p w).2.tape := by
  induction p generalizing w with
  | ret a => exact h
  | op o k ih =>
    refine ih _ ?_
    show NoFaults (if o.draws then fun n => w.tape (n + 1) else w.tape)
    split
    · exact fun n => h (n + 1)
    · exact h

/-- A program that answers nothing posts no response. -/
theorem outbox_run_silent (env : Env) (hp : Proc.Within Op.Silent p) (w : World) (t : SessionId) :
    ∃ ms, ((Proc.run (step env) p w).2.server.sessions t).outbox =
      (w.server.sessions t).outbox ++ ms ∧ responses ms = [] := by
  refine hp.run (P := fun w' : World => ∃ ms, (w'.server.sessions t).outbox =
    (w.server.sessions t).outbox ++ ms ∧ responses ms = []) ?_ ⟨[], (List.append_nil _).symm, rfl⟩
  rintro o w' ho ⟨ms, hms, hresponses⟩
  obtain ⟨ms', hms', hresponses'⟩ := outbox_exec_silent env ho (w'.tape 0) w'.server t
  refine ⟨ms ++ ms', ?_, by rw [responses_append, hresponses, hresponses', List.append_nil]⟩
  show ((exec env o (w'.tape 0) w'.server).2.sessions t).outbox = _
  rw [hms', hms, List.append_assoc]

end

/-- The state when the inbox is asked for: the store is as it was, and the client has been
answered nothing. -/
structure BeforeInbox (s : SessionId) (w w' : World) : Prop where
  quiet : Quiet w.server w'.server
  calls : NoFaults w'.tape
  outbox : ∃ ms, (w'.server.sessions s).outbox = (w.server.sessions s).outbox ++ ms ∧
    responses ms = []

theorem run_beforeInbox (env : Env) {α : Type} {p : Prog α} {s : SessionId}
    (hquiet : Prog.IsQuiet p)
    (hsilent : Proc.Within Op.Silent p) {w w' : World} (h : BeforeInbox s w w') :
    BeforeInbox s w (Proc.run (step env) p w').2 := by
  obtain ⟨ms, hms, hresponses⟩ := h.outbox
  obtain ⟨ms', hms', hresponses'⟩ := outbox_run_silent env hsilent w' s
  refine ⟨h.quiet.trans (quiet_run hquiet w'), noFaults_run p h.calls, ms ++ ms', ?_, ?_⟩
  · rw [hms', hms, List.append_assoc]
  · rw [responses_append, hresponses, hresponses', List.append_nil]

/-- Nothing has been posted either. -/
theorem BeforeInbox.posted {s : SessionId} {w w' : World} (h : BeforeInbox s w w') :
    (w'.server.sessions s).posted = (w.server.sessions s).posted := by
  obtain ⟨ps, hps, hnone⟩ := h.quiet.posted s
  have hnil : ps = [] := List.eq_nil_iff_forall_not_mem.mpr fun p hp => hnone p hp
  rw [hps, hnil, List.append_nil]

/-- What follows on the registration: the answer, with the inbox in it, and the scan. -/
theorem run_afterLogin_eq (env : Env) (s : SessionId) (head : UBJ.Object) (x : UInt32) (w : World)
    (htape : NoFaults w.tape) :
    ∃ w' status, BeforeInbox s w w' ∧
      (Proc.run (step env) (afterLogin env s head x) w).2 =
        (Proc.run (step env) (processRequests env s) (w'.next.respond s
          (.success (head.get "requestId").toInt [("contactStatus", .array status),
            ("inbox", .array (Inbox.getInbox [] ⟨pushesTo w'.server x, false⟩).2)]))).2 := by
  have hrest : ∀ w₁, BeforeInbox s w w₁ → ∃ w' status, BeforeInbox s w w' ∧
      (Proc.run (step env) (answerLogin env s head x) w₁).2 =
        (Proc.run (step env) (processRequests env s) (w'.next.respond s
          (.success (head.get "requestId").toInt [("contactStatus", .array status),
            ("inbox", .array (Inbox.getInbox [] ⟨pushesTo w'.server x, false⟩).2)]))).2 := by
    intro w₁ h₁
    have hbefore := run_beforeInbox env (quiet_contactStatusList s)
      (silent_contactStatusList s) h₁
    refine ⟨_, (Proc.run (step env) (contactStatusList s) w₁).1, hbefore, ?_⟩
    have hf : ((Proc.run (step env) (contactStatusList s) w₁).2.tape 0).fails = false :=
      hbefore.calls 0
    rw [answerLogin, Proc.run_bind, Proc.run_bind, run_getInbox_of_succeeds env _ x hf]
    dsimp only
    rw [Proc.run_bind, Proc.run_perform, step_respond, Proc.run_bind, Proc.run_pure]
    rfl
  have hstart : BeforeInbox s w w := ⟨.refl _, htape, [], (List.append_nil _).symm, rfl⟩
  rw [afterLogin_eq]
  split
  · rw [Proc.run_bind]
    exact hrest _ (run_beforeInbox env (quiet_setConfig env s _) (silent_setConfig env s _) hstart)
  · exact hrest w hstart

/-! ## What is listed, and what is posted -/

theorem inboxPairs_groups (gs : List (UInt32 × List UBJ.Value)) :
    inboxPairs (gs.map fun g => Inbox.entry g.1 g.2) =
      (gs.flatMap fun g => g.2.map (Prod.mk g.1)).map fun e => (e.1, e.2.toInt) := by
  rw [inboxPairs, List.flatMap_map, List.map_flatMap]
  refine List.flatMap_congr fun g _ => ?_
  rw [List.map_map]
  rfl

/-- The inbox lists all pushes. -/
theorem inboxPairs_getInbox (rs : List Record) :
    (inboxPairs (Inbox.getInbox [] ⟨rs, false⟩).2).Perm (rs.map fun r => (r.src, r.id)) := by
  have hgroups := Keyed.isGrouping_foldl Inbox.senderOf Inbox.idOf rs
  rw [Inbox.getInbox_of_not_throws rfl]
  show (inboxPairs (List.map _ _)).Perm _
  rw [inboxPairs_groups]
  refine (hgroups.perm.map fun e => (e.1, e.2.toInt)).trans ?_
  rw [List.map_map]
  rfl

/-- The scan posts the pushes whose ids are new. -/
theorem postedPushes_of_posts {s : SessionId} {σ σ' : ServerState} {rs : List Record}
    (hnone : (σ.sessions s).posted = []) (h : Posts s rs σ σ') :
    postedPushes σ' s = (rs.filter fun r => r.type == .push).map fun r => (r.src, r.id) := by
  obtain ⟨ps, hposted, -, rfl, hkeys⟩ := h
  rw [postedPushes, hposted, hnone, List.nil_append, List.filter_map, List.map_map]
  have htype : (ps.filter fun p => p.type == .push) =
      ps.filter ((fun r : Record => r.type == .push) ∘ Posted.record) := by
    refine List.filter_congr fun p hp => ?_
    have hkey : p.type = p.record.type := congrArg Prod.fst (hkeys p hp)
    rw [hkey]
    rfl
  rw [htype]
  refine List.map_congr_left fun p hp => ?_
  have hkey : p.id = p.record.id := congrArg Prod.snd (hkeys p (List.mem_filter.mp hp).1)
  rw [hkey]
  rfl

/-- Of what is stored for the account, the scan of a session with nothing outstanding posts
the pushes with different ids. -/
theorem filter_scanned {s : SessionId} {σ : ServerState} {x : UInt32}
    (hnone : (σ.sessions s).posted = []) :
    (scanned σ s (storedFor σ x)).filter (fun r => r.type == .push) =
      Keyed.fresh Record.key [] (pushesTo σ x) := by
  have hfilter : ∀ rs : List Record,
      (Keyed.fresh Record.key [] rs).filter (fun r => r.type == .push) =
        Keyed.fresh Record.key [] (rs.filter fun r => r.type == .push) := fun rs =>
    Keyed.filter_fresh Record.key (fun k => k.1 == .push) (fun _ => rfl)
      fun _ _ => Iff.rfl
  rw [scanned, outstanding, hnone, List.map_nil, hfilter, List.filter_filter, storedFor,
    List.filter_filter, pushesTo]
  refine congrArg _ (List.filter_congr fun r _ => ?_)
  rw [Bool.eq_iff_iff, RequestQuery.matches_iff]
  cases ht : r.type <;> simp [Inbox.query, Record.isDelivered, RequestType.isDelivered, ht]

/-- The keys of pushes differ as their ids do. -/
theorem nodup_keys_pushesTo {σ : ServerState} {x : UInt32} :
    ((pushesTo σ x).map Record.key).Nodup ↔ ((pushesTo σ x).map (·.id)).Nodup := by
  have hkeys : (pushesTo σ x).map Record.key =
      ((pushesTo σ x).map (·.id)).map (Prod.mk RequestType.push) := by
    rw [List.map_map]
    refine List.map_congr_left fun r hr => ?_
    have ht : r.type = .push := (Inbox.mem_matching.mp hr).2.1
    rw [Record.key, ht]
    rfl
  rw [hkeys]
  exact List.nodup_map_iff fun _ _ h => congrArg Prod.snd h

/-! ## The login -/

section

variable {env : Env} {σ : ServerState} {s : SessionId} {head : UBJ.Object} {tape : Nat → Choice}

/-- A login that succeeds registers the session for the account that it names. -/
theorem run_processLogin_of_succeeds
    (h : (Prog.runOn env (processLogin env s head) tape σ).1 = true) :
    (Prog.runOn env (processLogin env s head) tape σ).2 =
      (Proc.run (step env) (afterLogin env s head (head.get "account").toInt)
        ((World.next ⟨σ, tape, []⟩).update (·.login s (head.get "account").toInt))).2.server := by
  have hrun := run_processLogin env ⟨σ, tape, []⟩ s head
  cases hx : loginInput env ⟨σ, tape, []⟩ s head with
  | none =>
    rw [hx] at hrun
    have hfailed : (Prog.runOn env (processLogin env s head) tape σ).1 = false := hrun.result
    rw [h] at hfailed
    cases hfailed
  | some x =>
    rw [hx] at hrun
    have hid : x = (head.get "account").toInt := by
      unfold loginInput at hx
      split at hx
      · cases hx
      split at hx
      · cases hx
      split at hx
      · cases hx
      · split at hx
        · exact (Option.some.inj hx).symm
        · cases hx
    subst hid
    rw [Prog.runOn, hrun]

end

/-- What such a login lists, and what it posts. -/
theorem announced_of_succeeds (env : Env) (σ : ServerState) (s : SessionId) (head : UBJ.Object)
    (tape : Nat → Choice) (hnone : (σ.sessions s).posted = []) (htape : NoFaults tape)
    (h : (Prog.runOn env (processLogin env s head) tape σ).1 = true) :
    ∃ data,
      newResponses σ (Prog.runOn env (processLogin env s head) tape σ).2 s =
        [.success (head.get "requestId").toInt data] ∧
      (inboxPairs (data.get "inbox").toArray).Perm
        ((pushesTo σ (head.get "account").toInt).map fun r => (r.src, r.id)) ∧
      postedPushes (Prog.runOn env (processLogin env s head) tape σ).2 s =
        (Keyed.fresh Record.key [] (pushesTo σ (head.get "account").toInt)).map
          fun r => (r.src, r.id) := by
  let x := (head.get "account").toInt
  let w : World := (World.next ⟨σ, tape, []⟩).update (·.login s x)
  have hrequests : w.server.requests = σ.requests := by
    show (σ.login s x).requests = σ.requests
    rw [ServerState.login_eq]
  have hsession : w.server.sessions s =
      { σ.sessions s with status := .loggedIn, accountId := x } := by
    show (σ.login s x).sessions s = _
    rw [ServerState.sessions_login, if_pos rfl]
  obtain ⟨w', status, hbefore, hafter⟩ :=
    run_afterLogin_eq env s head x w fun n => htape (n + 1)
  let data : UBJ.Object := [("contactStatus", .array status),
    ("inbox", .array (Inbox.getInbox [] ⟨pushesTo w'.server x, false⟩).2)]
  let v : World := w'.next.respond s (.success (head.get "requestId").toInt data)
  have hstored : w'.server.requests = σ.requests := hbefore.quiet.requests.trans hrequests
  have hposted : (v.server.sessions s).posted = [] := by
    have hold : (w'.server.sessions s).posted = [] := by
      rw [hbefore.posted, hsession]
      exact hnone
    simpa [v, World.respond, ServerState.send] using hold
  have haccount : (v.server.sessions s).accountId = x := by
    have hold : (w'.server.sessions s).accountId = x := by
      rw [hbefore.quiet.accountId, hsession]
    simpa [v, World.respond, ServerState.send] using hold
  have hread : scanRead v s = storedFor v.server x := by
    have hcall : (v.tape 0).fails = false := hbefore.calls 1
    rw [scanRead_of_succeeds hcall, haccount]
  have hposts := run_processRequests_posts env s v
  rw [hread] at hposts
  have hresult : (Prog.runOn env (processLogin env s head) tape σ).2 =
      (Proc.run (step env) (processRequests env s) v).2.server :=
    (run_processLogin_of_succeeds h).trans (congrArg World.server hafter)
  have hpushes : pushesTo v.server x = pushesTo σ x := by
    show w'.server.requests.filter _ = σ.requests.filter _
    rw [hstored]
  have hlisted : pushesTo w'.server x = pushesTo σ x := hpushes
  refine ⟨data, ?_, ?_, ?_⟩
  · obtain ⟨ps, -, houtbox, -⟩ := hposts
    obtain ⟨ms, hms, hresponses⟩ := hbefore.outbox
    have hv : (v.server.sessions s).outbox = (σ.sessions s).outbox ++
        (ms ++ [.response (.success (head.get "requestId").toInt data)]) := by
      rw [hsession] at hms
      simp [v, World.respond, ServerState.send, hms]
    rw [hv, List.append_assoc] at houtbox
    rw [hresult, newResponses, newMessages_of_append _ houtbox, responses_append, responses_append,
      hresponses]
    simp [responses, List.filterMap_map]
  · show (inboxPairs (Inbox.getInbox [] ⟨pushesTo w'.server x, false⟩).2).Perm _
    rw [hlisted]
    exact inboxPairs_getInbox _
  · rw [hresult, postedPushes_of_posts hposted hposts, filter_scanned hposted, hpushes]

/-- **What a login announces.**  In every state, a login that succeeds, on a session with nothing
outstanding and with no call failing, announces what it delivers exactly if the pushes that are
stored for its account have different ids. -/
theorem announcesDelivered_iff (env : Env) (σ : ServerState) (s : SessionId) (head : UBJ.Object)
    (tape : Nat → Choice) (hnone : (σ.sessions s).posted = []) (htape : NoFaults tape)
    (h : (Prog.runOn env (processLogin env s head) tape σ).1 = true) :
    AnnouncesDelivered env σ s head tape ↔
      ((pushesTo σ (head.get "account").toInt).map (·.id)).Nodup := by
  obtain ⟨data, hanswer, hlisted, hposted⟩ := announced_of_succeeds env σ s head tape hnone htape h
  rw [← nodup_keys_pushesTo, ← Keyed.perm_fresh_iff (g := fun r : Record => (r.src, r.id)),
    ← hposted]
  constructor
  · rintro ⟨data', hanswer', hperm⟩
    have hsame : data' = data := by
      have heq := hanswer'.symm.trans hanswer
      simpa using heq
    rw [hsame] at hperm
    exact hperm.symm.trans hlisted
  · intro hperm
    exact ⟨data, hanswer, hlisted.trans hperm.symm⟩

/-! ## Two pushes with one id -/

/-- Two accounts have pushed to a third one under the ids `i` and `j`, and a client has just
connected. -/
def pushedRun (i j : UInt32) : List Act :=
  samplePush 1 j 3 :: samplePush 0 i 3 ::
    sampleStep 2 (sampleRequest .createAccount 1
      [("name", .string "c"), ("password", .buffer (List.replicate 32 0))]) ::
    (sampleConnect 2 ++ sampleJoin 1 "b" 2 ++ sampleJoin 0 "a" 1)

/-- The client logs in to the third account. -/
def loginThird : UBJ.Object :=
  sampleRequest .login 2 [("account", .int32 3), ("password", .buffer (List.replicate 32 0))]

theorem announcesDelivered_pushedRun :
    AnnouncesDelivered sampleEnv (after sampleEnv (pushedRun 7 8)) 2 loginThird (calm 0) :=
  (announcesDelivered_iff sampleEnv (after sampleEnv (pushedRun 7 8)) 2 loginThird (calm 0)
    (List.isEmpty_iff.mp (by decide +kernel)) (fun _ => rfl) (by decide +kernel)).mpr
    (by decide +kernel)

/-- Of two pushes with one id, from two senders, both are listed and one is posted. -/
theorem not_announcesDelivered :
    ¬ AnnouncesDelivered sampleEnv (after sampleEnv (pushedRun 7 7)) 2 loginThird (calm 0) := by
  rintro ⟨data, hanswer, hperm⟩
  obtain ⟨data', hanswer', hlisted, -⟩ := announced_of_succeeds sampleEnv
    (after sampleEnv (pushedRun 7 7)) 2 loginThird (calm 0)
    (List.isEmpty_iff.mp (by decide +kernel)) (fun _ => rfl) (by decide +kernel)
  have hsame : data' = data := by
    have heq := hanswer'.symm.trans hanswer
    simpa using heq
  rw [hsame] at hlisted
  have hlength := (hlisted.symm.trans hperm).length_eq
  revert hlength
  decide +kernel

end ZwayServer
