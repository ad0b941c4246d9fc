import ZwayServer.Duties

/-!
# No lost notification

A handler that stores a request schedules a look at the addressee's sessions
afterwards; a login registers its session first and looks at the store afterwards.
Whatever is interleaved, one of the two sees the other.

* `RegistryOk` — who is registered where while handlers are under way.
* `Covered` — a session has read the store since, or somebody is about to make it.
* `covers_afterMoves` — every stored request and every session that is logged in to its
  addressee are covered.
* `no_lost_notification` — once everybody is done, every such session has read the store.
-/

namespace ZwayServer

open ClientSession

/-! ## Single operations -/

/-- Who is connected as whom stays the same, the registry does not grow, and no task is
forgotten. -/
structure SamePeople (σ σ' : ServerState) : Prop where
  started : ∀ s, (σ'.sessions s).started = (σ.sessions s).started
  status : ∀ s, (σ'.sessions s).status = (σ.sessions s).status
  accountId : ∀ s, (σ'.sessions s).accountId = (σ.sessions s).accountId
  listed : ∀ s k, s ∈ σ'.getSessions k → s ∈ σ.getSessions k
  tasks : ∀ d ∈ σ.tasks, d ∈ σ'.tasks

theorem SamePeople.refl (σ : ServerState) : SamePeople σ σ :=
  ⟨fun _ => rfl, fun _ => rfl, fun _ => rfl, fun _ _ => id, fun _ => id⟩

theorem SamePeople.of_delivers {F : SessionId → Posted → Prop} {σ σ' : ServerState}
    (h : Delivers F σ σ') : SamePeople σ σ' where
  started := h.started
  status := h.status
  accountId := h.accountId
  listed s k hs := by rwa [h.getSessions] at hs
  tasks d hd := by rwa [h.tasks]

theorem samePeople_exec (env : Env) {o : Op} (c : Choice) (σ : ServerState) (h : o.Steady) :
    SamePeople σ (exec env o c σ).2 := by
  by_cases hq : o.IsQuiet
  · exact .of_delivers (quiet_exec env c σ hq)
  cases o with
  | postRequest s p =>
    exact .of_delivers (.post (F := fun _ _ => True) σ s trivial)
  | takePosted s k =>
    refine ⟨fun t => ?_, fun t => ?_, fun t => ?_, fun t k => id, fun d => id⟩ <;>
      · simp only [exec, ServerState.sessions_modify]
        split
        · next ht => rw [ht]
        · rfl
  | insertAccount | insertRequest | removeRequest =>
    exact dbCall_cases (P := SamePeople σ) (.refl σ) fun _ => { SamePeople.refl σ with }
  | clearSessions =>
    refine { SamePeople.refl σ with listed := fun s k hs => ?_ }
    have hnil : (exec env .clearSessions c σ).2.getSessions k = [] := by
      simp [exec, ServerState.getSessions]
    rw [hnil] at hs
    cases hs
  | schedule id =>
    exact { SamePeople.refl σ with tasks := fun d hd => List.mem_append_left _ hd }
  | setStatus | setAccountId | appendSession | removeSession => exact h.elim
  | _ => exact absurd trivial hq

/-- What an operation does that keeps to the discipline: the second component of the
discipline tells that the owner of the handler is in no list. -/
structure Moved (owner : Option SessionId) (o : Op) (out' : Bool) (σ σ' : ServerState) : Prop where
  started : ∀ s, (σ'.sessions s).started = (σ.sessions s).started
  status : ∀ s, owner ≠ some s → (σ.sessions s).status = .disconnected →
    (σ'.sessions s).status = .disconnected
  accountId : ∀ s k, s ∈ σ'.getSessions k → (σ'.sessions s).accountId = k
  listed : ∀ s k, s ∈ σ'.getSessions k → s ∈ σ.getSessions k ∨ owner = some s ∧ o = .appendSession s
  out : out' = true → ∀ s, owner = some s → ∀ k, s ∉ σ'.getSessions k
  moves : ∀ s x, o = .setAccountId s x → out' = true
  tasks : ∀ d ∈ σ.tasks, d ∈ σ'.tasks

theorem moved_exec (env : Env) {o : Op} (c : Choice) {σ : ServerState} {owner : Option SessionId}
    {out out' : Bool} (hlisted : ∀ s k, s ∈ σ.getSessions k → (σ.sessions s).accountId = k)
    (hout : out = true → ∀ s, owner = some s → ∀ k, s ∉ σ.getSessions k)
    (h : discipline owner o out = some out') : Moved owner o out' σ (exec env o c σ).2 := by
  by_cases hsteady : o.Steady
  · have hp := samePeople_exec env c σ hsteady
    rw [discipline_of_steady hsteady] at h
    obtain rfl : out = out' := Option.some.inj h
    exact {
      started := hp.started
      status := fun s _ hs => (hp.status s).trans hs
      accountId := fun s k hs => (hp.accountId s).trans (hlisted s k (hp.listed s k hs))
      listed := fun s k hs => Or.inl (hp.listed s k hs)
      out := fun ho s hs k hk => hout ho s hs k (hp.listed s k hk)
      moves := by
        rintro s x rfl
        exact hsteady.elim
      tasks := hp.tasks }
  cases o with
  | setStatus t st =>
    have hst : (owner = some t ∨ st = .disconnected) ∧ out = out' := by
      by_cases hc : owner = some t ∨ st = .disconnected
      · exact ⟨hc, by simpa [discipline, hc] using h⟩
      · simp [discipline, hc] at h
    obtain ⟨hst, rfl⟩ := hst
    refine { started := fun s => ?_, status := fun s hs hd => ?_, accountId := fun s k hk => ?_,
             listed := fun s k => Or.inl, out := hout, moves := by simp, tasks := fun d => id }
    · simp only [exec, ServerState.sessions_modify]
      split <;> simp_all
    · simp only [exec, ServerState.sessions_modify]
      split
      · next he => exact hst.resolve_left (he ▸ hs)
      · exact hd
    · have hid := hlisted s k hk
      simp only [exec, ServerState.sessions_modify]
      split <;> simp_all
  | setAccountId t x =>
    have hst : (owner = some t ∧ out = true) ∧ out' = true := by
      by_cases hc : owner = some t ∧ out = true
      · exact ⟨hc, by simpa [discipline, hc, eq_comm] using h⟩
      · simp [discipline, hc] at h
    obtain ⟨⟨howner, ho⟩, rfl⟩ := hst
    refine { started := fun s => ?_, status := fun s hs hd => ?_, accountId := fun s k hk => ?_,
             listed := fun s k => Or.inl, out := fun _ => hout ho, moves := fun _ _ _ => rfl,
             tasks := fun d => id }
    · simp only [exec, ServerState.sessions_modify]
      split <;> simp_all
    · simp only [exec, ServerState.sessions_modify]
      split <;> simp_all
    · -- the session whose account changes is in no list
      have hne : s ≠ t := by
        rintro rfl
        exact hout ho s howner k hk
      simp only [exec, ServerState.sessions_modify, if_neg hne]
      exact hlisted s k hk
  | appendSession t =>
    have hst : (owner = some t ∧ out = true) ∧ out' = false := by
      by_cases hc : owner = some t ∧ out = true
      · exact ⟨hc, by simpa [discipline, hc, eq_comm] using h⟩
      · simp [discipline, hc] at h
    obtain ⟨⟨howner, ho⟩, rfl⟩ := hst
    refine { started := fun s => rfl, status := fun s _ => id, accountId := fun s k hk => ?_,
             listed := fun s k hk => ?_, out := fun hf => absurd hf (by decide),
             moves := by simp, tasks := fun d => id }
    · rcases σ.mem_getSessions_appendSession.mp hk with hk | ⟨rfl, he⟩
      · exact hlisted s k hk
      · exact he
    · rcases σ.mem_getSessions_appendSession.mp hk with hk | ⟨rfl, _⟩
      · exact Or.inl hk
      · exact Or.inr ⟨howner, rfl⟩
  | removeSession t =>
    have hst : owner = some t ∧ out' = true := by
      by_cases hc : owner = some t
      · exact ⟨hc, by simpa [discipline, hc, eq_comm] using h⟩
      · simp [discipline, hc] at h
    obtain ⟨howner, rfl⟩ := hst
    have hmem : ∀ s k, s ∈ (σ.removeSession t).getSessions k → s ∈ σ.getSessions k ∧ s ≠ t := by
      intro s k hs
      obtain ⟨hold, hne⟩ := σ.mem_getSessions_removeSession.mp hs
      refine ⟨hold, ?_⟩
      rintro rfl
      exact hne (hlisted s k hold) rfl
    have htasks : (exec env (.removeSession t) c σ).2.tasks = σ.tasks := by
      show (σ.removeSession t).tasks = σ.tasks
      rw [ServerState.removeSession_eq]
    have hsessions : (exec env (.removeSession t) c σ).2.sessions = σ.sessions :=
      ServerState.sessions_removeSession σ t
    refine { started := fun s => by rw [hsessions], status := fun s _ hs => by rwa [hsessions],
             accountId := fun s k hk => ?_, listed := fun s k hk => Or.inl (hmem s k hk).1,
             out := fun _ s hs k hk => ?_, moves := by simp, tasks := fun d hd => by rwa [htasks] }
    · rw [hsessions]
      exact hlisted s k (hmem s k hk).1
    · refine (hmem s k hk).2 ?_
      exact Option.some.inj (hs.symm.trans howner)
  | _ => exact absurd trivial hsteady

/-! ## Who is registered -/

/-- The session has taken an account on, by a login. -/
def HasLoggedIn (log : List Entry) (s : SessionId) : Prop :=
  ∃ head x, Entry.performed (.request s head) (.setAccountId s x) () ∈ log

/-- The request is a login. -/
def IsLogin (env : Env) (head : UBJ.Object) : Prop :=
  env.decode (head.get "requestType").toInt = some .login

theorem HasLoggedIn.cons {log : List Entry} {s : SessionId} (h : HasLoggedIn log s) (x : Entry) :
    HasLoggedIn (x :: log) s := by
  obtain ⟨head, y, hmem⟩ := h
  exact ⟨head, y, List.mem_cons_of_mem _ hmem⟩

/-- Only the handler of a request of the session makes it logged in. -/
theorem HasLoggedIn.cases {log : List Entry} {s : SessionId} {e : Event} {o : Op} {r : o.Res}
    (h : HasLoggedIn (.performed e o r :: log) s) :
    HasLoggedIn log s ∨ (∃ head, e = .request s head) ∧ ∃ x, o = .setAccountId s x := by
  obtain ⟨head, x, hmem⟩ := h
  rcases List.mem_cons.mp hmem with he | hmem
  · cases he
    exact Or.inr ⟨⟨head, rfl⟩, x, rfl⟩
  · exact Or.inl ⟨head, x, hmem⟩

theorem HasLoggedIn.of_ended {log : List Entry} {s : SessionId} {e : Event} {b : Bool}
    (h : HasLoggedIn (.ended e b :: log) s) : HasLoggedIn log s := by
  obtain ⟨head, x, hmem⟩ := h
  exact ⟨head, x, (List.mem_cons.mp hmem).resolve_left (by simp)⟩

/-- A handler under way still owes its duties, keeps to the discipline, belongs to a session
that has started, and registers it under a temporary id only before any login. -/
structure ThreadOk (env : Env) (C : Conc) (t : Thread) : Prop where
  honours : t.rest.Honours (Duty t.event)
  obeys : ∃ out, t.rest.Obeys t.event.owner out ∧
    (out = true → ∀ s, t.event.owner = some s → ∀ k, s ∉ C.server.getSessions k)
  started : ∀ s, t.event.owner = some s → (C.server.sessions s).started = true
  fresh : ∀ s, t.event = .connect s → ¬ HasLoggedIn C.log s
  login : ∀ s head, t.event = .request s head → IsLogin env head →
    HasLoggedIn C.log s ∨ t.rest.Takes s (head.get "account").toInt

/-- A session is listed under its account only, and not before it has started; at most one
handler is under way for it. -/
structure RegistryOk (env : Env) (C : Conc) : Prop where
  listed : ∀ s k, s ∈ C.server.getSessions k → (C.server.sessions s).accountId = k
  unstarted : ∀ s, (C.server.sessions s).started = false →
    (∀ k, s ∉ C.server.getSessions k) ∧ (C.server.sessions s).status = .disconnected ∧
      ¬ HasLoggedIn C.log s
  exclusive : ∀ i j t u s, C.thread i = some t → C.thread j = some u →
    t.event.owner = some s → u.event.owner = some s → i = j
  threads : ∀ i t, C.thread i = some t → ThreadOk env C t
  finished : ∀ s head, Entry.ended (.request s head) true ∈ C.log → IsLogin env head →
    HasLoggedIn C.log s

section

variable {env : Env} {C : Conc}

theorem registryOk_init : RegistryOk env {} where
  listed s k hs := by simp [ServerState.getSessions] at hs
  unstarted s _ := by
    refine ⟨fun k hs => ?_, rfl, ?_⟩
    · simp [ServerState.getSessions] at hs
    · rintro ⟨head, x, hmem⟩
      cases hmem
  exclusive i j t u s hi := by cases hi
  threads i t hi := by cases hi
  finished s head hmem := by cases hmem

/-- What is noted when a handler begins moves nobody. -/
theorem sessions_note (σ : ServerState) (e : Event) (s : SessionId) :
    ((e.note σ).sessions s).accountId = (σ.sessions s).accountId ∧
      ((e.note σ).sessions s).status = (σ.sessions s).status ∧
      ((σ.sessions s).started = true → ((e.note σ).sessions s).started = true) := by
  cases e <;> simp only [Event.note, ServerState.sessions_modify] <;> (try split) <;> simp_all

theorem getSessions_note (σ : ServerState) (e : Event) (k : UInt32) :
    (e.note σ).getSessions k = σ.getSessions k := by
  cases e <;> rfl

/-- The owner of an event that can happen has started. -/
theorem started_note (h : RegistryOk env C) {e : Event} (henabled : e.Enabled C.server)
    {s : SessionId} (hs : e.owner = some s) : ((e.note C.server).sessions s).started = true := by
  have hstatus : (C.server.sessions s).status ≠ .disconnected →
      (C.server.sessions s).started = true := by
    intro hne
    by_contra hf
    exact hne (h.unstarted s (by simpa using hf)).2.1
  cases e with
  | connect t =>
    obtain rfl : t = s := Option.some.inj hs
    simp [Event.note]
  | handshake t error =>
    obtain rfl : t = s := Option.some.inj hs
    exact (sessions_note _ _ _).2.2 henabled.1
  | request t head =>
    obtain rfl : t = s := Option.some.inj hs
    exact hstatus henabled
  | response t k head =>
    obtain rfl : t = s := Option.some.inj hs
    exact hstatus henabled.1
  | createReceiver t pkt =>
    obtain rfl : t = s := Option.some.inj hs
    exact hstatus henabled.1
  | receive t id body =>
    obtain rfl : t = s := Option.some.inj hs
    exact hstatus henabled.1
  | received t id =>
    obtain rfl : t = s := Option.some.inj hs
    exact hstatus henabled
  | disconnect t =>
    obtain rfl : t = s := Option.some.inj hs
    exact hstatus henabled
  | userRequests | send | timer | removeSessions => cases hs

/-- A handler that begins. -/
theorem threadOk_begin (h : RegistryOk env C) {e : Event} (henabled : e.Enabled C.server)
    {C' : Conc} (hserver : C'.server = e.note C.server) (hlog : C'.log = C.log) :
    ThreadOk env C' { event := e, rest := e.program env C.server } where
  honours := honours_program env C.server e
  obeys := by
    refine ⟨decide e.IsConnect, obeys_program env C.server e, fun hc s hs k => ?_⟩
    rw [hserver, getSessions_note]
    cases e with
    | connect t =>
      obtain rfl : t = s := Option.some.inj hs
      exact (h.unstarted t henabled).1 k
    | _ => exact False.elim (of_decide_eq_true hc)
  started s hs := by
    rw [hserver]
    exact started_note h henabled hs
  fresh s he := by
    have hs : e = .connect s := he
    subst hs
    rw [hlog]
    exact (h.unstarted s henabled).2.2
  login s head he hlogin := by
    have hs : e = .request s head := he
    subst hs
    refine Or.inr ?_
    have hprogram : Event.program env C.server (.request s head) = processLogin env s head := by
      show processIncomingRequest env s head = _
      rw [processIncomingRequest, hlogin]
    show Prog.Takes s _ (Event.program env C.server (.request s head))
    rw [hprogram]
    exact takes_processLogin env s head

theorem registryOk_begin (h : RegistryOk env C) {e : Event} (henabled : e.Enabled C.server)
    (hfree : C.Free e) : RegistryOk env
      { C with
        server := e.note C.server
        threads := C.threads ++ [some { event := e, rest := e.program env C.server }] } := by
  -- a thread is the new one or an old one
  have hcases : ∀ i t,
      (C.threads ++ [some (Thread.mk e (e.program env C.server))]).getD i none = some t →
      i = C.threads.length ∧ t = ⟨e, e.program env C.server⟩ ∨
        i ≠ C.threads.length ∧ C.thread i = some t := by
    intro i t hi
    rw [Conc.getD_concat] at hi
    split at hi
    · next he => exact Or.inl ⟨he, (Option.some.inj hi).symm⟩
    · next hne => exact Or.inr ⟨hne, hi⟩
  have hother : ∀ i t s, C.thread i = some t → t.event.owner = some s → e.owner ≠ some s := by
    intro i t s hi ht he
    exact hfree t (Conc.mem_running.mpr ⟨i, hi⟩) (by simp [he]) (ht.trans he.symm)
  refine
    { listed := fun s k hs => ?_, unstarted := fun s hs => ?_, exclusive := ?_, threads := ?_,
      finished := h.finished }
  · rw [(sessions_note C.server e s).1]
    exact h.listed s k (by rwa [getSessions_note] at hs)
  · have hold : (C.server.sessions s).started = false := by
      by_contra hf
      have := (sessions_note C.server e s).2.2 (by simpa using hf)
      rw [this] at hs
      cases hs
    obtain ⟨hlisted, hstatus, hlog⟩ := h.unstarted s hold
    refine ⟨fun k => ?_, ?_, hlog⟩
    · show s ∉ (e.note C.server).getSessions k
      rw [getSessions_note]
      exact hlisted k
    · exact ((sessions_note C.server e s).2.1).trans hstatus
  · intro i j t u s hi hj ht hu
    rcases hcases i t hi with ⟨hi', rfl⟩ | ⟨hi', hi⟩ <;>
      rcases hcases j u hj with ⟨hj', rfl⟩ | ⟨hj', hj⟩
    · exact hi'.trans hj'.symm
    · exact absurd ht (hother j u s hj hu)
    · exact absurd hu (hother i t s hi ht)
    · exact h.exclusive i j t u s hi hj ht hu
  · intro i t hi
    rcases hcases i t hi with ⟨-, rfl⟩ | ⟨-, hi⟩
    · exact threadOk_begin h henabled rfl rfl
    · obtain ⟨hhonours, ⟨out, hobeys, hout⟩, hstarted, hfresh, hlogin⟩ := h.threads i t hi
      refine ⟨hhonours, ⟨out, hobeys, fun ho s hs k => ?_⟩, fun s hs => ?_, hfresh, hlogin⟩
      · show s ∉ (e.note C.server).getSessions k
        rw [getSessions_note]
        exact hout ho s hs k
      · exact (sessions_note C.server e s).2.2 (hstarted s hs)

theorem registryOk_finish (h : RegistryOk env C) {i : Nat} {e : Event} {b : Bool}
    (hthread : C.thread i = some ⟨e, .ret b⟩) : RegistryOk env
      { C with threads := C.threads.set i none, log := .ended e b :: C.log } := by
  have hcases : ∀ j t, (C.threads.set i none).getD j none = some t → C.thread j = some t := by
    intro j t hj
    rw [Conc.getD_set (Conc.lt_of_thread hthread)] at hj
    split at hj
    · cases hj
    · exact hj
  refine
    { listed := h.listed, unstarted := fun s hs => ?_,
      exclusive := fun j k t u s hj hk => h.exclusive j k t u s (hcases j t hj) (hcases k u hk),
      threads := fun j t hj => ?_, finished := fun s head hmem hlogin => ?_ }
  · obtain ⟨hlisted, hstatus, hlog⟩ := h.unstarted s hs
    exact ⟨hlisted, hstatus, fun hin => hlog hin.of_ended⟩
  · obtain ⟨hhonours, hobeys, hstarted, hfresh, hlogin⟩ := h.threads j t (hcases j t hj)
    refine ⟨hhonours, hobeys, hstarted, fun s he hin => hfresh s he hin.of_ended,
      fun s head he hl => ?_⟩
    exact (hlogin s head he hl).imp (fun hin => hin.cons _) id
  · rcases List.mem_cons.mp hmem with he | hmem
    · cases he
      rcases (h.threads i _ hthread).login s head rfl hlogin with hin | htakes
      · exact hin.cons _
      · exact absurd htakes (by simp)
    · exact (h.finished s head hmem hlogin).cons _

/-- What a performed operation does, seen from the registry. -/
theorem moved_perform (h : RegistryOk env C) {i : Nat} {c : Choice} {e : Event} {o : Op}
    {k : o.Res → Prog Bool} (hthread : C.thread i = some ⟨e, .op o k⟩) :
    ∃ out', (∀ r, (k r).Obeys e.owner out') ∧
      Moved e.owner o out' C.server (exec env o c C.server).2 := by
  obtain ⟨out, ⟨out', hstep, hrest⟩, hout⟩ := (h.threads i _ hthread).obeys
  exact ⟨out', hrest, moved_exec env c h.listed hout hstep⟩

/-- The login of a session goes on, or has just taken the account on. -/
theorem login_perform {log : List Entry} {s : SessionId} {head : UBJ.Object} {x : UInt32} {o : Op}
    {k : o.Res → Prog Bool} (r : o.Res)
    (h : HasLoggedIn log s ∨ Prog.Takes s x (.op o k)) :
    HasLoggedIn (.performed (.request s head) o r :: log) s ∨ (k r).Takes s x := by
  rcases h with hin | rfl | htakes
  · exact Or.inl (hin.cons _)
  · exact Or.inl ⟨head, x, List.mem_cons_self ..⟩
  · exact Or.inr (htakes r trivial)

theorem registryOk_perform (h : RegistryOk env C) {i : Nat} {c : Choice} {e : Event} {o : Op}
    {k : o.Res → Prog Bool} (hthread : C.thread i = some ⟨e, .op o k⟩) : RegistryOk env
      { server := (exec env o c C.server).2
        threads := C.threads.set i (some { event := e, rest := k (exec env o c C.server).1 })
        log := .performed e o (exec env o c C.server).1 :: C.log } := by
  set r := (exec env o c C.server).1 with hr
  obtain ⟨out', hrest, hmoved⟩ := moved_perform (c := c) h hthread
  have hown := h.threads i _ hthread
  have hcases : ∀ j t, (C.threads.set i (some (Thread.mk e (k r)))).getD j none = some t →
      j = i ∧ t = ⟨e, k r⟩ ∨ j ≠ i ∧ C.thread j = some t := by
    intro j t hj
    rw [Conc.getD_set (Conc.lt_of_thread hthread)] at hj
    split at hj
    · next he => exact Or.inl ⟨he, (Option.some.inj hj).symm⟩
    · next hne => exact Or.inr ⟨hne, hj⟩
  -- another handler has another owner
  have hother : ∀ j t s, j ≠ i → C.thread j = some t → t.event.owner = some s →
      e.owner ≠ some s := fun j t s hne hj ht he =>
    hne (h.exclusive j i t _ s hj hthread ht he)
  refine
    { listed := hmoved.accountId, unstarted := fun s hs => ?_, exclusive := ?_, threads := ?_,
      finished := fun s head hmem hlogin => ?_ }
  · have hold : (C.server.sessions s).started = false := (hmoved.started s).symm.trans hs
    have hnot : e.owner ≠ some s := by
      intro he
      rw [hown.started s he] at hold
      cases hold
    obtain ⟨hlisted, hstatus, hlog⟩ := h.unstarted s hold
    refine ⟨fun k hk => ?_, hmoved.status s hnot hstatus, fun hin => ?_⟩
    · rcases hmoved.listed s k hk with hk | ⟨he, -⟩
      · exact hlisted k hk
      · exact hnot he
    · rcases hin.cases with hin | ⟨⟨head, rfl⟩, -⟩
      · exact hlog hin
      · exact hnot rfl
  · intro j l t u s hj hl ht hu
    rcases hcases j t hj with ⟨rfl, rfl⟩ | ⟨hj', hjt⟩ <;>
      rcases hcases l u hl with ⟨rfl, rfl⟩ | ⟨hl', hlu⟩
    · rfl
    · exact absurd ht (hother l u s hl' hlu hu)
    · exact absurd hu (hother j t s hj' hjt ht)
    · exact h.exclusive j l t u s hjt hlu ht hu
  · intro j t hj
    rcases hcases j t hj with ⟨rfl, rfl⟩ | ⟨hne, hjt⟩
    · refine
        { honours := (hown.honours r).2, obeys := ⟨out', hrest r, hmoved.out⟩,
          started := fun s hs => (hmoved.started s).trans (hown.started s hs),
          fresh := fun s he hin => ?_, login := fun s head he hlogin => ?_ }
      · rcases hin.cases with hin | ⟨⟨head, he'⟩, -⟩
        · exact hown.fresh s he hin
        · cases he.symm.trans he'
      · obtain rfl : e = .request s head := he
        exact login_perform r (hown.login s head rfl hlogin)
    · obtain ⟨hhonours, ⟨out, hobeys, hout⟩, hstarted, hfresh, hlogin⟩ := h.threads j t hjt
      refine
        { honours := hhonours, obeys := ⟨out, hobeys, fun ho s hs k hk => ?_⟩,
          started := fun s hs => (hmoved.started s).trans (hstarted s hs),
          fresh := fun s he hin => ?_,
          login := fun s head he hl => (hlogin s head he hl).imp (fun hin => hin.cons _) id }
      · rcases hmoved.listed s k hk with hk | ⟨he, -⟩
        · exact hout ho s hs k hk
        · exact hother j t s hne hjt hs he
      · rcases hin.cases with hin | ⟨⟨head, rfl⟩, -⟩
        · exact hfresh s he hin
        · exact hother j t s hne hjt (by rw [he]; rfl) rfl
  · exact (h.finished s head ((List.mem_cons.mp hmem).resolve_left (by simp)) hlogin).cons _

theorem registryOk_step (h : RegistryOk env C) {m : Move} {C' : Conc} (hs : C.Step env m C') :
    RegistryOk env C' := by
  cases hs with
  | begin henabled hfree => exact registryOk_begin h henabled hfree
  | perform hthread => exact registryOk_perform h hthread
  | finish hthread => exact registryOk_finish h hthread

end

/-! ## Coverage -/

/-- The session has read the store of the account `d` in the part `since` of the log, or
somebody is about to make it: a handler that reads the store for it, a handler that is about
to ask for the sessions of `d`, a waiting task, or a handler that will schedule one. -/
inductive Covered (C : Conc) (since : List Entry) (s : SessionId) (d : UInt32) : Prop
  | read (e : Event) (r : (scan s d).Res) (hmem : .performed e (scan s d) r ∈ since)
  | reading (i : Nat) (t : Thread) (ht : C.thread i = some t) (hscans : t.rest.Scans s d)
  | asking (i : Nat) (e : Event) (k : List SessionId → Prog Bool)
      (ht : C.thread i = some ⟨e, .op (.getSessions d) k⟩)
      (hscans : ∀ sessions, s ∈ sessions → (k sessions).Scans s d)
  | waiting (hmem : d ∈ C.server.tasks)
  | announcing (i : Nat) (t : Thread) (ht : C.thread i = some t) (hgets : t.rest.Gets (.schedule d))

/-- Every request that was stored, and every session that is registered under its addressee
by a login, are covered. -/
def Covers (C : Conc) : Prop :=
  ∀ since e q r before s d, C.log = since ++ .performed e (.insertRequest q) r :: before →
    q.Notifies d → s ∈ C.server.getSessions d → HasLoggedIn C.log s → Covered C since s d

/-- The task that is taken from the queue asks for the sessions; the others stay. -/
theorem mem_eraseIdx_or {tasks : List UInt32} {k : Nat} {d : UInt32} (h : d ∈ tasks) :
    tasks.getD k 0 = d ∨ d ∈ tasks.eraseIdx k := by
  obtain ⟨n, hn, rfl⟩ := List.getElem_of_mem h
  by_cases hk : n = k
  · subst hk
    exact Or.inl (by rw [List.getD_eq_getElem?_getD, List.getElem?_eq_getElem hn]; rfl)
  · exact Or.inr (List.mem_eraseIdx_iff_getElem.mpr ⟨n, hn, hk, rfl⟩)

section

variable {env : Env} {C : Conc}

/-- A task asks for the sessions of its account and has the store read for each of them. -/
theorem program_userRequests (env : Env) (σ : ServerState) (s : SessionId) {k : Nat} :
    ∃ rest : List SessionId → Prog Bool,
      Event.program env σ (.userRequests k) = .op (.getSessions (σ.tasks.getD k 0)) rest ∧
        ∀ sessions, s ∈ sessions → (rest sessions).Scans s (σ.tasks.getD k 0) := by
  refine ⟨_, rfl, fun sessions hs => ?_⟩
  have hne : sessions ≠ [] := List.ne_nil_of_mem hs
  show Prog.Scans s _ ((if sessions ≠ [] then _ else _ : Prog Unit) >>= _)
  rw [if_pos hne]
  exact Proc.reaches_bind.mpr ((scans_processUserRequests env s hs).weaken fun _ => False.elim)

theorem covers_begin (h : Covers C) {e : Event} : Covers
    { C with
      server := e.note C.server
      threads := C.threads ++ [some { event := e, rest := e.program env C.server }] } := by
  intro since e' q r before s d hlog hq hs hin
  -- an old handler is still there
  have hold : ∀ i t, C.thread i = some t →
      (C.threads ++ [some (Thread.mk e (e.program env C.server))]).getD i none = some t := by
    intro i t hi
    rw [Conc.getD_concat, if_neg (Nat.ne_of_lt (Conc.lt_of_thread hi))]
    exact hi
  have hcovered := h since e' q r before s d hlog hq (by rwa [getSessions_note] at hs) hin
  cases hcovered with
  | read e r hmem => exact .read e r hmem
  | reading i t ht hscans => exact .reading i t (hold i t ht) hscans
  | asking i e k ht hscans => exact .asking i e k (hold i _ ht) hscans
  | announcing i t ht hgets => exact .announcing i t (hold i t ht) hgets
  | waiting hmem =>
    cases e with
    | userRequests k =>
      rcases mem_eraseIdx_or (k := k) hmem with hd | hd
      · -- the task that begins is one for `d`
        obtain ⟨rest, hrest, hscans⟩ := program_userRequests env C.server s (k := k)
        subst hd
        refine .asking C.threads.length (.userRequests k) rest ?_ hscans
        show (C.threads ++ _).getD _ none = _
        rw [Conc.getD_concat, if_pos rfl, hrest]
      · exact .waiting hd
    | _ => exact .waiting hmem

theorem covers_finish (h : Covers C) {i : Nat} {e : Event} {b : Bool}
    (hthread : C.thread i = some ⟨e, .ret b⟩) : Covers
      { C with threads := C.threads.set i none, log := .ended e b :: C.log } := by
  intro since e' q r before s d hlog hq hs hin
  -- only a handler with nothing left to do is gone
  have hold : ∀ j t, C.thread j = some t → t.rest ≠ .ret b →
      (C.threads.set i none).getD j none = some t := by
    intro j t hj hne
    rw [Conc.getD_set (Conc.lt_of_thread hthread), if_neg ?_]
    · exact hj
    · rintro rfl
      rw [hthread] at hj
      exact hne (by rw [← Option.some.inj hj])
  obtain ⟨since, rfl, hrest⟩ : ∃ since', since = .ended e b :: since' ∧
      C.log = since' ++ .performed e' (.insertRequest q) r :: before := by
    cases since with
    | nil => cases hlog
    | cons x since =>
      obtain ⟨rfl, hrest⟩ := List.cons.inj hlog
      exact ⟨since, rfl, hrest⟩
  cases h since e' q r before s d hrest hq hs hin.of_ended with
  | read e r hmem => exact .read e r (List.mem_cons_of_mem _ hmem)
  | reading j t ht hscans =>
    refine .reading j t (hold j t ht ?_) hscans
    intro he
    rw [he] at hscans
    exact hscans
  | asking j e k ht hscans => exact .asking j e k (hold j _ ht (by simp)) hscans
  | waiting hmem => exact .waiting hmem
  | announcing j t ht hgets =>
    refine .announcing j t (hold j t ht ?_) hgets
    intro he
    rw [he] at hgets
    exact hgets

/-- What covered a session still does after an operation of some handler. -/
theorem Covered.perform (hr : RegistryOk env C) {i : Nat} {c : Choice} {e : Event} {o : Op}
    {k : o.Res → Prog Bool} (hthread : C.thread i = some ⟨e, .op o k⟩) {since : List Entry}
    {s : SessionId} {d : UInt32} (hs : s ∈ C.server.getSessions d) (h : Covered C since s d) :
    Covered
      { server := (exec env o c C.server).2
        threads := C.threads.set i (some { event := e, rest := k (exec env o c C.server).1 })
        log := .performed e o (exec env o c C.server).1 :: C.log }
      (.performed e o (exec env o c C.server).1 :: since) s d := by
  have hold : ∀ j t, C.thread j = some t → j ≠ i → ∀ x : Option Thread,
      (C.threads.set i x).getD j none = some t := by
    intro j t hj hne x
    rw [Conc.getD_set (Conc.lt_of_thread hthread), if_neg hne]
    exact hj
  have hnew : ∀ t, (C.threads.set i (some t)).getD i none = some t := by
    intro t
    rw [Conc.getD_set (Conc.lt_of_thread hthread), if_pos rfl]
  cases h with
  | read e r hmem => exact .read e r (List.mem_cons_of_mem _ hmem)
  | reading j t ht hscans =>
    by_cases hj : j = i
    · subst hj
      obtain rfl : (⟨e, .op o k⟩ : Thread) = t := Option.some.inj (hthread.symm.trans ht)
      rcases hscans with rfl | hscans
      · exact .read e _ (List.mem_cons_self ..)
      · refine .reading j _ (hnew _) (hscans _ ?_)
        cases o with
        | accountId t =>
          rintro rfl
          exact hr.listed t d hs
        | _ => exact trivial
    · exact .reading j t (hold j t ht hj _) hscans
  | asking j e' k' ht hscans =>
    by_cases hj : j = i
    · subst hj
      have he := Option.some.inj (hthread.symm.trans ht)
      cases he
      exact .reading j _ (hnew _) (hscans _ hs)
    · exact .asking j e' k' (hold j _ ht hj _) hscans
  | waiting hmem =>
    obtain ⟨out', -, hmoved⟩ := moved_perform (c := c) hr hthread
    exact .waiting (hmoved.tasks d hmem)
  | announcing j t ht hgets =>
    by_cases hj : j = i
    · subst hj
      obtain rfl : (⟨e, .op o k⟩ : Thread) = t := Option.some.inj (hthread.symm.trans ht)
      rcases hgets with rfl | hgets
      · exact .waiting (List.mem_append_right _ (List.mem_singleton.mpr rfl))
      · exact .announcing j _ (hnew _) (hgets _ trivial)
    · exact .announcing j t (hold j t ht hj _) hgets

theorem covers_perform (hr : RegistryOk env C) (h : Covers C) {i : Nat} {c : Choice} {e : Event}
    {o : Op} {k : o.Res → Prog Bool} (hthread : C.thread i = some ⟨e, .op o k⟩) : Covers
      { server := (exec env o c C.server).2
        threads := C.threads.set i (some { event := e, rest := k (exec env o c C.server).1 })
        log := .performed e o (exec env o c C.server).1 :: C.log } := by
  intro since e' q r before s d hlog hq hs hin
  have hown := hr.threads i _ hthread
  have hduty := (hown.honours (exec env o c C.server).1).1
  have hnew : ∀ t, (C.threads.set i (some t)).getD i none = some t := by
    intro t
    rw [Conc.getD_set (Conc.lt_of_thread hthread), if_pos rfl]
  cases since with
  | nil =>
    -- the request is stored by this operation
    obtain ⟨he, -⟩ := List.cons.inj hlog
    cases he
    exact .announcing i _ (hnew _) (hduty d hq)
  | cons x since =>
    obtain ⟨rfl, hrest⟩ := List.cons.inj hlog
    obtain ⟨out', -, hmoved⟩ := moved_perform (c := c) hr hthread
    rcases hmoved.listed s d hs with hs' | ⟨howner, rfl⟩
    · refine Covered.perform hr hthread hs' (h since e' q r before s d hrest hq hs' ?_)
      rcases hin.cases with hin | ⟨⟨head, rfl⟩, x, rfl⟩
      · exact hin
      · -- a session whose account changes is in no list
        exact absurd hs (hmoved.out (hmoved.moves s x rfl) s rfl d)
    · -- the session has just been registered, and reads the store next
      refine .reading i _ (hnew _) (hduty ?_ d)
      intro hconnect
      cases e with
      | connect t =>
        obtain rfl : t = s := Option.some.inj howner
        rcases hin.cases with hin | ⟨⟨head, he⟩, -⟩
        · exact hown.fresh t rfl hin
        · cases he
      | _ => exact hconnect

/-- Whatever is interleaved, the registry stays in order and everybody is covered. -/
theorem covers_afterMoves (env : Env) (ms : List Move) :
    RegistryOk env (afterMoves env ms) ∧ Covers (afterMoves env ms) := by
  refine Conc.invariant_afterMoves (R := fun _ => True) (P := fun C => RegistryOk env C ∧ Covers C)
    ⟨registryOk_init, ?_⟩ ?_ fun _ _ => trivial
  · rintro since e q r before s d hlog
    cases since <;> cases hlog
  · rintro C m C' - hs ⟨hr, hc⟩
    refine ⟨registryOk_step hr hs, ?_⟩
    cases hs with
    | begin henabled hfree => exact covers_begin hc
    | perform hthread => exact covers_perform hr hc hthread
    | finish hthread => exact covers_finish hc hthread

end

/-! ## When everybody is done -/

/-- A read of the stored requests that threw. -/
def Entry.failedScan : Entry → Bool
  | .performed _ (.findRequests _ _) (.error _) => true
  | _ => false

/-- **No lost notification.**  However handlers and tasks are interleaved: when nothing is
under way and no task is waiting, a session that finished a login and is registered under
`d` has read the store for `d` after every request that was stored for `d`, if no such read
threw. -/
theorem no_lost_notification (env : Env) (ms : List Move)
    (hdone : ∀ i, (afterMoves env ms).thread i = none)
    (htasks : (afterMoves env ms).server.tasks = [])
    (hdb : ∀ x ∈ (afterMoves env ms).log, x.failedScan = false)
    {since before : List Entry} {e : Event} {q : Request} {r : DbAnswer Unit}
    (hlog : (afterMoves env ms).log = since ++ .performed e (.insertRequest q) r :: before)
    {d : UInt32} (hq : q.Notifies d) {s : SessionId}
    (hs : s ∈ (afterMoves env ms).server.getSessions d) {head : UBJ.Object}
    (hlogin : IsLogin env head)
    (hended : Entry.ended (.request s head) true ∈ (afterMoves env ms).log) :
    ∃ e' rs, Entry.performed e' (scan s d) (.ok rs) ∈ since := by
  obtain ⟨hr, hc⟩ := covers_afterMoves env ms
  have hin := hr.finished s head hended hlogin
  -- nobody is left who could still be about to read
  cases hc since e q r before s d hlog hq hs hin with
  | read e' r' hmem =>
    cases r' with
    | ok rs => exact ⟨e', rs, hmem⟩
    | error u =>
      have hfailed := hdb (.performed e' (scan s d) (.error u))
        (by rw [hlog]; exact List.mem_append_left _ hmem)
      cases hfailed
  | reading i t ht hscans => rw [hdone i] at ht; cases ht
  | asking i e' k ht hscans => rw [hdone i] at ht; cases ht
  | announcing i t ht hgets => rw [hdone i] at ht; cases ht
  | waiting hmem => rw [htasks] at hmem; cases hmem

/-- A handler that runs in place `i` without being interrupted. -/
def uninterrupted (i : Nat) (e : Event) (c : Choice) : List Move :=
  List.replicate 40 (.proceed i c) ++ [.begin e]

/-- Session 0 creates the account 1 and logs in to it, session 1 the account 2, from which it
pushes to the account 1. -/
def pushMoves : List Move :=
  uninterrupted 9 (.userRequests 0) {} ++
  ([(samplePush 1 7 1).event, (sampleLogin 1 2).event,
      .request 1 (sampleRequest .createAccount 1
        [("name", .string "b"), ("password", .buffer (List.replicate 32 0))]),
      .handshake 1 false, .connect 1,
      (sampleLogin 0 1).event,
      .request 0 (sampleRequest .createAccount 1
        [("name", .string "a"), ("password", .buffer (List.replicate 32 0))]),
      .handshake 0 false, .connect 0].zipIdx.map fun x =>
    uninterrupted (8 - x.2) x.1
      { word := 1000 + UInt32.ofNat x.2, salt := List.replicate 32 0 }).flatten

/-- The insertion of a request that is announced to `d`. -/
def Entry.stores (d : UInt32) : Entry → Bool
  | .performed _ (.insertRequest q) _ => decide (q.Notifies d)
  | _ => false

/-- The end of a successful login of the session. -/
def Entry.endsLogin (env : Env) (s : SessionId) : Entry → Bool
  | .ended (.request t head) b =>
    b && t == s && env.decode (head.get "requestType").toInt == some .login
  | _ => false

theorem no_lost_notification_push : ∃ since before e q r e' rs,
    (afterMoves sampleEnv pushMoves).log = since ++ .performed e (.insertRequest q) r :: before ∧
      q.Notifies 1 ∧ Entry.performed e' (scan 0 1) (.ok rs) ∈ since := by
  have hstored : (afterMoves sampleEnv pushMoves).log.any (·.stores 1) = true := by decide +kernel
  have hended : (afterMoves sampleEnv pushMoves).log.any (·.endsLogin sampleEnv 0) = true := by
    decide +kernel
  have hdone : (afterMoves sampleEnv pushMoves).threads.all (·.isNone) = true := by decide +kernel
  have hscans : (afterMoves sampleEnv pushMoves).log.all (!·.failedScan) = true := by decide +kernel
  obtain ⟨x, hx, hstores⟩ := List.any_eq_true.mp hstored
  obtain ⟨y, hy, hends⟩ := List.any_eq_true.mp hended
  obtain ⟨since, before, hlog⟩ := List.append_of_mem hx
  have hthread : ∀ i, (afterMoves sampleEnv pushMoves).thread i = none := by
    intro i
    cases hi : (afterMoves sampleEnv pushMoves).thread i with
    | none => rfl
    | some t =>
      have hmem : some t ∈ (afterMoves sampleEnv pushMoves).threads := by
        rw [← hi, Conc.thread, List.getD_eq_getElem _ _ (Conc.lt_of_thread hi)]
        exact List.getElem_mem _
      exact absurd (List.all_eq_true.mp hdone _ hmem) (by simp)
  cases x with
  | ended e b => cases hstores
  | performed e o r =>
    cases o with
    | insertRequest q =>
      cases y with
      | performed e' o' r' => cases hends
      | ended e' b =>
        cases e' with
        | request t head =>
          simp only [Entry.endsLogin, Bool.and_eq_true, beq_iff_eq] at hends
          obtain ⟨⟨rfl, rfl⟩, hlogin⟩ := hends
          have hq : q.Notifies 1 := of_decide_eq_true hstores
          obtain ⟨e', rs, hread⟩ := no_lost_notification sampleEnv pushMoves hthread
            (by decide +kernel) (fun z hz => by simpa using List.all_eq_true.mp hscans z hz) hlog hq
            (by decide +kernel) hlogin hy
          exact ⟨since, before, e, q, r, e', rs, hlog, hq, hread⟩
        | _ => cases hends
    | _ => cases hstores

end ZwayServer
