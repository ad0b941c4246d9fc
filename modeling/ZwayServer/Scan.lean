import ZwayServer.System
import ZwayServer.Keyed

/-!
# Scanning the stored requests

`processRequests` reads what is stored for the account of a session and posts it to the
client, but for what is already waiting for an answer.  It is called whenever there may be
something new, and so again and again over the same store.

* `Posts` — exactly these records are posted.
* `run_processRequests_posts` — the records that a scan posts: those with new keys.
* `ScanLaw` — a scan leaves nothing behind and posts nothing twice, and another scan of the
  same store does nothing.
* `scanLaw` — every scan obeys the law.
-/

namespace ZwayServer

open ClientSession

/-- The types that the switch of `processRequests` knows. -/
def RequestType.isDelivered : RequestType → Bool
  | .dispatch | .addContact | .acceptContact | .rejectContact | .push => true
  | _ => false

/-- The record is of such a type. -/
def Record.isDelivered (r : Record) : Bool := r.type.isDelivered

/-- What `requestPending` asks for. -/
def Posted.key (p : Posted) : RequestType × UInt32 := (p.type, p.id)

/-- The same of a stored record. -/
def Record.key (r : Record) : RequestType × UInt32 := (r.type, r.id)

/-- The types and ids of the requests that wait for an answer. -/
def outstanding (σ : ServerState) (s : SessionId) : List (RequestType × UInt32) :=
  (σ.sessions s).posted.map Posted.key

/-- Exactly the records `rs` are posted to the session, one after the other. -/
def Posts (s : SessionId) (rs : List Record) (σ σ' : ServerState) : Prop :=
  ∃ ps : List Posted, (σ'.sessions s).posted = (σ.sessions s).posted ++ ps ∧
    (σ'.sessions s).outbox =
      (σ.sessions s).outbox ++ ps.map (fun p => .request p.type p.id p.head) ∧
    ps.map Posted.record = rs ∧ ∀ p ∈ ps, p.key = p.record.key

namespace Posts

variable {s : SessionId} {rs rs' : List Record} {σ σ' σ'' : ServerState}

theorem refl (s : SessionId) (σ : ServerState) : Posts s [] σ σ :=
  ⟨[], by simp, by simp, rfl, by simp⟩

theorem trans (h : Posts s rs σ σ') (h' : Posts s rs' σ' σ'') : Posts s (rs ++ rs') σ σ'' := by
  obtain ⟨ps, hposted, houtbox, hrecords, hkeys⟩ := h
  obtain ⟨ps', hposted', houtbox', hrecords', hkeys'⟩ := h'
  refine ⟨ps ++ ps', ?_, ?_, ?_, fun p hp => ?_⟩
  · rw [hposted', hposted, List.append_assoc]
  · rw [houtbox', houtbox, List.map_append, List.append_assoc]
  · rw [List.map_append, hrecords, hrecords']
  · rcases List.mem_append.mp hp with hp | hp
    · exact hkeys p hp
    · exact hkeys' p hp

theorem outstanding (h : Posts s rs σ σ') :
    outstanding σ' s = outstanding σ s ++ rs.map Record.key := by
  obtain ⟨ps, hposted, -, rfl, hkeys⟩ := h
  rw [ZwayServer.outstanding, hposted, List.map_append, List.map_map]
  exact congrArg (_ ++ ·) (List.map_congr_left hkeys)

end Posts

/-! ## One round -/

section

variable (env : Env) (s : SessionId) (w : World)

/-- The engine knows what is waiting for an answer. -/
theorem requestPending_iff (r : Record) :
    (step env (.requestPending s r.type r.id) w).1 = true ↔ r.key ∈ outstanding w.server s := by
  show ((w.server.sessions s).posted.any fun p => p.type == r.type && p.id == r.id) = true ↔ _
  simp [outstanding, Posted.key, Record.key]

/-- A record that is waiting for an answer, or of another type, is left alone. -/
theorem run_processRequest_skip {r : Record}
    (h : r.isDelivered = true → r.key ∈ outstanding w.server s) :
    Proc.run (step env) (processRequest env s r) w = ((), w) := by
  rw [processRequest, Proc.run_bind, Proc.run_perform, Proc.run_ite]
  split
  · rfl
  · next hpending =>
    have hnew : r.key ∉ outstanding w.server s := fun hmem =>
      hpending ((requestPending_iff env s w r).mpr hmem)
    cases ht : r.type with
    | dispatch | addContact | acceptContact | rejectContact | push =>
      exact absurd (h (by rw [Record.isDelivered, ht]; rfl)) hnew
    | _ => rfl

theorem posts_postRequest (p : Posted) (hkey : p.key = p.record.key) (w' : World)
    (hposted : (w'.server.sessions s).posted = (w.server.sessions s).posted)
    (houtbox : (w'.server.sessions s).outbox = (w.server.sessions s).outbox) :
    Posts s [p.record] w.server (Proc.run (step env) (postRequest s p) w').2.server := by
  refine ⟨[p], ?_, ?_, rfl, fun q hq => ?_⟩
  · rw [Proc.run_perform]
    simp [step, exec, ServerState.send, hposted]
  · rw [Proc.run_perform]
    simp [step, exec, ServerState.send, houtbox]
  · rw [List.mem_singleton.mp hq]
    exact hkey

/-- Any other is posted. -/
theorem run_processRequest_posts {r : Record} (ht : r.isDelivered = true)
    (hnew : r.key ∉ outstanding w.server s) :
    Posts s [r] w.server (Proc.run (step env) (processRequest env s r) w).2.server := by
  rw [processRequest, Proc.run_bind, Proc.run_perform, Proc.run_ite,
    if_neg fun hpending => hnew ((requestPending_iff env s w r).mp hpending)]
  cases htype : r.type with
  | dispatch | addContact | rejectContact | push =>
    exact posts_postRequest env s w ⟨_, r.id, postedHead env r 0, r⟩
      (by simp [Posted.key, Record.key, htype]) w rfl rfl
  | acceptContact =>
    dsimp only
    rw [Proc.run_bind, run_getContactStatus, Proc.run_bind, Proc.run_perform]
    refine posts_postRequest env s w ⟨_, r.id, postedHead env r _, r⟩ (by simp [Posted.key,
      Record.key, htype]) _ ?_ ?_
    · show ((w.putContact s r.src).server.sessions s).posted = _
      simp [World.putContact]
    · show ((w.putContact s r.src).server.sessions s).outbox = _
      simp [World.putContact]
  | _ =>
    rw [Record.isDelivered, htype] at ht
    cases ht

end

/-! ## The whole scan -/

/-- The records that a scan posts, of those that it reads: the ones of a known type whose keys
are new. -/
def scanned (σ : ServerState) (s : SessionId) (rs : List Record) : List Record :=
  Keyed.fresh Record.key (outstanding σ s) (rs.filter Record.isDelivered)

theorem run_forM_processRequest (env : Env) (s : SessionId) (rs : List Record) (w : World) :
    Posts s (scanned w.server s rs) w.server
      (Proc.run (step env) (forM rs (processRequest env s)) w).2.server := by
  induction rs generalizing w with
  | nil => exact .refl s _
  | cons r rs ih =>
    rw [Proc.run_forM_cons, scanned]
    by_cases hskip : r.isDelivered = true → r.key ∈ outstanding w.server s
    · rw [run_processRequest_skip env s w hskip]
      by_cases ht : r.isDelivered = true
      · rw [List.filter_cons_of_pos ht, Keyed.fresh, if_pos (hskip ht)]
        exact ih w
      · rw [List.filter_cons_of_neg ht]
        exact ih w
    · obtain ⟨ht, hnew⟩ := Classical.not_imp.mp hskip
      rw [List.filter_cons_of_pos ht, Keyed.fresh, if_neg hnew]
      have hround := run_processRequest_posts env s w ht hnew
      have hrest := ih (Proc.run (step env) (processRequest env s r) w).2
      rw [scanned, hround.outstanding] at hrest
      exact hround.trans hrest

/-- A scan of records that are all waiting for an answer does nothing. -/
theorem run_forM_processRequest_skip (env : Env) (s : SessionId) (rs : List Record) (w : World)
    (h : ∀ r ∈ rs, r.isDelivered = true → r.key ∈ outstanding w.server s) :
    Proc.run (step env) (forM rs (processRequest env s)) w = ((), w) := by
  induction rs with
  | nil => rfl
  | cons r rs ih =>
    rw [Proc.run_forM_cons, run_processRequest_skip env s w (h r (List.mem_cons_self ..))]
    exact ih fun r' hr' => h r' (List.mem_cons_of_mem _ hr')

/-- What is stored for an account. -/
def storedFor (σ : ServerState) (x : UInt32) : List Record :=
  σ.requests.filter fun r => r.dst == some x

theorem mem_storedFor {σ : ServerState} {x : UInt32} {r : Record} :
    r ∈ storedFor σ x ↔ r ∈ σ.requests ∧ r.dst = some x := by
  simp [storedFor]

theorem run_getRequests (env : Env) (s : SessionId) (q : RequestQuery) (w : World) :
    Proc.run (step env) (DB.getRequests s q) w =
      ((cursor (w.tape 0) (w.server.requests.filter q.matches)).docs, w.next) := by
  rw [DB.getRequests, Proc.run_bind, Proc.run_perform]
  by_cases hf : (w.tape 0).fails = true <;>
    simp [step, exec, Op.draws, cursor, CursorAnswer.docs, World.next, hf]

/-- What a scan reads: what is stored for the account, or the beginning of it if its query
throws. -/
def scanRead (w : World) (s : SessionId) : List Record :=
  (cursor (w.tape 0) (storedFor w.server (w.server.sessions s).accountId)).docs

theorem scanRead_of_succeeds {w : World} (hread : (w.tape 0).fails = false) (s : SessionId) :
    scanRead w s = storedFor w.server (w.server.sessions s).accountId := by
  rw [scanRead, cursor, hread, if_neg Bool.false_ne_true]
  rfl

theorem run_processRequests_eq (env : Env) (s : SessionId) (w : World) :
    Proc.run (step env) (processRequests env s) w =
      (true, (Proc.run (step env) (forM (scanRead w s) (processRequest env s)) w.next).2) := by
  have hquery : w.server.requests.filter
      ({ dst := some (w.server.sessions s).accountId } : RequestQuery).matches =
        storedFor w.server (w.server.sessions s).accountId := by
    refine List.filter_congr fun r _ => ?_
    rw [Bool.eq_iff_iff, RequestQuery.matches_iff]
    simp
  rw [processRequests, Proc.run_bind, Proc.run_perform, step_accountId, Proc.run_bind,
    run_getRequests, hquery, Proc.run_bind, Proc.run_pure]
  rfl

/-- **The records that are posted.** -/
theorem run_processRequests_posts (env : Env) (s : SessionId) (w : World) :
    Posts s (scanned w.server s (scanRead w s)) w.server
      (Proc.run (step env) (processRequests env s) w).2.server := by
  rw [run_processRequests_eq]
  exact run_forM_processRequest env s _ w.next

/-! ## The law -/

/-- Three things about a scan of the store by the session `s`; the first and the last, if its
query does not throw. -/
structure ScanLaw (env : Env) (σ : ServerState) (s : SessionId) (tape : Nat → Choice) : Prop where
  /-- Whatever is stored for the account, of a type that is delivered, waits for an answer. -/
  covers : (tape 0).fails = false → ∀ r ∈ σ.requests, r.dst = some (σ.sessions s).accountId →
    r.isDelivered = true →
    r.key ∈ outstanding (Prog.runOn env (processRequests env s) tape σ).2 s
  /-- Nothing waits for an answer twice. -/
  distinct : (outstanding σ s).Nodup →
    (outstanding (Prog.runOn env (processRequests env s) tape σ).2 s).Nodup
  /-- Another scan of the same store, before an answer arrives, changes nothing at all. -/
  again : (tape 0).fails = false → ∀ σ' tape', σ'.requests = σ.requests →
    (σ'.sessions s).accountId = (σ.sessions s).accountId →
    outstanding σ' s = outstanding (Prog.runOn env (processRequests env s) tape σ).2 s →
    Prog.runOn env (processRequests env s) tape' σ' = (true, σ')

/-- **Scans.**  In every state of the server and of the session, a scan obeys the law. -/
theorem scanLaw (env : Env) (σ : ServerState) (s : SessionId) (tape : Nat → Choice) :
    ScanLaw env σ s tape := by
  have hposts := run_processRequests_posts env s ⟨σ, tape, []⟩
  have hcovers : (tape 0).fails = false → ∀ r ∈ σ.requests,
      r.dst = some (σ.sessions s).accountId → r.isDelivered = true →
      r.key ∈ outstanding (Prog.runOn env (processRequests env s) tape σ).2 s := by
    intro hquery r hr hdst ht
    have hread : r ∈ scanRead ⟨σ, tape, []⟩ s := by
      rw [scanRead_of_succeeds hquery]
      exact mem_storedFor.mpr ⟨hr, hdst⟩
    rw [Prog.runOn, hposts.outstanding]
    exact Keyed.mem_seen_fresh (List.mem_filter.mpr ⟨hread, ht⟩)
  refine ⟨hcovers, fun hnodup => ?_, fun hquery σ' tape' hrequests haccount hsame => ?_⟩
  · rw [Prog.runOn, hposts.outstanding]
    exact Keyed.nodup_fresh _ _ hnodup
  · have hskip : ∀ r ∈ scanRead ⟨σ', tape', []⟩ s, r.isDelivered = true →
        r.key ∈ outstanding (World.next ⟨σ', tape', []⟩).server s := by
      intro r hr ht
      obtain ⟨hmem, hdst⟩ := mem_storedFor.mp (mem_docs_cursor hr)
      rw [World.next_server, hsame]
      exact hcovers hquery r (hrequests ▸ hmem) (haccount ▸ hdst) ht
    rw [Prog.runOn, run_processRequests_eq, run_forM_processRequest_skip env s _ _ hskip]
    rfl

end ZwayServer
