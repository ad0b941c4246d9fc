import ZwayServer.Invariants

/-!
# The session registry

`m_sessions` maps an account id to the list of its sessions, and the id is a field of the
session that changes between removal and insertion.  The operations of the registry are
taken one by one here, in any order and for any sessions.

* `RegistryOp`, `afterOps` — the operations, and a run of them.
* `RegistryInv` — a session is listed once, under its own id, and no list is empty.
* `registry_law` — that, and an operation on one session leaves the places of the others.
* `afterOps_simulates` — the server does nothing else to its registry.
-/

namespace ZwayServer

/-! ## The operations -/

/-- What is done to the registry.  A session is started once, and the rest happens to sessions
that have been started. -/
inductive RegistryOp where
  /-- `ClientSession::start`, with the temporary id that it draws. -/
  | start (s : SessionId) (id : UInt32)
  /-- A successful login, to whichever account. -/
  | login (s : SessionId) (id : UInt32)
  /-- A logout. -/
  | logout (s : SessionId)
  /-- `ClientSession::close`. -/
  | close (s : SessionId) (remove : Bool)
  /-- `Server::removeSessions`. -/
  | removeSessions
  deriving DecidableEq

namespace RegistryOp

/-- The session that the operation is about. -/
def session : RegistryOp → Option SessionId
  | start s _ => some s
  | login s _ => some s
  | logout s => some s
  | close s _ => some s
  | removeSessions => none

/-- Can the operation take place? -/
def Enabled (σ : ServerState) : RegistryOp → Prop
  | start s _ => (σ.sessions s).started = false
  | login s _ => (σ.sessions s).started = true
  | logout s => (σ.sessions s).started = true
  | close s _ => (σ.sessions s).started = true
  | removeSessions => True

instance (σ : ServerState) (op : RegistryOp) : Decidable (op.Enabled σ) := by
  cases op <;> unfold Enabled <;> infer_instance

/-- What the operation does. -/
def effect (σ : ServerState) : RegistryOp → ServerState
  | start s id => σ.connect s id
  | login s id => σ.login s id
  | logout s => σ.setStatus s .connected
  | close s remove => if remove then σ.close s else σ.setStatus s .disconnected
  | removeSessions => σ.closeAll

/-- One operation. -/
def apply (σ : ServerState) (op : RegistryOp) : ServerState :=
  if op.Enabled σ then op.effect σ else σ

end RegistryOp

/-- Where a run of operations leads, newest first. -/
def afterOps : List RegistryOp → ServerState
  | [] => {}
  | op :: ops => op.apply (afterOps ops)

/-! ## The invariant -/

/-- A session is listed under its own account id only, once, and after it was started; no key
has an empty list. -/
structure RegistryInv (σ : ServerState) : Prop where
  listed : ∀ s k, s ∈ σ.getSessions k → (σ.sessions s).accountId = k
  started : ∀ s k, s ∈ σ.getSessions k → (σ.sessions s).started = true
  nodup : ∀ k, (σ.getSessions k).Nodup
  nonempty : ∀ k ∈ σ.registry, σ.getSessions k ≠ []

namespace RegistryInv

variable {σ σ' : ServerState}

theorem init : RegistryInv {} where
  listed s k hs := by simp [ServerState.getSessions] at hs
  started s k hs := by simp [ServerState.getSessions] at hs
  nodup k := by simp [ServerState.getSessions]
  nonempty k hk := by simp at hk

/-- A change that leaves the registry alone, and the account of every session that is listed. -/
theorem of_eq (h : RegistryInv σ) (hr : σ'.registry = σ.registry)
    (hid : ∀ s k, s ∈ σ.getSessions k → (σ'.sessions s).accountId = (σ.sessions s).accountId)
    (hstarted : ∀ s, (σ.sessions s).started = true → (σ'.sessions s).started = true) :
    RegistryInv σ' := by
  have hget : ∀ k, σ'.getSessions k = σ.getSessions k := fun k => by
    rw [ServerState.getSessions, hr, ServerState.getSessions]
  refine ⟨fun s k hs => ?_, fun s k hs => ?_, fun k => ?_, fun k hk => ?_⟩
  · rw [hget] at hs
    rw [hid s k hs]
    exact h.listed s k hs
  · rw [hget] at hs
    exact hstarted s (h.started s k hs)
  · rw [hget]
    exact h.nodup k
  · rw [hr] at hk
    rw [hget]
    exact h.nonempty k hk

/-- Taking a session out of the list under its account id takes it out of the registry. -/
theorem not_mem_removeSession (h : RegistryInv σ) (s : SessionId) (k : UInt32) :
    s ∉ (σ.removeSession s).getSessions k := by
  intro hmem
  obtain ⟨hs, hne⟩ := σ.mem_getSessions_removeSession.mp hmem
  exact hne (h.listed s k hs) rfl

theorem mem_of_mem_removeSession {s t : SessionId} {k : UInt32}
    (ht : t ∈ (σ.removeSession s).getSessions k) : t ∈ σ.getSessions k :=
  (σ.mem_getSessions_removeSession.mp ht).1

theorem removeSession (h : RegistryInv σ) (s : SessionId) : RegistryInv (σ.removeSession s) := by
  refine ⟨fun t k ht => ?_, fun t k ht => ?_, fun k => ?_, fun k hk => ?_⟩
  · rw [ServerState.sessions_removeSession]
    exact h.listed t k (mem_of_mem_removeSession ht)
  · rw [ServerState.sessions_removeSession]
    exact h.started t k (mem_of_mem_removeSession ht)
  · rw [ServerState.getSessions_removeSession]
    split
    · exact (h.nodup k).filter _
    · exact h.nodup k
  · rw [ServerState.getSessions_removeSession]
    rw [ServerState.removeSession] at hk
    by_cases hmem : (σ.sessions s).accountId ∈ σ.registry
    · rw [if_pos hmem] at hk
      dsimp only at hk
      by_cases hnil : (σ.getSessions (σ.sessions s).accountId).filter (· ≠ s) = []
      · -- the key of an empty list is erased
        rw [if_pos hnil] at hk
        obtain ⟨hne, hk⟩ := Std.TreeMap.mem_erase.mp hk
        have hid : (σ.sessions s).accountId ≠ k := by simpa using hne
        rw [if_neg hid]
        exact h.nonempty k hk
      · rw [if_neg hnil] at hk
        split
        · next he =>
          rw [he] at hnil
          exact hnil
        · next hid =>
          have hold : k ∈ σ.registry := by
            rcases Std.TreeMap.mem_insert.mp hk with he | hold
            · exact absurd (by simpa using he) hid
            · exact hold
          exact h.nonempty k hold
    · rw [if_neg hmem] at hk
      split
      · next he => exact absurd hk (he ▸ hmem)
      · exact h.nonempty k hk

/-- A session that is in no list is put at the end of the one under its id. -/
theorem appendSession (h : RegistryInv σ) {s : SessionId} (hs : ∀ k, s ∉ σ.getSessions k)
    (hstarted : (σ.sessions s).started = true) : RegistryInv (σ.appendSession s) := by
  refine ⟨fun t k ht => ?_, fun t k ht => ?_, fun k => ?_, fun k hk => ?_⟩
  · rcases σ.mem_getSessions_appendSession.mp ht with ht | ⟨rfl, he⟩
    · exact h.listed t k ht
    · exact he
  · rcases σ.mem_getSessions_appendSession.mp ht with ht | ⟨rfl, he⟩
    · exact h.started t k ht
    · exact hstarted
  · rw [ServerState.getSessions_appendSession]
    split
    · refine List.nodup_append.mpr ⟨h.nodup k, List.nodup_singleton s, ?_⟩
      rintro t ht u hu rfl
      exact hs k (List.mem_singleton.mp hu ▸ ht)
    · exact h.nodup k
  · rw [ServerState.getSessions_appendSession]
    split
    · simp
    · next hid =>
      rcases Std.TreeMap.mem_insert.mp hk with he | hold
      · exact absurd (by simpa using he) hid
      · exact h.nonempty k hold

/-- The account of a session may change while it is in no list. -/
theorem modify (h : RegistryInv σ) {s : SessionId} (f : Session → Session)
    (hf : (f (σ.sessions s)).accountId = (σ.sessions s).accountId ∨ ∀ k, s ∉ σ.getSessions k)
    (hstarted : (σ.sessions s).started = true → (f (σ.sessions s)).started = true) :
    RegistryInv (σ.modify s f) := by
  refine h.of_eq rfl (fun t k ht => ?_) fun t ht => ?_
  · rw [ServerState.sessions_modify]
    split
    · next he =>
      subst he
      exact hf.resolve_right fun hnot => hnot k ht
    · rfl
  · rw [ServerState.sessions_modify]
    split
    · next he =>
      subst he
      exact hstarted ht
    · exact ht

theorem setStatus (h : RegistryInv σ) (s : SessionId) (st : Status) :
    RegistryInv (σ.setStatus s st) :=
  h.modify _ (Or.inl rfl) id

theorem connect (h : RegistryInv σ) {s : SessionId} (hs : (σ.sessions s).started = false)
    (id : UInt32) : RegistryInv (σ.connect s id) := by
  have hnot : ∀ k, s ∉ σ.getSessions k := by
    intro k hk
    rw [h.started s k hk] at hs
    cases hs
  have hmodify := h.modify (s := s) (fun x => { x with started := true, accountId := id })
    (Or.inr hnot) fun _ => rfl
  exact hmodify.appendSession hnot (by simp)

theorem login (h : RegistryInv σ) {s : SessionId} (hs : (σ.sessions s).started = true)
    (id : UInt32) : RegistryInv (σ.login s id) := by
  have hstatus := h.setStatus s .loggedIn
  have hremoved := hstatus.removeSession s
  have hnot := hstatus.not_mem_removeSession s
  have hmodify := hremoved.modify (s := s) (fun x => { x with accountId := id }) (Or.inr hnot)
    fun hst => hst
  refine hmodify.appendSession hnot ?_
  simpa [ServerState.setStatus] using hs

theorem close (h : RegistryInv σ) (s : SessionId) : RegistryInv (σ.close s) :=
  (h.setStatus s .disconnected).removeSession s

theorem closeAll : RegistryInv σ.closeAll where
  listed s k hs := by simp [ServerState.closeAll, ServerState.getSessions] at hs
  started s k hs := by simp [ServerState.closeAll, ServerState.getSessions] at hs
  nodup k := by simp [ServerState.closeAll, ServerState.getSessions]
  nonempty k hk := by simp [ServerState.closeAll] at hk

/-- Every operation keeps the registry in order. -/
theorem apply (h : RegistryInv σ) (op : RegistryOp) : RegistryInv (op.apply σ) := by
  rw [RegistryOp.apply]
  split
  · next henabled =>
    cases op with
    | start s id => exact h.connect henabled id
    | login s id => exact h.login henabled id
    | logout s => exact h.setStatus s .connected
    | close s remove =>
      cases remove with
      | true => exact h.close s
      | false => exact h.setStatus s .disconnected
    | removeSessions => exact closeAll
  · exact h

end RegistryInv

theorem registryInv_afterOps (ops : List RegistryOp) : RegistryInv (afterOps ops) := by
  induction ops with
  | nil => exact .init
  | cons op ops ih => exact ih.apply op

/-! ## The law -/

section

variable {σ : ServerState}

/-- No session is listed twice, in whichever lists. -/
theorem RegistryInv.nodup_listed (h : RegistryInv σ) : σ.listed.Nodup := by
  have hget : ∀ k l, (k, l) ∈ σ.registry.toList → l = σ.getSessions k := by
    intro k l hmem
    rw [Std.TreeMap.mem_toList_iff_getElem?_eq_some] at hmem
    rw [ServerState.getSessions, Std.TreeMap.getD_eq_getD_getElem?, hmem]
    rfl
  rw [ServerState.listed, List.nodup_flatten]
  refine ⟨fun l hl => ?_, ?_⟩
  · obtain ⟨⟨k, l⟩, hmem, rfl⟩ := List.mem_map.mp hl
    rw [hget k l hmem]
    exact h.nodup k
  · rw [List.pairwise_map]
    refine List.Pairwise.imp_of_mem ?_ Std.TreeMap.distinct_keys_toList
    rintro ⟨k, l⟩ ⟨k', l'⟩ hmem hmem' hne s hs hs'
    rw [hget k l hmem] at hs
    rw [hget k' l' hmem'] at hs'
    have hk : k = k' := (h.listed s k hs).symm.trans (h.listed s k' hs')
    exact hne (by simp [hk])

/-- `getSessions` finds the registered sessions that have the account. -/
theorem RegistryInv.mem_getSessions (h : RegistryInv σ) {s : SessionId} {a : UInt32} :
    s ∈ σ.getSessions a ↔ s ∈ σ.listed ∧ (σ.sessions s).accountId = a := by
  constructor
  · intro hs
    exact ⟨(σ.mem_listed s).mpr ⟨a, hs⟩, h.listed s a hs⟩
  · rintro ⟨hs, rfl⟩
    obtain ⟨k, hk⟩ := (σ.mem_listed s).mp hs
    rwa [h.listed s k hk]

/-- The sessions listed under an id, one session left out. -/
def ServerState.others (σ : ServerState) (s : SessionId) (k : UInt32) : List SessionId :=
  (σ.getSessions k).filter (· ≠ s)

theorem others_removeSession (s : SessionId) (k : UInt32) :
    (σ.removeSession s).others s k = σ.others s k := by
  rw [ServerState.others, ServerState.getSessions_removeSession]
  split
  · rw [List.filter_filter]
    simp [ServerState.others]
  · rfl

theorem others_appendSession (s : SessionId) (k : UInt32) :
    (σ.appendSession s).others s k = σ.others s k := by
  rw [ServerState.others, ServerState.getSessions_appendSession]
  split
  · simp [ServerState.others, List.filter_append]
  · rfl

/-- An operation on one session leaves the others where they are, in their order. -/
theorem others_apply (op : RegistryOp) {s : SessionId} (hs : op.session = some s) (k : UInt32) :
    (op.apply σ).others s k = σ.others s k := by
  rw [RegistryOp.apply]
  split
  · cases op with
    | start t id =>
      obtain rfl : t = s := Option.some.inj hs
      exact others_appendSession t k
    | login t id =>
      obtain rfl : t = s := Option.some.inj hs
      exact (others_appendSession t k).trans (others_removeSession t k)
    | logout t => rfl
    | close t remove =>
      obtain rfl : t = s := Option.some.inj hs
      cases remove with
      | true => exact others_removeSession t k
      | false => rfl
    | removeSessions => cases hs
  · rfl

end

/-- **The session registry.**  After any run of operations a session occurs at most once in the
whole map, only in the list under its current account id, and no key has an empty list; so
`getSessions` finds exactly the registered sessions of an account.  An operation on one
session leaves all others where they are. -/
theorem registry_law (ops : List RegistryOp) :
    (afterOps ops).listed.Nodup ∧
      (∀ s k, s ∈ (afterOps ops).getSessions k → ((afterOps ops).sessions s).accountId = k) ∧
      (∀ k ∈ (afterOps ops).registry, (afterOps ops).getSessions k ≠ []) ∧
      (∀ s a, s ∈ (afterOps ops).getSessions a ↔
        s ∈ (afterOps ops).listed ∧ ((afterOps ops).sessions s).accountId = a) ∧
      ∀ (op : RegistryOp) (s : SessionId) (k : UInt32), op.session = some s →
        (op.apply (afterOps ops)).others s k = (afterOps ops).others s k := by
  have h := registryInv_afterOps ops
  exact ⟨h.nodup_listed, h.listed, h.nonempty, fun s a => h.mem_getSessions,
    fun op s k hs => others_apply op hs k⟩

/-! ## The server and its registry -/

/-- The two states agree on the registry and on what the operations look at. -/
structure SameRegistry (σ σ' : ServerState) : Prop where
  registry : σ'.registry = σ.registry
  accountId : ∀ s, (σ'.sessions s).accountId = (σ.sessions s).accountId
  started : ∀ s, (σ'.sessions s).started = (σ.sessions s).started

namespace SameRegistry

variable {σ σ' σ'' : ServerState}

theorem refl (σ : ServerState) : SameRegistry σ σ := ⟨rfl, fun _ => rfl, fun _ => rfl⟩

theorem trans (h : SameRegistry σ σ') (h' : SameRegistry σ' σ'') : SameRegistry σ σ'' where
  registry := h'.registry.trans h.registry
  accountId s := (h'.accountId s).trans (h.accountId s)
  started s := (h'.started s).trans (h.started s)

theorem of_unmoved (h : Unmoved σ σ') : SameRegistry σ σ' := ⟨h.registry, h.accountId, h.started⟩

theorem getSessions (h : SameRegistry σ σ') (k : UInt32) : σ'.getSessions k = σ.getSessions k := by
  rw [ServerState.getSessions, h.registry, ServerState.getSessions]

theorem modify (h : SameRegistry σ σ') (s : SessionId) (f g : Session → Session)
    (hid : (g (σ'.sessions s)).accountId = (f (σ.sessions s)).accountId)
    (hstarted : (g (σ'.sessions s)).started = (f (σ.sessions s)).started) :
    SameRegistry (σ.modify s f) (σ'.modify s g) where
  registry := h.registry
  accountId t := by
    by_cases ht : t = s
    · simp [ht, hid]
    · simp [ht, h.accountId]
  started t := by
    by_cases ht : t = s
    · simp [ht, hstarted]
    · simp [ht, h.started]

theorem setStatus (h : SameRegistry σ σ') (s : SessionId) (st : Status) :
    SameRegistry (σ.setStatus s st) (σ'.setStatus s st) :=
  h.modify s _ _ (h.accountId s) (h.started s)

theorem removeSession (h : SameRegistry σ σ') (s : SessionId) :
    SameRegistry (σ.removeSession s) (σ'.removeSession s) where
  registry := by
    rw [ServerState.removeSession, ServerState.removeSession, h.accountId, h.getSessions,
      h.registry]
    split <;> simp [h.registry]
  accountId t := by simpa using h.accountId t
  started t := by simpa using h.started t

theorem appendSession (h : SameRegistry σ σ') (s : SessionId) :
    SameRegistry (σ.appendSession s) (σ'.appendSession s) where
  registry := by
    show σ'.registry.insert _ (σ'.getSessions _ ++ [s]) =
      σ.registry.insert _ (σ.getSessions _ ++ [s])
    rw [h.accountId, h.getSessions, h.registry]
  accountId := h.accountId
  started := h.started

theorem connect (h : SameRegistry σ σ') (s : SessionId) (id : UInt32) :
    SameRegistry (σ.connect s id) (σ'.connect s id) :=
  (h.modify s _ _ rfl rfl).appendSession s

theorem login (h : SameRegistry σ σ') (s : SessionId) (id : UInt32) :
    SameRegistry (σ.login s id) (σ'.login s id) := by
  have hremoved := (h.setStatus s .loggedIn).removeSession s
  exact (hremoved.modify s _ _ rfl (hremoved.started s)).appendSession s

theorem close (h : SameRegistry σ σ') (s : SessionId) : SameRegistry (σ.close s) (σ'.close s) :=
  (h.setStatus s .disconnected).removeSession s

theorem closeAll (h : SameRegistry σ σ') : SameRegistry σ.closeAll σ'.closeAll where
  registry := rfl
  accountId t := by
    have hlisted : σ'.listed = σ.listed := by
      rw [ServerState.listed, h.registry, ServerState.listed]
    by_cases ht : t ∈ σ.listed <;>
      simp only [ServerState.closeAll, hlisted, ht, if_true, if_false] <;>
      exact h.accountId t
  started t := by
    have hlisted : σ'.listed = σ.listed := by
      rw [ServerState.listed, h.registry, ServerState.listed]
    by_cases ht : t ∈ σ.listed <;>
      simp only [ServerState.closeAll, hlisted, ht, if_true, if_false] <;>
      exact h.started t

end SameRegistry

/-- What a step of the server does to its registry is one operation, or nothing. -/
theorem registryOp_next (env : Env) {σ τ : ServerState} (hσ : SessionInv σ) (h : SameRegistry τ σ)
    {a : Act} (hp : a.Possible σ) :
    SameRegistry τ (next env σ a) ∨
      ∃ op : RegistryOp, SameRegistry (op.apply τ) (next env σ a) := by
  have happly : ∀ op : RegistryOp, op.Enabled τ → op.apply τ = op.effect τ := fun op he => if_pos he
  by_cases hm : a.Moves env
  · obtain ⟨event, tape⟩ := a
    cases event with
    | connect s =>
      have hnot : (RegistryOp.start s (tape 0).word).Enabled τ := (h.started s).symm.trans hp.2
      refine Or.inr ⟨.start s (tape 0).word, ?_⟩
      rw [next_connect env hp, happly _ hnot]
      exact h.connect s (tape 0).word
    | handshake s error =>
      have hnoted : SameRegistry τ (σ.modify s fun x => { x with handshaken := true }) := by
        refine h.trans ⟨rfl, fun t => ?_, fun t => ?_⟩ <;>
          · rw [ServerState.sessions_modify]
            split
            · next ht => rw [ht]
            · rfl
      rw [next_handshake env hp]
      have hstarted : (τ.sessions s).started = true := (h.started s).symm.trans hp.2.1
      split
      · refine Or.inr ⟨.close s true, ?_⟩
        rw [happly (.close s true) hstarted]
        exact hnoted.close s
      · refine Or.inr ⟨.logout s, ?_⟩
        rw [happly (.logout s) hstarted]
        exact hnoted.setStatus s .connected
    | request s head =>
      have hstarted : (τ.sessions s).started = true :=
        (h.started s).symm.trans ((hσ s).shaken ((hσ s).connected hp.2))
      cases next_request env hp with
      | refused _ hq => exact Or.inl (h.trans (.of_unmoved (.of_delivers hq)))
      | edited _ _ he => exact Or.inl (h.trans (.of_unmoved (.of_edits he)))
      | created a _ _ _ hq =>
        have hinsert : SameRegistry τ (σ.insertAccount a) := { h with }
        exact Or.inl (hinsert.trans (.of_unmoved (.of_delivers hq)))
      | loggedOut _ _ hq =>
        refine Or.inr ⟨.logout s, ?_⟩
        rw [happly (.logout s) hstarted]
        exact (h.setStatus s .connected).trans (.of_unmoved (.of_delivers hq))
      | loggedIn x _ _ hd =>
        refine Or.inr ⟨.login s x, ?_⟩
        rw [happly (.login s x) hstarted]
        exact (h.login s x).trans (.of_unmoved (.of_delivers hd))
    | disconnect s =>
      have hstarted : (τ.sessions s).started = true :=
        (h.started s).symm.trans ((hσ s).shaken ((hσ s).connected hp.2))
      refine Or.inr ⟨.close s true, ?_⟩
      rw [next_disconnect env hp, happly (.close s true) hstarted]
      exact h.close s
    | removeSessions =>
      refine Or.inr ⟨.removeSessions, ?_⟩
      rw [next_removeSessions env hp]
      exact h.closeAll
    | _ => exact hm.elim
  · exact Or.inl (h.trans (.of_unmoved (unmoved_next env hp hm)))

/-- **The server does nothing else to its registry.**  Every run of the server is, seen from the
registry, a run of the operations. -/
theorem afterOps_simulates (env : Env) (tr : List Act) :
    ∃ ops, SameRegistry (afterOps ops) (after env tr) := by
  induction tr with
  | nil => exact ⟨[], .refl _⟩
  | cons a tr ih =>
    obtain ⟨ops, h⟩ := ih
    by_cases hp : a.Possible (after env tr)
    · rcases registryOp_next env (sessionInv_after env tr) h hp with hsame | ⟨op, hsame⟩
      · exact ⟨ops, hsame⟩
      · exact ⟨op :: ops, hsame⟩
    · refine ⟨ops, ?_⟩
      rw [after_cons, next_of_not_possible hp]
      exact h

/-- So the registry is in order after every run of the server. -/
theorem registryInv_after (env : Env) (tr : List Act) : RegistryInv (after env tr) := by
  obtain ⟨ops, h⟩ := afterOps_simulates env tr
  have hinv := registryInv_afterOps ops
  exact hinv.of_eq h.registry (fun s _ _ => h.accountId s) fun s hs => (h.started s).trans hs

end ZwayServer
