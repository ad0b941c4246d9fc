import ZwayServer.Accounts
import ZwayServer.Footprint
import ZwayServer.Notification

/-!
# Accounts created at the same time

The id of a new account is made from the largest id in one call of the database and stored
in another.  Between the two, other handlers may store accounts.

* `DistinctIds` — the ids are different and not zero, and no two success responses report one.
* `Separate` — an account is stored only if its handler has seen the largest id and nobody has
  stored an account since.
* `Stage`, `tracks_program` — how far a handler has got with its account.
* `Creating` — the invariant, with the id that each handler is working with.
* `distinctIds_iff` — the ids stay different exactly if the accounts are stored separately.
-/

namespace ZwayServer

open ClientSession

/-! ## The law -/

/-- The account id that a success response reports. -/
def Entry.reportedId : Entry → Option UInt32
  | .performed _ (.respond _ r) _ => r.accountId?
  | _ => none

/-- The accounts have different ids, none of them 0, and no two success responses report the
same. -/
structure DistinctIds (C : Conc) : Prop where
  nodup : (C.server.accounts.map Account.id).Nodup
  nonzero : ∀ a ∈ C.server.accounts, a.id ≠ 0
  reported : (C.log.filterMap Entry.reportedId).Nodup

/-- The last time a handler of the session asked for the largest id it was answered, and no
account has been stored since. -/
def UpToDate (s : SessionId) : List Entry → Bool
  | [] => false
  | .performed e .maxAccountId r :: log => if e.owner = some s then r.isOk else UpToDate s log
  | .performed _ (.insertAccount _) r :: log => !r.isOk && UpToDate s log
  | _ :: log => UpToDate s log

/-- An account is stored only by a handler that is up to date, and while there are fewer than
2³¹ accounts. -/
def Separate (C : Conc) : Move → Prop
  | .begin _ => True
  | .proceed i c =>
    match C.thread i with
    | some ⟨e, .op (.insertAccount _) _⟩ => C.server.terminated = false → c.fails = false →
        (∃ s, e.owner = some s ∧ UpToDate s C.log = true) ∧ C.server.accounts.length < 2 ^ 31
    | _ => True

/-! ## The handlers -/

/-- How far a handler has got with its account. -/
inductive Stage where
  | idle
  | asked (id : UInt32)
  | stored (id : UInt32)

/-- The id that is made from the answer of the database. -/
def idFrom : DbAnswer (Option UInt32) → UInt32
  | .ok m => (m.map (· + 1)).getD 1
  | .error _ => 0

/-- The next stage: an account is stored under the id that was made, and its id is reported
once it is stored. -/
def Stage.next (owner : Option SessionId) : (o : Op) → o.Res → Stage → Option Stage
  | .maxAccountId, r, _ => if owner = none then none else some (.asked (idFrom r))
  | .insertAccount a, r, .asked id =>
    if a.id = id then some (if r.isOk then .stored id else .idle) else none
  | .insertAccount _, _, _ => none
  | .respond _ r, _, stage =>
    match r.accountId?, stage with
    | none, stage => some stage
    | some id, .stored id' => if id = id' then some .idle else none
    | some _, _ => none
  | _, _, stage => some stage

/-- The program goes through the stages. -/
abbrev Prog.Creates {α : Type} (owner : Option SessionId) (p : Prog α) (stage : Stage)
    (Q : α → Stage → Prop) : Prop :=
  Proc.Tracks (fun _ _ => True) (Stage.next owner) p stage Q

/-- The operations that have nothing to do with new accounts. -/
def Op.IsForeign : Op → Prop
  | .maxAccountId | .insertAccount _ => False
  | .respond _ r => r.accountId? = none
  | _ => True

theorem Stage.next_of_foreign {owner : Option SessionId} {o : Op} (r : o.Res) (stage : Stage)
    (h : o.IsForeign) : Stage.next owner o r stage = some stage := by
  cases o with
  | maxAccountId | insertAccount => exact h.elim
  | respond s response =>
    have hnone : response.accountId? = none := h
    simp [Stage.next, hnone]
  | _ => rfl

/-- Only the handler of a `CreateAccount` request has to do with new accounts. -/
theorem foreign_of_footprint {env : Env} {e : Event} (he : ∀ s head, e = .request s head →
    env.decode (head.get "requestType").toInt ≠ some .createAccount) {o : Op}
    (h : e.Footprint env o) : o.IsForeign := by
  cases e with
  | request s head =>
    obtain ⟨t, ht, h⟩ := h
    cases t with
    | createAccount => exact absurd ht (he s head rfl)
    | login => cases o <;> first | exact trivial | exact h.2 | exact h.elim id id
    | _ => cases o <;> first | exact trivial | exact h.2 | exact h.elim
  | userRequests k =>
    cases o <;> first | exact trivial | exact h.elim fun _ hs => False.elim hs
  | _ => cases o <;> first | exact trivial | exact h.elim

theorem creates_processCreateAccount (env : Env) (s : SessionId) (head : UBJ.Object) :
    (processCreateAccount env s head).Creates (some s) .idle fun _ _ => True := by
  have hfail : ∀ stage id code text, Prog.Creates (some s) (do
      postRequestFailure s id code text
      return false) stage fun _ _ => True := fun stage id code text _ _ => ⟨stage, rfl, trivial⟩
  have hforeign : ∀ {α β : Type} {p : Prog α} {f : α → Prog β} {stage : Stage},
      Proc.Within Op.IsForeign p →
      (∀ a, (f a).Creates (some s) stage fun _ _ => True) →
      (p >>= f).Creates (some s) stage fun _ _ => True := fun hp hf =>
    .skip hp (fun _ r stage => Stage.next_of_foreign r stage) hf
  rw [processCreateAccount]
  refine hforeign (by simp [Op.IsForeign]) fun st => ?_
  split
  · exact hfail _ _ _ _
  split
  · exact hfail _ _ _ _
  split
  · exact hfail _ _ _ _
  refine hforeign (by simp [Op.IsForeign]) fun found => ?_
  split
  · exact hfail _ _ _ _
  -- the largest id is asked for, and the account is stored under the next one
  have hstore : ∀ id salt, Prog.Creates (some s) (do
      if !(← DB.insertAccount
          { id := id, name := (head.get "name").toStr, phone := (head.get "phone").toStr,
            findByName := (head.get "findByName").toBool,
            findByPhone := (head.get "findByPhone").toBool,
            pass := env.sha256 ((head.get "password").buffer?.getD [] ++ salt), salt := salt }) then
        postRequestFailure s (head.get "requestId").toInt 0 "Failed to create account"
        return false
      postRequestSuccess s (head.get "requestId").toInt [("accountId", .int32 id)]
      return true) (.asked id) fun _ _ => True := by
    rintro id salt (u | u) -
    · exact ⟨.idle, if_pos rfl, hfail _ _ _ _⟩
    · exact ⟨.stored id, if_pos rfl, fun _ _ => ⟨.idle, if_pos rfl, trivial⟩⟩
  rintro (u | m) -
  · exact ⟨.asked 0, rfl, fun salt _ => ⟨.asked 0, rfl, hstore 0 salt⟩⟩
  · cases m with
    | none => exact ⟨.asked 1, rfl, fun salt _ => ⟨.asked 1, rfl, hstore 1 salt⟩⟩
    | some m =>
      exact ⟨.asked (m + 1), rfl, fun salt _ => ⟨.asked (m + 1), rfl, hstore (m + 1) salt⟩⟩

/-- Every handler goes through the stages. -/
theorem creates_program (env : Env) (σ : ServerState) (e : Event) :
    (e.program env σ).Creates e.owner .idle fun _ _ => True := by
  by_cases he : ∃ s head, e = .request s head ∧
      env.decode (head.get "requestType").toInt = some .createAccount
  · obtain ⟨s, head, rfl, ht⟩ := he
    have hprogram : Event.program env σ (.request s head) = processCreateAccount env s head := by
      show processIncomingRequest env s head = _
      rw [processIncomingRequest, ht]
    rw [hprogram]
    exact creates_processCreateAccount env s head
  · refine .of_within (within_program env e σ) (fun o r stage ho => ?_) fun _ => trivial
    exact Stage.next_of_foreign r stage
      (foreign_of_footprint (fun s head hs ht => he ⟨s, head, hs, ht⟩) ho)

/-! ## The invariant -/

/-- Nobody but an insert changes the ids of the accounts. -/
theorem accountIds_exec (env : Env) {o : Op} (h : ∀ a, o ≠ .insertAccount a) (c : Choice)
    (σ : ServerState) : (exec env o c σ).2.accountIds = σ.accountIds := by
  by_cases hreads : o.Reads
  · rw [exec_of_reads env hreads]
  have hdb : ∀ {α : Type} {a : α} {σ' : ServerState}, σ'.accountIds = σ.accountIds →
      (dbCall c σ a σ').2.accountIds = σ.accountIds := fun hσ' =>
    dbCall_cases (P := fun τ => τ.accountIds = σ.accountIds) rfl fun _ => hσ'
  cases o with
  | insertAccount a => exact absurd rfl (h a)
  | setFcmToken id token => exact hdb (map_id_replaceF_token σ.accounts id token)
  | insertRequest | removeRequest => exact hdb rfl
  | addReceiver | addEngineSender | fopenAppend =>
    rw [exec]
    split <;> rfl
  | removeSession s =>
    rw [exec, ServerState.removeSession_eq]
    rfl
  | _ => first | rfl | exact absurd trivial hreads

/-- The ids that success responses have reported. -/
def Conc.reportedIds (C : Conc) : List UInt32 := C.log.filterMap Entry.reportedId

/-- The ids are good, and so are the ids that have been reported. -/
structure IdsInv (C : Conc) : Prop where
  ids : IdsOk C.server.accounts
  bound : C.server.accounts.length ≤ 2 ^ 31
  reported : C.reportedIds.Nodup
  known : ∀ id ∈ C.reportedIds, id ∈ C.server.accountIds

/-- What holds of the id that a handler is working with.  One that is about to be used is the
next one as long as the handler is up to date, and no good otherwise; one that is stored has not
been reported. -/
def StageOk (C : Conc) (owner : Option SessionId) : Stage → Prop
  | .idle => True
  | .asked id => ∃ s, owner = some s ∧
      if UpToDate s C.log then id = nextAccountId C.server.accounts
      else id = 0 ∨ id ∈ C.server.accountIds
  | .stored id => id ∈ C.server.accountIds ∧ id ∉ C.reportedIds

/-- The invariant: `stage i` is how far the handler in place `i` has got. -/
structure Creating (C : Conc) (stage : Nat → Stage) : Prop where
  inv : IdsInv C
  creates : ∀ i t, C.thread i = some t → t.rest.Creates t.event.owner (stage i) fun _ _ => True
  stages : ∀ i t, C.thread i = some t → StageOk C t.event.owner (stage i)
  apart : ∀ i j t u id, C.thread i = some t → C.thread j = some u → stage i = .stored id →
    stage j = .stored id → i = j

theorem IdsInv.of_same {C C' : Conc} (h : IdsInv C)
    (hids : C'.server.accountIds = C.server.accountIds)
    (hreported : C'.reportedIds = C.reportedIds) :
    IdsInv C' where
  ids := h.ids.of_ids hids
  bound := by
    have hlen := congrArg List.length hids
    rw [ServerState.accountIds, ServerState.accountIds, List.length_map, List.length_map] at hlen
    rw [hlen]
    exact h.bound
  reported := hreported ▸ h.reported
  known id hid := by
    rw [hids]
    exact h.known id (hreported ▸ hid)

theorem StageOk.of_same {C C' : Conc} {owner : Option SessionId} {stage : Stage}
    (h : StageOk C owner stage) (hids : C'.server.accountIds = C.server.accountIds)
    (hreported : C'.reportedIds = C.reportedIds)
    (hup : ∀ s, owner = some s → UpToDate s C'.log = UpToDate s C.log) :
      StageOk C' owner stage := by
  cases stage with
  | idle => exact trivial
  | asked id =>
    obtain ⟨s, hs, hid⟩ := h
    refine ⟨s, hs, ?_⟩
    rwa [hup s hs, nextAccountId_congr hids, hids]
  | stored id =>
    refine ⟨?_, ?_⟩
    · rw [hids]
      exact h.1
    · rw [hreported]
      exact h.2

namespace Creating

variable {env : Env} {C : Conc} {stage : Nat → Stage}

theorem init : Creating {} fun _ => .idle where
  inv := ⟨.init, Nat.zero_le _, List.nodup_nil, fun id hid => absurd hid List.not_mem_nil⟩
  creates i t hi := by cases hi
  stages i t hi := by cases hi
  apart i j t u id hi := by cases hi

theorem begin (h : Creating C stage) (e : Event) : Creating
    { C with
      server := e.note C.server
      threads := C.threads ++ [some { event := e, rest := e.program env C.server }] }
    (Function.update stage C.threads.length .idle) := by
  have hids : (e.note C.server).accountIds = C.server.accountIds := by cases e <;> rfl
  have hcases : ∀ {i t},
      (C.threads ++ [some (Thread.mk e (e.program env C.server))]).getD i none = some t → _ :=
    fun hi => Conc.getD_concat_cases hi
  refine ⟨h.inv.of_same hids rfl, fun i t hi => ?_, fun i t hi => ?_,
    fun i j t u id hi hj hsi hsj => ?_⟩
  · rcases hcases hi with ⟨rfl, ht⟩ | ⟨hne, ht⟩
    · obtain rfl := Option.some.inj ht
      rw [Function.update_self]
      exact creates_program env C.server e
    · rw [Function.update_of_ne hne]
      exact h.creates i t ht
  · rcases hcases hi with ⟨rfl, ht⟩ | ⟨hne, ht⟩
    · rw [Function.update_self]
      exact trivial
    · rw [Function.update_of_ne hne]
      exact (h.stages i t ht).of_same hids rfl fun _ _ => rfl
  · rcases hcases hi with ⟨rfl, -⟩ | ⟨hne, ht⟩
    · rw [Function.update_self] at hsi
      cases hsi
    rcases hcases hj with ⟨rfl, -⟩ | ⟨hnj, hu⟩
    · rw [Function.update_self] at hsj
      cases hsj
    rw [Function.update_of_ne hne] at hsi
    rw [Function.update_of_ne hnj] at hsj
    exact h.apart i j t u id ht hu hsi hsj

theorem finish (h : Creating C stage) {i : Nat} {e : Event} {b : Bool}
    (hthread : C.thread i = some ⟨e, .ret b⟩) :
    Creating { C with threads := C.threads.set i none, log := .ended e b :: C.log } stage := by
  have hcases : ∀ j t, (C.threads.set i none).getD j none = some t → C.thread j = some t := by
    intro j t hj
    rcases Conc.getD_set_cases (Conc.lt_of_thread hthread) hj with ⟨-, ht⟩ | ⟨-, ht⟩
    · cases ht
    · exact ht
  exact
    { inv := h.inv.of_same rfl rfl
      creates := fun j t hj => h.creates j t (hcases j t hj)
      stages := fun j t hj => (h.stages j t (hcases j t hj)).of_same rfl rfl fun _ _ => rfl
      apart := fun j l t u id hj hl => h.apart j l t u id (hcases j t hj) (hcases l u hl) }

/-- An operation of the handler in place `i`: its own id stays good, and so do those of the
handlers of other sessions. -/
theorem perform (hr : RegistryOk env C) (h : Creating C stage) {i : Nat} {c : Choice} {e : Event}
    {o : Op} {k : o.Res → Prog Bool} (hthread : C.thread i = some ⟨e, .op o k⟩)
    (hinv : IdsInv (C.performed env i c e o k))
    (hown : ∀ stage', Stage.next e.owner o (exec env o c C.server).1 (stage i) = some stage' →
      StageOk (C.performed env i c e o k) e.owner stage' ∧
        ∀ id, stage' = .stored id → stage i = .stored id ∨ id ∉ C.server.accountIds)
    (hothers : ∀ owner other, (∀ s, owner = some s → e.owner ≠ some s) →
      (∀ id, other = .stored id → stage i ≠ .stored id) → StageOk C owner other →
      StageOk (C.performed env i c e o k) owner other) :
    ∃ stage', Creating (C.performed env i c e o k) stage' := by
  obtain ⟨stage', hstage, hrest⟩ := h.creates i _ hthread (exec env o c C.server).1 trivial
  obtain ⟨hok, hnew⟩ := hown stage' hstage
  have hcases : ∀ {j t}, (C.performed env i c e o k).thread j = some t →
      j = i ∧ t = ⟨e, k (exec env o c C.server).1⟩ ∨ j ≠ i ∧ C.thread j = some t :=
    fun hj => (Conc.getD_set_cases (Conc.lt_of_thread hthread) hj).imp
      (fun hj => ⟨hj.1, (Option.some.inj hj.2).symm⟩) id
  -- what another handler has stored is not what this one goes on with
  have hapart : ∀ j t id, j ≠ i → C.thread j = some t → stage j = .stored id →
      stage' ≠ .stored id := by
    rintro j t id hne ht hsj rfl
    rcases hnew id rfl with hsi | hid
    · exact hne (h.apart j i t _ id ht hthread hsj hsi)
    · have hj := h.stages j t ht
      rw [hsj] at hj
      exact hid hj.1
  refine ⟨Function.update stage i stage', hinv, fun j t hj => ?_, fun j t hj => ?_,
    fun j l t u id hj hl hsj hsl => ?_⟩
  · rcases hcases hj with ⟨rfl, rfl⟩ | ⟨hne, ht⟩
    · rw [Function.update_self]
      exact hrest
    · rw [Function.update_of_ne hne]
      exact h.creates j t ht
  · rcases hcases hj with ⟨rfl, rfl⟩ | ⟨hne, ht⟩
    · rw [Function.update_self]
      exact hok
    · rw [Function.update_of_ne hne]
      refine hothers _ _ (fun s hs he => hne (hr.exclusive j i t _ s ht hthread hs he)) ?_
        (h.stages j t ht)
      exact fun id hsj hsi => hne (h.apart j i t _ id ht hthread hsj hsi)
  · rcases hcases hj with ⟨rfl, rfl⟩ | ⟨hne, ht⟩ <;> rcases hcases hl with ⟨rfl, rfl⟩ | ⟨hnl, hu⟩
    · rfl
    · rw [Function.update_self] at hsj
      rw [Function.update_of_ne hnl] at hsl
      exact absurd hsj (hapart l u id hnl hu hsl)
    · rw [Function.update_of_ne hne] at hsj
      rw [Function.update_self] at hsl
      exact absurd hsl (hapart j t id hne ht hsj)
    · rw [Function.update_of_ne hne] at hsj
      rw [Function.update_of_ne hnl] at hsl
      exact h.apart j l t u id ht hu hsj hsl

section

variable {i : Nat} {c : Choice} {e : Event}

theorem perform_foreign (hr : RegistryOk env C) (h : Creating C stage) {o : Op}
    {k : o.Res → Prog Bool} (hthread : C.thread i = some ⟨e, .op o k⟩) (ho : o.IsForeign) :
    ∃ stage', Creating (C.performed env i c e o k) stage' := by
  have hids : (exec env o c C.server).2.accountIds = C.server.accountIds := by
    refine accountIds_exec env ?_ c C.server
    rintro a rfl
    exact ho.elim
  have hreported : (C.performed env i c e o k).reportedIds = C.reportedIds := by
    have hnone : Entry.reportedId (.performed e o (exec env o c C.server).1) = none := by
      cases o <;> first | rfl | exact ho
    show List.filterMap _ (_ :: C.log) = _
    rw [List.filterMap_cons, hnone]
    rfl
  have hup : ∀ s, UpToDate s (C.performed env i c e o k).log = UpToDate s C.log := fun s => by
    cases o <;> first | rfl | exact ho.elim
  refine perform hr h hthread (h.inv.of_same hids hreported) (fun stage' hstage => ?_)
    fun owner other _ _ hok => hok.of_same hids hreported fun s _ => hup s
  obtain rfl := Option.some.inj ((Stage.next_of_foreign _ _ ho).symm.trans hstage)
  exact ⟨(h.stages i _ hthread).of_same hids hreported fun s _ => hup s, fun id => Or.inl⟩

/-- The handler asks for the largest id. -/
theorem perform_max (hr : RegistryOk env C) (h : Creating C stage) {k : _ → Prog Bool}
    (hthread : C.thread i = some ⟨e, .op .maxAccountId k⟩) :
    ∃ stage', Creating (C.performed env i c e .maxAccountId k) stage' := by
  have hserver : (exec env .maxAccountId c C.server).2 = C.server := by
    simp only [exec, dbCall]
    split <;> rfl
  have hanswer : (exec env .maxAccountId c C.server).1 =
      if c.fails then .error () else .ok (maxAccountId C.server.accounts) := by
    simp only [exec, dbCall]
    split <;> rfl
  have hids : (exec env .maxAccountId c C.server).2.accountIds = C.server.accountIds := by
    rw [hserver]
  have hup : ∀ s, UpToDate s (C.performed env i c e .maxAccountId k).log =
      if e.owner = some s then !c.fails else UpToDate s C.log := by
    intro s
    show (if e.owner = some s then _ else _) = _
    rw [hanswer]
    cases c.fails <;> rfl
  refine perform hr h hthread (h.inv.of_same hids rfl) (fun stage' hstage => ?_)
    fun owner other hne _ hok => hok.of_same hids rfl fun s hs => ?_
  · obtain ⟨s, hs⟩ : ∃ s, e.owner = some s := by
      rw [← Option.ne_none_iff_exists']
      intro hnone
      simp [Stage.next, hnone] at hstage
    obtain rfl : Stage.asked (idFrom (exec env .maxAccountId c C.server).1) = stage' := by
      simpa [Stage.next, hs] using hstage
    refine ⟨⟨s, hs, ?_⟩, fun id hid => by cases hid⟩
    rw [hup, if_pos hs, hanswer]
    cases c.fails with
    | true => exact Or.inl rfl
    | false =>
      show _ = nextAccountId (exec env .maxAccountId c C.server).2.accounts
      rw [hserver]
      rfl
  · rw [hup, if_neg (hne s hs)]

/-- The handler stores the account, and is up to date. -/
theorem perform_insert (hr : RegistryOk env C) (h : Creating C stage) {a : Account}
    {k : _ → Prog Bool} (hthread : C.thread i = some ⟨e, .op (.insertAccount a) k⟩)
    (hfresh : c.fails = false → (∃ s, e.owner = some s ∧ UpToDate s C.log = true) ∧
      C.server.accounts.length < 2 ^ 31) :
    ∃ stage', Creating (C.performed env i c e (.insertAccount a) k) stage' := by
  -- the account has the id that the handler has made
  obtain ⟨id, hasked, hid⟩ : ∃ id, stage i = .asked id ∧ a.id = id := by
    obtain ⟨stage', hstage, -⟩ := h.creates i _ hthread (.ok ()) trivial
    cases hs : stage i with
    | asked id =>
      rw [hs] at hstage
      by_cases hid : a.id = id
      · exact ⟨id, rfl, hid⟩
      · simp [Stage.next, hid] at hstage
    | idle => simp [Stage.next, hs] at hstage
    | stored id => simp [Stage.next, hs] at hstage
  cases hf : c.fails with
  | true =>
    have hout : exec env (.insertAccount a) c C.server = (.error (), C.server) := by
      simp [exec, dbCall, hf]
    have hids : (exec env (.insertAccount a) c C.server).2.accountIds = C.server.accountIds := by
      rw [hout]
    have hup : ∀ s, UpToDate s (C.performed env i c e (.insertAccount a) k).log =
        UpToDate s C.log := by
      intro s
      show (!(exec env (.insertAccount a) c C.server).1.isOk && _) = _
      rw [hout]
      rfl
    refine perform hr h hthread (h.inv.of_same hids rfl) (fun stage' hstage => ?_)
      fun owner other _ _ hok => hok.of_same hids rfl fun s _ => hup s
    obtain rfl : Stage.idle = stage' := by
      simpa [Stage.next, hasked, hid, hout, Except.isOk, Except.toBool] using hstage
    exact ⟨trivial, fun id hid => by cases hid⟩
  | false =>
    have hout : exec env (.insertAccount a) c C.server = (.ok (), C.server.insertAccount a) := by
      simp [exec, dbCall, hf]
    obtain ⟨⟨s, hs, hup⟩, hlen⟩ := hfresh hf
    have hnext : a.id = nextAccountId C.server.accounts := by
      have hok := h.stages i _ hthread
      rw [hasked] at hok
      obtain ⟨t, ht, hok⟩ := hok
      obtain rfl : s = t := Option.some.inj (hs.symm.trans ht)
      rw [if_pos hup] at hok
      exact hid.trans hok
    obtain ⟨hone, hbound, hlt⟩ := h.inv.ids.lt_nextAccountId hlen
    have hserver :
        (C.performed env i c e (.insertAccount a) k).server = C.server.insertAccount a := by
      show (exec env (.insertAccount a) c C.server).2 = _
      rw [hout]
    have hids : (C.server.insertAccount a).accountIds = C.server.accountIds ++ [a.id] := by
      simp [ServerState.accountIds, ServerState.insertAccount]
    have hnew : a.id ∉ C.server.accountIds := by
      intro hmem
      obtain ⟨b, hb, he⟩ := List.mem_map.mp hmem
      have := hlt b hb
      rw [he, hnext] at this
      omega
    have hstale : ∀ s, UpToDate s (C.performed env i c e (.insertAccount a) k).log = false := by
      intro s
      show (!(exec env (.insertAccount a) c C.server).1.isOk && _) = _
      rw [hout]
      rfl
    refine perform hr h hthread ⟨?_, ?_, h.inv.reported, fun x hx => ?_⟩ (fun stage' hstage => ?_)
      fun owner other _ _ hok => ?_
    · rw [hserver]
      exact h.inv.ids.insert hlen hnext
    · rw [hserver]
      show (C.server.accounts ++ [a]).length ≤ _
      rw [List.length_append, List.length_singleton]
      omega
    · rw [hserver, hids]
      exact List.mem_append_left _ (h.inv.known x hx)
    · obtain rfl : Stage.stored id = stage' := by
        simpa [Stage.next, hasked, hid, hout, Except.isOk, Except.toBool] using hstage
      subst hid
      refine ⟨⟨?_, fun hmem => hnew (h.inv.known _ hmem)⟩, fun x hx => ?_⟩
      · rw [hserver, hids]
        exact List.mem_append_right _ (List.mem_singleton.mpr rfl)
      · obtain rfl := Stage.stored.inj hx
        exact Or.inr hnew
    · cases other with
      | idle => exact trivial
      | asked x =>
        -- nobody else is up to date any more, and the next id is taken
        obtain ⟨t, ht, hx⟩ := hok
        refine ⟨t, ht, ?_⟩
        rw [hstale, if_neg (by decide), hserver, hids]
        split at hx
        · right
          rw [hx, ← hnext]
          exact List.mem_append_right _ (List.mem_singleton.mpr rfl)
        · exact hx.imp_right fun hx => List.mem_append_left _ hx
      | stored x =>
        refine ⟨?_, hok.2⟩
        rw [hserver, hids]
        exact List.mem_append_left _ hok.1

/-- The handler reports the id. -/
theorem perform_respond (hr : RegistryOk env C) (h : Creating C stage) {s : SessionId}
    {r : Response} {id : UInt32} {k : _ → Prog Bool}
    (hthread : C.thread i = some ⟨e, .op (.respond s r) k⟩) (hid : r.accountId? = some id) :
    ∃ stage', Creating (C.performed env i c e (.respond s r) k) stage' := by
  have hstored : stage i = .stored id := by
    obtain ⟨stage', hstage, -⟩ := h.creates i _ hthread () trivial
    cases hs : stage i with
    | stored id' =>
      rw [hs] at hstage
      by_cases he : id = id'
      · rw [he]
      · simp [Stage.next, hid, he] at hstage
    | idle => simp [Stage.next, hs, hid] at hstage
    | asked id' => simp [Stage.next, hs, hid] at hstage
  obtain ⟨hmem, hnot⟩ : id ∈ C.server.accountIds ∧ id ∉ C.reportedIds := by
    have hok := h.stages i _ hthread
    rwa [hstored] at hok
  have hreported : (C.performed env i c e (.respond s r) k).reportedIds = id :: C.reportedIds := by
    show List.filterMap _ (_ :: C.log) = _
    rw [List.filterMap_cons, Entry.reportedId, hid]
    rfl
  refine perform hr h hthread ⟨h.inv.ids, h.inv.bound, ?_, fun x hx => ?_⟩ (fun stage' hstage => ?_)
    fun owner other _ hapart hok => ?_
  · rw [hreported, List.nodup_cons]
    exact ⟨hnot, h.inv.reported⟩
  · rw [hreported] at hx
    rcases List.mem_cons.mp hx with rfl | hx
    · exact hmem
    · exact h.inv.known x hx
  · obtain rfl : Stage.idle = stage' := by
      simpa [Stage.next, hid, hstored] using hstage
    exact ⟨trivial, fun x hx => by cases hx⟩
  · cases other with
    | idle => exact trivial
    | asked x => exact hok
    | stored x =>
      refine ⟨hok.1, fun hx => ?_⟩
      rw [hreported] at hx
      rcases List.mem_cons.mp hx with rfl | hx
      · exact hapart x rfl hstored
      · exact hok.2 hx

end

/-- Moves that store accounts separately keep the invariant. -/
theorem step (hr : RegistryOk env C) (h : Creating C stage) {m : Move} {C' : Conc}
    (hend : C.server.terminated = false) (hm : Separate C m) (hs : C.Step env m C') :
    ∃ stage', Creating C' stage' := by
  cases hs with
  | begin henabled hfree => exact ⟨_, h.begin _⟩
  | finish hthread => exact ⟨_, h.finish hthread⟩
  | @perform i c e o k hthread =>
    cases o with
    | maxAccountId => exact perform_max hr h hthread
    | insertAccount a =>
      refine perform_insert hr h hthread fun hf => ?_
      rw [Separate, hthread] at hm
      exact hm hend hf
    | respond s r =>
      cases hid : r.accountId? with
      | none => exact perform_foreign hr h hthread hid
      | some id => exact perform_respond hr h hthread hid
    | _ => exact perform_foreign hr h hthread trivial

end Creating

/-! ## The ids stay different -/

theorem creating_afterMoves (env : Env) {ms : List Move} (hms : Conc.EveryMove env Separate ms) :
    RegistryOk env (afterMoves env ms) ∧ ∃ stage, Creating (afterMoves env ms) stage := by
  refine Conc.invariant_everyMove
    (I := fun C => RegistryOk env C ∧ ∃ stage, Creating C stage)
    ⟨registryOk_init, _, .init⟩ ?_ hms
  rintro C m C' hend hm hs ⟨hr, stage, hc⟩
  exact ⟨registryOk_step hr hs, hc.step hr hend hm hs⟩

theorem IdsInv.distinct {C : Conc} (h : IdsInv C) : DistinctIds C where
  nodup := h.ids.nodup
  nonzero a ha hzero := by
    have hone := (h.ids.range a ha).1
    rw [hzero] at hone
    exact absurd hone (by decide)
  reported := h.reported

/-- An account that is not stored separately gets an id that is no good. -/
theorem not_distinct {env : Env} {C : Conc} {stage : Nat → Stage} (h : Creating C stage) {m : Move}
    (hm : ¬ Separate C m) : ¬ DistinctIds (C.next env m) := by
  cases m with
  | begin e => exact absurd trivial hm
  | proceed i c =>
    rw [Separate] at hm
    split at hm
    swap
    · exact absurd trivial hm
    next e a k hthread =>
    push Not at hm
    obtain ⟨hend, hf, hbad⟩ := hm
    -- the account is stored under the id that its handler has made
    have hnext : (C.next env (.proceed i c)).server = C.server.insertAccount a := by
      simp [Conc.next, hend, hthread, exec, dbCall, hf]
    obtain ⟨stage', hstage, -⟩ := h.creates i _ hthread (.ok ()) trivial
    have hok := h.stages i _ hthread
    have hused : a.id = 0 ∨ a.id ∈ C.server.accountIds := by
      cases hs : stage i with
      | idle => simp [Stage.next, hs] at hstage
      | stored id => simp [Stage.next, hs] at hstage
      | asked id =>
        rw [hs] at hok hstage
        obtain rfl : a.id = id := by
          by_contra hne
          simp [Stage.next, hne] at hstage
        obtain ⟨s, howner, hid⟩ := hok
        split at hid
        · next hup =>
          have hlen := hbad ⟨s, howner, hup⟩
          have hbound := h.inv.bound
          obtain ⟨b, hb, he⟩ := h.inv.ids.mem_nextAccountId (by omega)
          exact Or.inr (List.mem_map.mpr ⟨b, hb, he.trans hid.symm⟩)
        · exact hid
    intro hdistinct
    rcases hused with hzero | hmem
    · refine hdistinct.nonzero a ?_ hzero
      rw [hnext]
      exact List.mem_append_right _ (List.mem_singleton.mpr rfl)
    · have hnodup := hdistinct.nodup
      rw [hnext, ServerState.insertAccount, List.map_append, List.nodup_append] at hnodup
      exact hnodup.2.2 a.id hmem a.id (List.mem_singleton.mpr rfl) rfl

/-- **Different ids.**  However handlers are interleaved and whatever calls fail, in every state
of the run the accounts have different ids that are not 0, and no two success responses report
one id, exactly if every account of the run is stored separately. -/
theorem distinctIds_iff (env : Env) (ms : List Move) :
    (∀ earlier, earlier <:+ ms → DistinctIds (afterMoves env earlier)) ↔
      Conc.EveryMove env Separate ms := by
  constructor
  · intro h
    induction ms with
    | nil => exact trivial
    | cons m ms ih =>
      have hms := ih fun earlier hearlier => h earlier (hearlier.trans (List.suffix_cons m ms))
      refine ⟨?_, hms⟩
      by_contra hm
      obtain ⟨-, stage, hc⟩ := creating_afterMoves env hms
      exact not_distinct hc hm (h (m :: ms) List.suffix_rfl)
  · rintro h earlier ⟨later, rfl⟩
    have hearlier : Conc.EveryMove env Separate earlier := by
      induction later with
      | nil => exact h
      | cons m later ih => exact ih h.2
    obtain ⟨-, stage, hc⟩ := creating_afterMoves env hearlier
    exact hc.inv.distinct

/-- Two connections, and on each a request that creates an account. -/
def creationBegins : List Move :=
  [.begin (.request 1 (sampleRequest .createAccount 1
      [("name", .string "b"), ("password", .buffer (List.replicate 32 0))])),
    .begin (.request 0 (sampleRequest .createAccount 1
      [("name", .string "a"), ("password", .buffer (List.replicate 32 0))]))] ++
  uninterrupted 3 (.handshake 1 false) {} ++ uninterrupted 2 (.connect 1) { word := 1001 } ++
  uninterrupted 1 (.handshake 0 false) {} ++ uninterrupted 0 (.connect 0) { word := 1000 }

/-- The two handlers take turns. -/
def creationMoves : List Move :=
  (List.replicate 10 [Move.proceed 5 {}, Move.proceed 4 {}]).flatten ++ creationBegins

/-- Both handlers see the same largest id. -/
theorem not_distinctIds_turns : ¬ DistinctIds (afterMoves sampleEnv creationMoves) := by
  intro h
  have hids : ((afterMoves sampleEnv creationMoves).server.accounts.map Account.id) = [1, 1] := by
    decide +kernel
  have hnodup := h.nodup
  rw [hids] at hnodup
  exact absurd hnodup (by decide)

end ZwayServer
