import ZwayServer.Footprint
import ZwayServer.Notification

/-!
# Contact requests of one pair

A contact request is refused while one from the same sender to the same recipient is stored:
the handler counts them in one call of the database and stores its own in another.

* `AtMostOne` — no two contact requests of one pair are stored.
* `Checked` — the handlers of a session have counted the pair, and none has been stored since.
* `Guarded` — a contact request is stored only if that holds, or none is stored at all.
* `Counted`, `guards_program` — what a handler has counted when it stores a request.
* `atMostOne_iff` — the law holds exactly if every contact request is stored guarded.
-/

namespace ZwayServer

open ClientSession

deriving instance DecidableEq for RequestQuery

/-! ## The law -/

/-- The contact requests from `x` to `d`. -/
def pairQuery (x d : UInt32) : RequestQuery :=
  { type := some .addContact, src := some x, dst := some d }

/-- The request is a contact request from `x` to `d`. -/
def Request.IsContact (q : Request) (x d : UInt32) : Prop :=
  q.type = .addContact ∧ q.src = x ∧ q.dst = some d

instance (q : Request) (x d : UInt32) : Decidable (q.IsContact x d) := by
  unfold Request.IsContact
  infer_instance

/-- How many contact requests from `x` to `d` are stored. -/
def ServerState.pairCount (σ : ServerState) (x d : UInt32) : Nat :=
  σ.requests.countP (pairQuery x d).matches

/-- At most one contact request of each ordered pair is stored. -/
def AtMostOne (C : Conc) : Prop := ∀ x d, C.server.pairCount x d ≤ 1

/-- The last time a handler of the session counted the contact requests from `x` to `d` it was
answered, and none has been stored since. -/
def Checked (s : SessionId) (x d : UInt32) : List Entry → Bool
  | [] => false
  | .performed e (.countRequests q) r :: log =>
    if e.owner = some s ∧ q = pairQuery x d then r.isOk else Checked s x d log
  | .performed _ (.insertRequest q) r :: log =>
    !(decide (q.IsContact x d) && r.isOk) && Checked s x d log
  | _ :: log => Checked s x d log

/-- A contact request is stored only by a handler that has checked its pair, or while none is
stored. -/
def Guarded (C : Conc) : Move → Prop
  | .begin _ => True
  | .proceed i c =>
    match C.thread i with
    | some ⟨e, .op (.insertRequest q) _⟩ => C.server.terminated = false → c.fails = false →
        ∀ x d, q.IsContact x d →
          (∃ s, e.owner = some s ∧ Checked s x d C.log = true) ∨ C.server.pairCount x d = 0
    | _ => True

/-! ## The handler of a contact request -/

/-- A client asks for a contact. -/
def Event.AddsContact (env : Env) (e : Event) : Prop :=
  ∃ s head, e = .request s head ∧ env.decode (head.get "requestType").toInt = some .addContact

/-- The operations of the handlers of all other events: no contact request is stored, and none
are counted on behalf of a session. -/
def Op.IsOther (e : Event) : Op → Prop
  | .insertRequest q => ∀ x d, ¬ q.IsContact x d
  | .countRequests _ => e.owner = none
  | _ => True

theorem other_of_footprint {env : Env} {e : Event} (he : ¬ e.AddsContact env) {o : Op}
    (h : e.Footprint env o) : o.IsOther e := by
  cases o with
  | insertRequest q =>
    intro x d hq
    cases e with
    | request s head =>
      obtain ⟨t, ht, h⟩ := h
      cases t with
      | addContact => exact he ⟨s, head, rfl, ht⟩
      | createAccount | config => exact h.elim
      | login => exact h.elim id id
      | logout => exact h.elim
      | createAddCode =>
        have hdst : q.dst = none := h.2
        exact absurd (hdst.symm.trans hq.2.2) (by simp)
      | _ => exact absurd (h.symm.trans hq.1) (by decide)
    | received s id => exact absurd (h.symm.trans hq.1) (by decide)
    | userRequests k => exact h.elim fun _ hs => False.elim hs
    | _ => exact h.elim
  | countRequests q =>
    cases e with
    | request s head =>
      obtain ⟨t, ht, h⟩ := h
      cases t with
      | addContact => exact absurd ⟨s, head, rfl, ht⟩ he
      | createAccount | config => exact h.elim
      | login => exact h.elim False.elim False.elim
      | logout => exact h.elim
      | _ => exact RequestType.noConfusion h
    | userRequests k => rfl
    | _ => exact h.elim
  | _ => exact trivial

/-- The last count of the handler, with its answer. -/
abbrev Counted := Option (RequestQuery × DbAnswer Nat)

/-- `requestPending`, of the answer. -/
def isPending : DbAnswer Nat → Bool
  | .ok n => n == 1
  | .error _ => false

/-- A contact request is stored after its pair has been counted, and not found to be pending. -/
def Counted.next : (o : Op) → o.Res → Counted → Option Counted
  | .countRequests q, r, _ => some (some (q, r))
  | .setAccountId .., _, _ => none
  | .insertRequest q, _, counted =>
    match q.dst with
    | none => some counted
    | some d =>
      match counted with
      | some (q', r) => if q' = pairQuery q.src d ∧ isPending r = false then some none else none
      | none => none
  | _, _, counted => some counted

/-- What the program is told while the session has the account `x`. -/
def ToldOwn (s : SessionId) (x : UInt32) : (o : Op) → o.Res → Prop
  | .accountId t, y => t = s → y = x
  | _, _ => True

/-- As long as the session has the account `x`, the program counts before it stores. -/
abbrev Prog.Guards {α : Type} (s : SessionId) (x : UInt32) (p : Prog α) (counted : Counted) :
    Prop :=
  Proc.Tracks (ToldOwn s x) Counted.next p counted fun _ _ => True

/-- The operations that do not count, store or change accounts. -/
def Op.IsAside : Op → Prop
  | .countRequests _ | .setAccountId .. | .insertRequest _ => False
  | _ => True

theorem Counted.next_of_aside {o : Op} (r : o.Res) (counted : Counted) (h : o.IsAside) :
    Counted.next o r counted = some counted := by
  cases o <;> first | rfl | exact h.elim

theorem Prog.Guards.aside {α β : Type} {s : SessionId} {x : UInt32} {p : Prog α} {f : α → Prog β}
    {counted : Counted} (hp : Proc.Within Op.IsAside p) (hf : ∀ a, (f a).Guards s x counted) :
    (p >>= f).Guards s x counted :=
  .skip hp (fun _ r counted => Counted.next_of_aside r counted) hf

theorem guards_of_aside {α : Type} {s : SessionId} {x : UInt32} {p : Prog α} {counted : Counted}
    (hp : Proc.Within Op.IsAside p) : p.Guards s x counted :=
  .of_within hp (fun _ r counted => Counted.next_of_aside r counted) fun _ => trivial

section

variable (env : Env) (s : SessionId) (x : UInt32) (head : UBJ.Object)

/-- `addContactTo`, once the requests of the pair have been counted and none is pending. -/
theorem guards_storeContact (account contact : Account) {r : DbAnswer Nat}
    (hr : isPending r = false) : Prog.Guards s x (match publicKeyOf head with
      | none => do
        postRequestFailure s (head.get "requestId").toInt 0 "Invalid public key"
        return false
      | some publicKey => do
        if !(← DB.addRequest
            { id := (head.get "requestId").toInt, type := .addContact, src := ← accountId s,
              dst := some contact.id, name := some account.name, phone := some account.phone,
              publicKey := some publicKey, addCode := some (head.get "addCode").toStr }) then
          postRequestFailure s (head.get "requestId").toInt 0 "Internal server error"
          return false
        if (head.get "addCode").toStr ≠ "" then
          let _ ← DB.deleteRequest { addCode := some (head.get "addCode").toStr }
        postRequestSuccess s (head.get "requestId").toInt
          [("requestId", .int32 (head.get "requestId").toInt), ("status", .int32 1),
            ("addCode", .string (head.get "addCode").toStr),
            ("name", .string contact.name), ("phone", .string contact.phone)]
        Server.postUserRequests contact.id
        return true) (some (pairQuery x contact.id, r)) := by
  split
  · exact guards_of_aside (by simp [Op.IsAside])
  · intro z hz
    obtain rfl : z = x := hz rfl
    refine ⟨some (pairQuery z contact.id, r), rfl, fun u _ => ⟨none, ?_, ?_⟩⟩
    · simp [Counted.next, hr]
    · cases u <;> exact guards_of_aside (by simp [Op.IsAside])

theorem guards_addContactTo (account : Account) (q : AccountQuery) :
    (addContactTo s head account q).Guards s x none := by
  rw [addContactTo]
  refine .aside (by simp [Op.IsAside]) fun contact => ?_
  cases contact with
  | none => exact guards_of_aside (by simp [Op.IsAside])
  | some contact =>
    refine .aside (by simp [Op.IsAside]) fun y => ?_
    split
    · exact guards_of_aside (by simp [Op.IsAside])
    -- the account is the same when the pair is counted and when the request is stored
    intro y' hy
    obtain rfl : y' = x := hy rfl
    refine ⟨none, rfl, fun r _ => ⟨some (pairQuery y' contact.id, r), rfl, ?_⟩⟩
    cases r with
    | error u => exact guards_storeContact s y' head account contact rfl
    | ok n =>
      show Prog.Guards s y' (if (n == 1) = true then _ else _) _
      split
      · exact guards_of_aside (by simp [Op.IsAside])
      · next hn =>
        exact guards_storeContact s y' head account contact (by simpa [isPending] using hn)

theorem guards_processAddContactRequest :
    (processAddContactRequest s head).Guards s x none := by
  rw [processAddContactRequest]
  refine .aside (by simp [Op.IsAside]) fun st => ?_
  split
  · exact guards_of_aside (by simp [Op.IsAside])
  refine .aside (by simp [Op.IsAside]) fun y => .aside (by simp [Op.IsAside]) fun account => ?_
  cases account with
  | none => exact guards_of_aside (by simp [Op.IsAside])
  | some account =>
    dsimp only
    split
    · refine .aside (by simp [Op.IsAside]) fun request => ?_
      cases request with
      | none => exact guards_of_aside (by simp [Op.IsAside])
      | some request => exact guards_addContactTo s x head account _
    · split
      · exact guards_of_aside (by simp [Op.IsAside])
      · exact guards_addContactTo s x head account _

end

/-! ## The count -/

/-- Nobody but the handler of a session changes its account. -/
theorem accountId_exec (env : Env) {o : Op} {s : SessionId} (h : ∀ x, o ≠ .setAccountId s x)
    (c : Choice) (σ : ServerState) :
    ((exec env o c σ).2.sessions s).accountId = (σ.sessions s).accountId := by
  refine session_exec Session.accountId fun f he x => ?_
  cases o <;> simp only [Op.edit, reduceCtorEq] at he <;> grind

theorem matches_pairQuery (x d : UInt32) (q : Request) (oid : Nat) :
    (pairQuery x d).matches ⟨q, oid⟩ = decide (q.IsContact x d) := by
  rw [Bool.eq_iff_iff, RequestQuery.matches_iff, decide_eq_true_iff]
  simp [pairQuery, Request.IsContact]

/-- Storing a contact request of a pair makes their number larger by one. -/
theorem pairCount_insertRequest (σ : ServerState) (q : Request) (x d : UInt32) :
    (σ.insertRequest q).pairCount x d = σ.pairCount x d + if q.IsContact x d then 1 else 0 := by
  rw [ServerState.pairCount, ServerState.insertRequest, List.countP_append, List.countP_singleton,
    matches_pairQuery]
  by_cases h : q.IsContact x d <;> simp [h, ServerState.pairCount]

/-- Nothing else does. -/
theorem pairCount_exec_le (env : Env) {o : Op} {x d : UInt32} (c : Choice)
    (h : ∀ q, o = .insertRequest q → c.fails = false → ¬ q.IsContact x d) (σ : ServerState) :
    (exec env o c σ).2.pairCount x d ≤ σ.pairCount x d := by
  by_cases hreads : o.Reads
  · rw [exec_of_reads env hreads]
  have hdb : ∀ {α : Type} {a : α} {σ' : ServerState},
      (c.fails = false → σ'.pairCount x d ≤ σ.pairCount x d) →
      (dbCall c σ a σ').2.pairCount x d ≤ σ.pairCount x d := fun hσ' =>
    dbCall_cases (P := fun τ => τ.pairCount x d ≤ σ.pairCount x d) (le_refl _) hσ'
  cases o with
  | insertRequest q =>
    refine hdb fun hf => ?_
    rw [pairCount_insertRequest, if_neg (h q rfl hf)]
    exact le_refl _
  | removeRequest q => exact hdb fun _ => List.eraseP_sublist.countP_le
  | insertAccount | setFcmToken => exact hdb fun _ => le_refl _
  | addReceiver | addEngineSender | fopenAppend =>
    rw [exec]
    split <;> exact le_refl _
  | removeSession s =>
    rw [exec, ServerState.removeSession_eq]
    exact le_refl _
  | _ => first | exact le_refl _ | exact absurd trivial hreads

/-! ## The invariant -/

/-- What the handler of the session has counted bounds the number of contact requests, as long
as nobody has stored one. -/
def CountOk (C : Conc) (s : SessionId) (counted : Counted) : Prop :=
  ∀ x d r, counted = some (pairQuery x d, r) → Checked s x d C.log = true →
    ∃ n, r = .ok n ∧ C.server.pairCount x d ≤ n ∧ n ≤ 1

/-- A handler stores no contact request, or counts before it does. -/
def ThreadGuards (C : Conc) (t : Thread) : Prop :=
  Proc.Within (Op.IsOther t.event) t.rest ∨ ∃ s counted, t.event.owner = some s ∧
    t.rest.Guards s (C.server.sessions s).accountId counted ∧ CountOk C s counted

/-- The invariant. -/
structure PendingInv (C : Conc) : Prop where
  atMostOne : AtMostOne C
  threads : ∀ i t, C.thread i = some t → ThreadGuards C t

/-- What has been checked stays so, and the number does not grow. -/
theorem CountOk.mono {C C' : Conc} {s : SessionId} {counted : Counted} (h : CountOk C s counted)
    (hkeep : ∀ x d, Checked s x d C'.log = true →
      Checked s x d C.log = true ∧ C'.server.pairCount x d ≤ C.server.pairCount x d) :
    CountOk C' s counted := by
  intro x d r hr hchecked
  obtain ⟨hold, hle⟩ := hkeep x d hchecked
  obtain ⟨n, hn, hcount, hone⟩ := h x d r hr hold
  exact ⟨n, hn, hle.trans hcount, hone⟩

section

variable {env : Env} {C : Conc} {i : Nat} {c : Choice} {e : Event}

/-- Nothing but a count of its own makes the handler of a session checked. -/
theorem checked_performed {o : Op} {k : o.Res → Prog Bool} {s : SessionId}
    (ho : ∀ q, o = .countRequests q → e.owner ≠ some s) (x d : UInt32)
    (h : Checked s x d (C.performed env i c e o k).log = true) :
    Checked s x d C.log = true ∧
      (C.performed env i c e o k).server.pairCount x d ≤ C.server.pairCount x d := by
  by_cases hinsert : ∃ q, o = .insertRequest q
  · obtain ⟨q, rfl⟩ := hinsert
    simp only [Checked, Bool.and_eq_true, Bool.not_eq_true', Bool.and_eq_false_iff,
      decide_eq_false_iff_not] at h
    refine ⟨h.2, pairCount_exec_le env c (fun q' hq hf => ?_) C.server⟩
    cases hq
    refine h.1.resolve_right ?_
    simp [exec, dbCall, hf, Except.isOk, Except.toBool]
  · refine ⟨?_, pairCount_exec_le env c (fun q hq => absurd ⟨q, hq⟩ hinsert) C.server⟩
    cases o with
    | countRequests q =>
      rw [Checked, if_neg fun hs => ho q rfl hs.1] at h
      exact h
    | insertRequest q => exact absurd ⟨q, rfl⟩ hinsert
    | _ => exact h

theorem pendingInv_begin (h : PendingInv C) (e : Event) : PendingInv
    { C with
      server := e.note C.server
      threads := C.threads ++ [some { event := e, rest := e.program env C.server }] } where
  atMostOne x d := by
    have hrequests : (e.note C.server).requests = C.server.requests := by cases e <;> rfl
    show (e.note C.server).requests.countP _ ≤ 1
    rw [hrequests]
    exact h.atMostOne x d
  threads i t hi := by
    have hrequests : (e.note C.server).requests = C.server.requests := by cases e <;> rfl
    refine Conc.forall_begun (P := fun _ t => ThreadGuards C t) (Q := fun _ t => ThreadGuards _ t)
      h.threads ?_ (fun _ t _ ht => ht.imp_right ?_) hi
    · by_cases he : e.AddsContact env
      · obtain ⟨s, head, rfl, ht⟩ := he
        have hprogram : Event.program env C.server (.request s head) =
            processAddContactRequest s head := by
          show processIncomingRequest env s head = _
          rw [processIncomingRequest, ht]
        rw [hprogram]
        exact Or.inr ⟨s, none, rfl, guards_processAddContactRequest s _ head,
          fun x d r hr => by cases hr⟩
      · exact Or.inl ((within_program env e C.server).sub fun o => other_of_footprint he)
    · rintro ⟨s, counted, hs, hguards, hcount⟩
      refine ⟨s, counted, hs, ?_, hcount.mono fun x d hchecked => ⟨hchecked, ?_⟩⟩
      · show t.rest.Guards s ((e.note C.server).sessions s).accountId counted
        rw [(sessions_note C.server e s).1]
        exact hguards
      · show (e.note C.server).requests.countP _ ≤ _
        rw [hrequests]
        exact le_refl _

theorem pendingInv_finish (h : PendingInv C) {b : Bool} (hthread : C.thread i = some ⟨e, .ret b⟩) :
    PendingInv { C with threads := C.threads.set i none, log := .ended e b :: C.log } where
  atMostOne := h.atMostOne
  threads j t hj := by
    refine Conc.forall_finished (P := fun _ t => ThreadGuards C t)
      (Q := fun _ t => ThreadGuards _ t) hthread h.threads (fun _ t _ ht => ht.imp_right ?_) hj
    rintro ⟨s, counted, hs, hguards, hcount⟩
    exact ⟨s, counted, hs, hguards, hcount.mono fun x d hchecked => ⟨hchecked, le_refl _⟩⟩

/-- A contact request that is stored guarded is the only one of its pair. -/
theorem pairCount_eq_zero (h : PendingInv C) {q : Request} {k : _ → Prog Bool}
    (hthread : C.thread i = some ⟨e, .op (.insertRequest q) k⟩) {x d : UInt32}
    (hq : q.IsContact x d)
    (hguarded : (∃ s, e.owner = some s ∧ Checked s x d C.log = true) ∨ C.server.pairCount x d = 0) :
    C.server.pairCount x d = 0 := by
  obtain ⟨s, hs, hchecked⟩ | hzero := hguarded
  swap
  · exact hzero
  rcases h.threads i _ hthread with hother | ⟨t, counted, ht, hguards, hcount⟩
  · exact absurd hq (hother.1 x d)
  obtain rfl : s = t := Option.some.inj (hs.symm.trans ht)
  obtain ⟨-, rfl, hdst⟩ := hq
  -- the handler has counted this pair, and did not find one pending
  obtain ⟨counted', hnext, -⟩ := hguards (.ok ()) trivial
  obtain ⟨r, hr, hpending⟩ : ∃ r, counted = some (pairQuery q.src d, r) ∧ isPending r = false := by
    simp only [Counted.next, hdst] at hnext
    split at hnext
    · next q' r =>
      split at hnext
      · next hc => exact ⟨r, by rw [hc.1], hc.2⟩
      · cases hnext
    · cases hnext
  obtain ⟨n, rfl, hle, hone⟩ := hcount q.src d r hr hchecked
  have hne : n ≠ 1 := by simpa [isPending] using hpending
  omega

/-- What the handler of a session has counted, after its next operation. -/
theorem countOk_performed (h : AtMostOne C) {o : Op} {k : o.Res → Prog Bool} {s : SessionId}
    {counted counted' : Counted} (hs : e.owner = some s) (hcount : CountOk C s counted)
    (hnext : Counted.next o (exec env o c C.server).1 counted = some counted') :
    CountOk (C.performed env i c e o k) s counted' := by
  by_cases hcounts : ∃ q, o = .countRequests q
  · obtain ⟨q, rfl⟩ := hcounts
    obtain rfl := Option.some.inj hnext
    intro x d r hr hchecked
    obtain ⟨rfl, rfl⟩ := Prod.mk.inj (Option.some.inj hr)
    rw [Checked, if_pos ⟨hs, rfl⟩] at hchecked
    cases hf : c.fails with
    | true => simp [exec, dbCall, hf, Except.isOk, Except.toBool] at hchecked
    | false =>
      refine ⟨C.server.pairCount x d, by simp [exec, dbCall, hf, ServerState.pairCount], ?_, h x d⟩
      exact pairCount_exec_le env c (fun q' hq => by cases hq) C.server
  · have hkept : CountOk (C.performed env i c e o k) s counted :=
      hcount.mono fun x d => checked_performed (fun q hq => absurd ⟨q, hq⟩ hcounts) x d
    cases o with
    | countRequests q => exact absurd ⟨q, rfl⟩ hcounts
    | setAccountId => cases hnext
    | insertRequest q =>
      rw [Counted.next] at hnext
      split at hnext
      · obtain rfl := Option.some.inj hnext
        exact hkept
      · -- a contact request uses up the count
        have hnone : counted' = none := by
          split at hnext
          · split at hnext
            · exact (Option.some.inj hnext).symm
            · cases hnext
          · cases hnext
        subst hnone
        exact fun x d r hr => by cases hr
    | _ =>
      obtain rfl := Option.some.inj hnext
      exact hkept

theorem pendingInv_perform (hr : RegistryOk env C) (h : PendingInv C) {o : Op}
    {k : o.Res → Prog Bool} (hthread : C.thread i = some ⟨e, .op o k⟩)
    (hend : C.server.terminated = false) (hm : Guarded C (.proceed i c)) :
    PendingInv (C.performed env i c e o k) where
  atMostOne x d := by
    by_cases hstores : ∃ q, o = .insertRequest q ∧ c.fails = false ∧ q.IsContact x d
    · obtain ⟨q, rfl, hf, hq⟩ := hstores
      rw [Guarded, hthread] at hm
      have hzero := pairCount_eq_zero h hthread hq (hm hend hf x d hq)
      have hserver : (exec env (.insertRequest q) c C.server).2 = C.server.insertRequest q := by
        simp [exec, dbCall, hf]
      show (exec env (.insertRequest q) c C.server).2.pairCount x d ≤ 1
      rw [hserver, pairCount_insertRequest, hzero, if_pos hq]
    · refine le_trans ?_ (h.atMostOne x d)
      exact pairCount_exec_le env c (fun q ho hf hq => hstores ⟨q, ho, hf, hq⟩) C.server
  threads j t hj := by
    refine Conc.forall_performed (P := fun _ t => ThreadGuards C t)
      (Q := fun _ t => ThreadGuards _ t) hthread h.threads ?_ ?_ hj
    · rintro (hother | ⟨s, counted, hs, hguards, hcount⟩)
      · exact Or.inl (hother.2 _ trivial)
      · refine Or.inr ?_
        have hanswer : ToldOwn s (C.server.sessions s).accountId o (exec env o c C.server).1 := by
          cases o with
          | accountId t =>
            rintro rfl
            rfl
          | _ => exact trivial
        obtain ⟨counted', hnext, hrest⟩ := hguards _ hanswer
        have hx : ((exec env o c C.server).2.sessions s).accountId =
            (C.server.sessions s).accountId := by
          refine accountId_exec env (fun x ho => ?_) c C.server
          subst ho
          cases hnext
        refine ⟨s, counted', hs, ?_, ?_⟩
        · show Prog.Guards s ((exec env o c C.server).2.sessions s).accountId _ counted'
          rw [hx]
          exact hrest
        · exact countOk_performed h.atMostOne hs hcount hnext
    · intro j t hne hjt ht
      refine ht.imp_right ?_
      rintro ⟨s, counted, hs, hguards, hcount⟩
      have howner : e.owner ≠ some s := fun he => hne (hr.exclusive j i t _ s hjt hthread hs he)
      have hx : ((exec env o c C.server).2.sessions s).accountId =
          (C.server.sessions s).accountId := by
        refine accountId_exec env (fun x ho => ?_) c C.server
        subst ho
        obtain ⟨out, ⟨out', hstep, -⟩, -⟩ := (hr.threads i _ hthread).obeys
        simp [discipline, howner] at hstep
      refine ⟨s, counted, hs, ?_, ?_⟩
      · show t.rest.Guards s ((exec env o c C.server).2.sessions s).accountId counted
        rw [hx]
        exact hguards
      · exact hcount.mono fun x d => checked_performed (fun _ _ => howner) x d

end

/-! ## At most one -/

theorem pendingInv_afterMoves (env : Env) {ms : List Move} (hms : Conc.EveryMove env Guarded ms) :
    RegistryOk env (afterMoves env ms) ∧ PendingInv (afterMoves env ms) := by
  refine Conc.invariant_everyMove (I := fun C => RegistryOk env C ∧ PendingInv C)
    ⟨registryOk_init, fun x d => Nat.zero_le _, fun i t hi => by cases hi⟩ ?_ hms
  rintro C m C' hend hm hs ⟨hr, h⟩
  refine ⟨registryOk_step hr hs, ?_⟩
  cases hs with
  | begin henabled hfree => exact pendingInv_begin h _
  | perform hthread => exact pendingInv_perform hr h hthread hend hm
  | finish hthread => exact pendingInv_finish h hthread

/-- A request that is not stored guarded is the second one of its pair. -/
theorem not_atMostOne {env : Env} {C : Conc} {m : Move} (hm : ¬ Guarded C m) :
    ¬ AtMostOne (C.next env m) := by
  cases m with
  | begin e => exact absurd trivial hm
  | proceed i c =>
    rw [Guarded] at hm
    split at hm
    swap
    · exact absurd trivial hm
    next e q k hthread =>
    push Not at hm
    obtain ⟨hend, hf, x, d, hq, -, hne⟩ := hm
    intro h
    have hserver : (C.next env (.proceed i c)).server = C.server.insertRequest q := by
      simp [Conc.next, hend, hthread, exec, dbCall, hf]
    have hle := h x d
    rw [hserver, pairCount_insertRequest, if_pos hq] at hle
    omega

/-- **At most one contact request.**  However handlers are interleaved and whatever calls fail, in
every state of the run at most one contact request of each ordered pair is stored, exactly if
every contact request of the run is stored guarded. -/
theorem atMostOne_iff (env : Env) (ms : List Move) :
    (∀ earlier, earlier <:+ ms → AtMostOne (afterMoves env earlier)) ↔
      Conc.EveryMove env Guarded ms := by
  constructor
  · intro h
    induction ms with
    | nil => exact trivial
    | cons m ms ih =>
      refine ⟨?_, ih fun earlier hearlier => h earlier (hearlier.trans (List.suffix_cons m ms))⟩
      by_contra hm
      exact not_atMostOne hm (h (m :: ms) List.suffix_rfl)
  · rintro h earlier ⟨later, rfl⟩
    have hearlier : Conc.EveryMove env Guarded earlier := by
      induction later with
      | nil => exact h
      | cons m later ih => exact ih h.2
    exact (pendingInv_afterMoves env hearlier).2.atMostOne

/-- The account 1, with the sessions 0 and 2, and the account 2 that can be found as "b". -/
def pairEvents : List Event :=
  [(sampleLogin 2 1).event, .handshake 2 false, .connect 2,
    .request 1 (sampleRequest .createAccount 1 [("name", .string "b"), ("findByName", .bool true),
      ("password", .buffer (List.replicate 32 0))]),
    .handshake 1 false, .connect 1,
    (sampleLogin 0 1).event,
    .request 0 (sampleRequest .createAccount 1 [("name", .string "a"),
      ("password", .buffer (List.replicate 32 0))]),
    .handshake 0 false, .connect 0]

/-- Both sessions of the account 1 ask for the contact "b", and their handlers take turns. -/
def pairMoves : List Move :=
  let add : UBJ.Object := sampleRequest .addContact 7 [("name", .string "b"), sampleKey]
  (List.replicate 20 [Move.proceed 11 {}, Move.proceed 10 {}]).flatten ++
  [.begin (.request 2 add), .begin (.request 0 add)] ++
  (pairEvents.zipIdx.map fun x => uninterrupted (9 - x.2) x.1
    { word := 1000 + UInt32.ofNat x.2, salt := List.replicate 32 0 }).flatten

/-- Two contact requests of one pair are stored. -/
theorem not_atMostOne_turns : ¬ AtMostOne (afterMoves sampleEnv pairMoves) := by
  intro h
  have hcount : (afterMoves sampleEnv pairMoves).server.pairCount 1 2 = 2 := by decide +kernel
  have hle := h 1 2
  omega

end ZwayServer
