import ZwayServer.Arrival
import ZwayServer.Proc.Licence
import ZwayServer.Reuse

/-!
# Crashes and restarts

The process may die at any moment, in the middle of any handlers, and be started again.  The
sessions, the registry, the tasks and the buffers are gone then; the two collections are not.

* `life` — moves of interleaved handlers, with crashes and restarts among them.
* `performed_at` — an entry of the log belongs to a handler that was under way at some time.
* `licensed_life` — what is said of the operations of every handler holds of a whole life.
* `sameCollections_life` — the collections are what the log makes of them.
* `Warrant` — why a record is removed, and what was performed before.
* `nothing_lost` — whenever the process dies: what was stored is stored, or was acknowledged,
  dispatched or used, or its answer had gone to the store before.
* `arrives_again` — what the new process finds in the store it delivers.
-/

namespace ZwayServer

open ClientSession

/-! ## Lives -/

/-- What a new process finds: the collections, and what is left of the files.  The notifications
that were sent are sent. -/
def ServerState.restarted (σ : ServerState) (files : String → Option (List UInt8)) : ServerState :=
  { accounts := σ.accounts, requests := σ.requests, nextOid := σ.nextOid, files := files,
    fcm := σ.fcm }

/-- What happens in the life of the server. -/
inductive Incident where
  | move (m : Move)
  /-- The process dies and is started again. -/
  | restart (files : String → Option (List UInt8))

/-- After an incident.  What has been performed stays in the log. -/
def Conc.meet (env : Env) (C : Conc) : Incident → Conc
  | .move m => C.next env m
  | .restart files => { server := C.server.restarted files, threads := [], log := C.log }

/-- Where a life leads; the incidents are newest first. -/
def life (env : Env) : List Incident → Conc
  | [] => {}
  | x :: xs => (life env xs).meet env x

section

variable {env : Env}

@[simp] theorem life_nil : life env [] = {} := rfl

@[simp] theorem life_cons (x : Incident) (xs : List Incident) :
    life env (x :: xs) = (life env xs).meet env x := rfl

/-- **Invariants of lives.** -/
theorem invariant_life {P : Conc → Prop} (h0 : P {})
    (hstep : ∀ C m C', C.Step env m C' → P C → P C')
    (hrestart : ∀ C files, P C → P (C.meet env (.restart files))) (xs : List Incident) :
    P (life env xs) := by
  induction xs with
  | nil => exact h0
  | cons x xs ih =>
    rw [life_cons]
    cases x with
    | restart files => exact hrestart _ files ih
    | move m =>
      have hcase : (life env xs).Step env m ((life env xs).next env m) ∨
          (life env xs).next env m = life env xs := Conc.step_or_eq m
      show P ((life env xs).next env m)
      rcases hcase with hs | he
      · exact hstep _ m _ hs ih
      · rw [he]
        exact ih

/-- The log only grows. -/
theorem log_suffix (later earlier : List Incident) :
    ∃ since, (life env (later ++ earlier)).log = since ++ (life env earlier).log := by
  induction later with
  | nil => exact ⟨[], rfl⟩
  | cons x later ih =>
    obtain ⟨since, hlog⟩ := ih
    rw [List.cons_append, life_cons]
    cases x with
    | restart files => exact ⟨since, hlog⟩
    | move m =>
      have hcase : (life env (later ++ earlier)).Step env m
            ((life env (later ++ earlier)).next env m) ∨
          (life env (later ++ earlier)).next env m = life env (later ++ earlier) :=
        Conc.step_or_eq m
      show ∃ since, ((life env (later ++ earlier)).next env m).log = _
      rcases hcase with hs | he
      · generalize (life env (later ++ earlier)).next env m = C' at hs ⊢
        cases hs with
        | begin => exact ⟨since, hlog⟩
        | perform | finish => exact ⟨_ :: since, congrArg _ hlog⟩
      · rw [he]
        exact ⟨since, hlog⟩

/-- What stands in the log was performed at some time, by a handler that was under way. -/
theorem performed_at {xs : List Incident} {since before : List Entry} {e : Event} {o : Op}
    {r : o.Res} (hlog : (life env xs).log = since ++ .performed e o r :: before) :
    ∃ later earlier, xs = later ++ earlier ∧ (life env earlier).log = before ∧
      ∃ i k, (life env earlier).thread i = some ⟨e, .op o k⟩ := by
  induction xs generalizing since with
  | nil => simp at hlog
  | cons x xs ih =>
    -- an entry that is older than this incident
    have holder : ∀ since, (life env xs).log = since ++ .performed e o r :: before →
        ∃ later earlier, x :: xs = later ++ earlier ∧ (life env earlier).log = before ∧
          ∃ i k, (life env earlier).thread i = some ⟨e, .op o k⟩ := by
      intro since hsince
      obtain ⟨later, earlier, rfl, hfound⟩ := ih hsince
      exact ⟨x :: later, earlier, rfl, hfound⟩
    rw [life_cons] at hlog
    cases x with
    | restart files => exact holder since hlog
    | move m =>
      have hcase : (life env xs).Step env m ((life env xs).next env m) ∨
          (life env xs).next env m = life env xs := Conc.step_or_eq m
      change ((life env xs).next env m).log = _ at hlog
      rcases hcase with hs | he
      · generalize (life env xs).next env m = C' at hs hlog
        cases hs with
        | begin => exact holder since hlog
        | perform hthread =>
          cases since with
          -- the newest entry is that of this move
          | nil =>
            cases hlog
            exact ⟨[.move _], xs, rfl, rfl, _, _, hthread⟩
          | cons y since => exact holder since (List.cons.inj hlog).2
        | finish hthread =>
          cases since with
          | nil => cases hlog
          | cons y since => exact holder since (List.cons.inj hlog).2
      · rw [he] at hlog
        exact holder since hlog

end

/-! ## Licences -/

section

variable {env : Env} {L : Event → Op → Proc.Past Op Op.Res → Prop}

/-- What a handler has performed is in the log. -/
def InLog (e : Event) (past : Proc.Past Op Op.Res) (log : List Entry) : Prop :=
  ∀ x ∈ past, .performed e x.1 x.2 ∈ log

theorem InLog.mono {e : Event} {past : Proc.Past Op Op.Res} {log log' : List Entry}
    (h : InLog e past log) (hsub : log ⊆ log') : InLog e past log' :=
  fun x hx => hsub (h x hx)

/-- Every operation in the log is licensed by what its handler had performed before. -/
def LicensedLog (L : Event → Op → Proc.Past Op Op.Res → Prop) : List Entry → Prop
  | [] => True
  | .performed e o _ :: log => (∃ past, InLog e past log ∧ L e o past) ∧ LicensedLog L log
  | .ended .. :: log => LicensedLog L log

/-- An operation somewhere in such a log. -/
theorem LicensedLog.performed {log since before : List Entry} {e : Event} {o : Op} {r : o.Res}
    (h : LicensedLog L log) (hlog : log = since ++ .performed e o r :: before) :
    ∃ past, InLog e past before ∧ L e o past := by
  subst hlog
  induction since with
  | nil => exact h.1
  | cons x since ih =>
    cases x with
    | performed e' o' r' => exact ih h.2
    | ended e' b => exact ih h

/-- A handler under way: what is left of it is licensed by what it has performed. -/
def LicensedThread (L : Event → Op → Proc.Past Op Op.Res → Prop) (log : List Entry) (t : Thread) :
    Prop :=
  ∃ past, InLog t.event past log ∧ Proc.Licensed (L t.event) t.rest past fun _ _ => True

theorem LicensedThread.mono {log log' : List Entry} {t : Thread} (h : LicensedThread L log t)
    (hsub : log ⊆ log') : LicensedThread L log' t := by
  obtain ⟨past, hin, hrest⟩ := h
  exact ⟨past, hin.mono hsub, hrest⟩

/-- **Licences in lives.**  If every operation of every handler is licensed by what the handler
has performed before, so is every operation in the log of every life. -/
theorem licensed_life (hprogram : ∀ e σ,
      Proc.Licensed (L e) (e.program env σ) [] fun _ _ => True) (xs : List Incident) :
    LicensedLog L (life env xs).log := by
  have hall : LicensedLog L (life env xs).log ∧
      ∀ i t, (life env xs).thread i = some t → LicensedThread L (life env xs).log t := by
    refine invariant_life (P := fun C => LicensedLog L C.log ∧
      ∀ i t, C.thread i = some t → LicensedThread L C.log t) ?_ ?_ ?_ xs
    · exact ⟨trivial, fun i t ht => by simp [Conc.thread] at ht⟩
    · rintro C m C' hstep ⟨hlog, hthreads⟩
      cases hstep with
      | begin henabled hfree =>
        refine ⟨hlog, fun i t ht => ?_⟩
        exact Conc.forall_begun (Q := fun _ t => LicensedThread L C.log t) hthreads
          ⟨[], fun _ hx => absurd hx List.not_mem_nil, hprogram _ _⟩ (fun _ _ _ h => h) ht
      | @perform i c e o k hthread =>
        -- what the handler has performed is licensed, and becomes a part of its past
        obtain ⟨past, hin, hop, hrest⟩ := hthreads i _ hthread
        refine ⟨⟨⟨past, hin, hop⟩, hlog⟩, fun j t ht => ?_⟩
        refine Conc.forall_performed (P := fun _ t => LicensedThread L C.log t)
          (Q := fun _ t => LicensedThread L (.performed e o (exec env o c C.server).1 :: C.log) t)
          hthread hthreads (fun _ => ⟨_, ?_, hrest _⟩) (fun _ _ _ _ h => h.mono ?_) ht
        · intro x hx
          rcases List.mem_cons.mp hx with rfl | hx
          · exact List.mem_cons_self ..
          · exact List.mem_cons_of_mem _ (hin x hx)
        · exact List.subset_cons_self ..
      | finish hthread =>
        refine ⟨hlog, fun j t ht => ?_⟩
        exact Conc.forall_finished (Q := fun _ t => LicensedThread L _ t) hthread hthreads
          (fun _ _ _ h => h.mono (List.subset_cons_self ..)) ht
    -- a restart leaves the log, and no handlers
    · rintro C files ⟨hlog, -⟩
      exact ⟨hlog, fun i t ht => by simp [Conc.thread, Conc.meet] at ht⟩
  exact hall.1

end

/-! ## Why a record is removed -/

/-- A handler may remove what `q` names; `Seen` is what has been performed before, with the
answers. -/
inductive Warrant (env : Env) (e : Event) (q : RequestQuery) (Seen : (o : Op) → o.Res → Prop) :
    Prop
  /-- The client has acknowledged the posted request `p`. -/
  | acknowledged {s : SessionId} {k : Nat} {head : UBJ.Object} {p : Posted} {x : UInt32}
      (he : e = .response s k head) (hp : Seen (.takePosted s k) (some p))
      (hok : (head.get "status").toInt = 1) (hx : Seen (.accountId s) x)
      (hq : q = { id := some p.id, dst := some x })
  /-- The client dispatches it. -/
  | dispatched {s : SessionId} {head : UBJ.Object} {x : UInt32} (he : e = .request s head)
      (ht : env.decode (head.get "requestType").toInt = some .dispatch) (hx : Seen (.accountId s) x)
      (hq : q = { id := some (head.get "dispatchId").toInt, srcOrDst := some x })
  /-- Some record `r` with the id, addressed to the account, was read, and the answer `a` to it has
  gone to the store. -/
  | answered {s : SessionId} {head : UBJ.Object} {x : UInt32} {r : Record} {a : Request}
      {answer : DbAnswer Unit} (he : e = .request s head)
      (ht : env.decode (head.get "requestType").toInt = some a.type)
      (hanswer : a.type = .acceptContact ∨ a.type = .rejectContact) (hx : Seen (.accountId s) x)
      (hread : Seen (.findRequest { id := some (head.get "contactRequestId").toInt, dst := some x })
        (.ok (some r)))
      (hsrc : Seen (.accountId s) a.src) (hdst : a.dst = some r.src)
      (hid : a.contactRequestId = some (head.get "contactRequestId").toInt)
      (hstored : Seen (.insertRequest a) answer)
      (hq : q = { id := some (head.get "contactRequestId").toInt })
  /-- The contact request `a` that uses the add code has gone to the store. -/
  | used {s : SessionId} {head : UBJ.Object} {a : Request} {answer : DbAnswer Unit}
      (he : e = .request s head)
      (ht : env.decode (head.get "requestType").toInt = some .addContact)
      (htype : a.type = .addContact) (hcode : a.addCode = some (head.get "addCode").toStr)
      (hne : (head.get "addCode").toStr ≠ "") (hsrc : Seen (.accountId s) a.src)
      (hstored : Seen (.insertRequest a) answer)
      (hq : q = { addCode := some (head.get "addCode").toStr })

theorem Warrant.mono {env : Env} {e : Event} {q : RequestQuery}
    {Seen Seen' : (o : Op) → o.Res → Prop} (h : Warrant env e q Seen)
    (hsub : ∀ o r, Seen o r → Seen' o r) : Warrant env e q Seen' := by
  cases h with
  | acknowledged he hp hok hx hq => exact .acknowledged he (hsub _ _ hp) hok (hsub _ _ hx) hq
  | dispatched he ht hx hq => exact .dispatched he ht (hsub _ _ hx) hq
  | answered he ht hanswer hx hread hsrc hdst hid hstored hq =>
    exact .answered he ht hanswer (hsub _ _ hx) (hsub _ _ hread) (hsub _ _ hsrc) hdst hid
      (hsub _ _ hstored) hq
  | used he ht htype hcode hne hsrc hstored hq =>
    exact .used he ht htype hcode hne (hsub _ _ hsrc) (hsub _ _ hstored) hq

/-- The licence for a removal; nothing else needs one. -/
def RemovalLicence (env : Env) (e : Event) (o : Op) (past : Proc.Past Op Op.Res) : Prop :=
  ∀ q, o = .removeRequest q → Warrant env e q fun o r => ⟨o, r⟩ ∈ past

/-- The operations that remove no request. -/
@[simp] def Op.Unremoving : Op → Prop
  | .removeRequest _ => False
  | _ => True

section

variable {env : Env} {e : Event} {past : Proc.Past Op Op.Res} {α β : Type}

theorem licence_of_unremoving (o : Op) (past : Proc.Past Op Op.Res) (ho : o.Unremoving) :
    RemovalLicence env e o past := by
  rintro q rfl
  exact ho.elim

/-- A part that removes nothing comes first. -/
theorem removal_skip {p : Prog α} {f : α → Prog β} {Q : β → Proc.Past Op Op.Res → Prop}
    (hp : Proc.Within Op.Unremoving p)
    (hf : ∀ a past', past ⊆ past' → Proc.Licensed (RemovalLicence env e) (f a) past' Q) :
    Proc.Licensed (RemovalLicence env e) (p >>= f) past Q :=
  .skip hp licence_of_unremoving hf

/-- A part that removes nothing comes last. -/
theorem removal_last {p : Prog α} (hp : Proc.Within Op.Unremoving p) :
    Proc.Licensed (RemovalLicence env e) p past fun _ _ => True :=
  .of_within hp licence_of_unremoving fun _ _ _ => trivial

/-- The account of the session is read. -/
theorem removal_accountId {s : SessionId} {f : UInt32 → Prog β}
    (hf : ∀ x, Proc.Licensed (RemovalLicence env e) (f x) (⟨.accountId s, x⟩ :: past)
      fun _ _ => True) :
    Proc.Licensed (RemovalLicence env e) (Proc.perform (Op.accountId s) >>= f) past
      fun _ _ => True :=
  ⟨licence_of_unremoving _ _ trivial, hf⟩

/-- A request is stored, or is not. -/
theorem removal_addRequest {a : Request} {f : Bool → Prog β}
    (hf : ∀ answer : DbAnswer Unit, Proc.Licensed (RemovalLicence env e) (f true)
      (⟨.insertRequest a, answer⟩ :: past) fun _ _ => True) :
    Proc.Licensed (RemovalLicence env e) (DB.addRequest a >>= f) past fun _ _ => True := by
  refine ⟨licence_of_unremoving _ _ trivial, fun answer => ?_⟩
  cases answer with
  | ok u => exact hf (.ok u)
  | error u => exact hf (.error u)

/-- A request is read. -/
theorem removal_getRequest {q : RequestQuery} {f : Option Record → Prog β}
    (hnone : ∀ past', past ⊆ past' →
      Proc.Licensed (RemovalLicence env e) (f none) past' fun _ _ => True)
    (hsome : ∀ r, Proc.Licensed (RemovalLicence env e) (f (some r))
      (⟨.findRequest q, .ok (some r)⟩ :: past) fun _ _ => True) :
    Proc.Licensed (RemovalLicence env e) (DB.getRequest q >>= f) past fun _ _ => True := by
  refine ⟨licence_of_unremoving _ _ trivial, fun answer => ?_⟩
  rcases answer with u | (_ | r)
  · exact hnone _ (List.subset_cons_self ..)
  · exact hnone _ (List.subset_cons_self ..)
  · exact hsome r

/-- A record is removed. -/
theorem removal_deleteRequest {q : RequestQuery} {f : Bool → Prog β}
    (hq : Warrant env e q fun o r => ⟨o, r⟩ ∈ past)
    (hf : ∀ b, Proc.Within Op.Unremoving (f b)) :
    Proc.Licensed (RemovalLicence env e) (DB.deleteRequest q >>= f) past fun _ _ => True := by
  refine ⟨?_, fun answer => ?_⟩
  · rintro q' h
    obtain rfl := Op.removeRequest.inj h
    exact hq
  · cases answer with
    | ok u => exact removal_last (hf true)
    | error u => exact removal_last (hf false)

end

/-! ## The handlers that remove -/

section

variable {env : Env} {s : SessionId} {head : UBJ.Object}

/-- A request as it arrives: its licences. -/
abbrev LicensedRequest (env : Env) (s : SessionId) (head : UBJ.Object) (p : Prog Bool)
    (past : Proc.Past Op Op.Res) : Prop :=
  Proc.Licensed (RemovalLicence env (.request s head)) p past fun _ _ => True

theorem licensed_processDispatchRequest
    (ht : env.decode (head.get "requestType").toInt = some .dispatch) :
    LicensedRequest env s head (processDispatchRequest s head) [] := by
  rw [processDispatchRequest]
  refine removal_skip (by simp) fun st past _ => ?_
  dsimp only
  split
  · exact removal_last (by simp)
  split
  · refine removal_accountId fun x => ?_
    refine removal_deleteRequest (.dispatched rfl ht (List.mem_cons_self ..) rfl) fun b => ?_
    cases b <;> simp
  · exact removal_last (by simp)

theorem licensed_addContactTo (account : Account) (q : AccountQuery)
    (ht : env.decode (head.get "requestType").toInt = some .addContact)
    (past : Proc.Past Op Op.Res) :
    LicensedRequest env s head (addContactTo s head account q) past := by
  rw [addContactTo]
  refine removal_skip (by simp) fun found past _ => ?_
  cases found with
  | none => exact removal_last (by simp)
  | some contact =>
    refine removal_accountId fun y => ?_
    split
    · exact removal_last (by simp)
    refine removal_accountId fun z => ?_
    refine removal_skip (by simp) fun pending past _ => ?_
    split
    · exact removal_last (by simp)
    cases publicKeyOf head with
    | none => exact removal_last (by simp)
    | some publicKey =>
      refine removal_accountId fun x => ?_
      refine removal_addRequest fun answer => ?_
      rw [Bool.not_true, if_neg Bool.false_ne_true]
      -- the add code goes when the contact request made from it has gone to the store
      split
      · next hne =>
        refine removal_deleteRequest ?_ fun b => by simp
        exact .used rfl ht rfl rfl hne (List.mem_cons_of_mem _ (List.mem_cons_self ..))
          (List.mem_cons_self ..) rfl
      · exact removal_last (by simp)

theorem licensed_processAddContactRequest
    (ht : env.decode (head.get "requestType").toInt = some .addContact) :
    LicensedRequest env s head (processAddContactRequest s head) [] := by
  rw [processAddContactRequest]
  refine removal_skip (by simp) fun st past _ => ?_
  dsimp only
  split
  · exact removal_last (by simp)
  refine removal_accountId fun x => ?_
  refine removal_skip (by simp) fun account past _ => ?_
  cases account with
  | none => exact removal_last (by simp)
  | some account =>
    dsimp only
    split
    · refine removal_skip (by simp) fun request past _ => ?_
      cases request with
      | none => exact removal_last (by simp)
      | some request => exact licensed_addContactTo account _ ht past
    split
    · exact removal_last (by simp)
    · exact licensed_addContactTo account _ ht past

theorem licensed_processAcceptContact
    (ht : env.decode (head.get "requestType").toInt = some .acceptContact) :
    LicensedRequest env s head (processAcceptContact s head) [] := by
  rw [processAcceptContact]
  refine removal_skip (by simp) fun st past _ => ?_
  dsimp only
  split
  · exact removal_last (by simp)
  refine removal_accountId fun x => ?_
  refine removal_getRequest (fun _ _ => removal_last (by simp)) fun r => ?_
  dsimp only
  refine removal_accountId fun y => ?_
  refine removal_skip (by simp) fun account past' hpast => ?_
  -- both are still in the past when the record is removed
  have hx : ⟨.accountId s, x⟩ ∈ past' := hpast (by simp)
  have hread := hpast (List.mem_cons_of_mem _ (List.mem_cons_self ..))
  have hstatus : Proc.Within Op.Unremoving (getContactStatus r.src) :=
    within_getContactStatus (fun _ => trivial) (fun _ => trivial) _
  cases account with
  | none => exact removal_last (by simp)
  | some account =>
    cases r.publicKey with
    | none => exact removal_last (by simp)
    | some contactKey =>
      cases publicKeyOf head with
      | none => exact removal_last (by simp)
      | some publicKey =>
        refine removal_accountId fun z => ?_
        refine removal_addRequest fun answer => ?_
        rw [Bool.not_true, if_neg Bool.false_ne_true]
        -- the acceptance is stored, the status is looked up, the response is posted
        refine removal_skip hstatus fun status past₁ hpast₁ => ?_
        refine removal_skip (by simp) fun _ past₂ hpast₂ => ?_
        refine removal_deleteRequest ?_ fun b => by simp
        have hlater : ∀ y ∈ past', y ∈ past₂ := fun y hy =>
          hpast₂ (hpast₁ (List.mem_cons_of_mem _ (List.mem_cons_of_mem _ hy)))
        exact .answered rfl ht (Or.inl rfl) (hlater _ hx) (hlater _ hread)
          (hpast₂ (hpast₁ (List.mem_cons_of_mem _ (List.mem_cons_self ..)))) rfl rfl
          (hpast₂ (hpast₁ (List.mem_cons_self ..))) rfl

theorem licensed_processRejectContact
    (ht : env.decode (head.get "requestType").toInt = some .rejectContact) :
    LicensedRequest env s head (processRejectContact s head) [] := by
  rw [processRejectContact]
  refine removal_skip (by simp) fun st past _ => ?_
  dsimp only
  split
  · exact removal_last (by simp)
  refine removal_accountId fun x => ?_
  refine removal_getRequest (fun _ _ => removal_last (by simp)) fun r => ?_
  dsimp only
  refine removal_accountId fun y => ?_
  refine removal_addRequest fun answer => ?_
  rw [Bool.not_true, if_neg Bool.false_ne_true]
  refine removal_skip (by simp) fun _ past' hpast => ?_
  refine removal_deleteRequest ?_ fun b => by simp
  have hx : ⟨.accountId s, x⟩ ∈ past' := hpast (by simp)
  exact .answered rfl ht (Or.inr rfl) hx (hpast (by simp))
    (hpast (List.mem_cons_of_mem _ (List.mem_cons_self ..))) rfl rfl
    (hpast (List.mem_cons_self ..)) rfl

/-- **Removals by requests.** -/
theorem licensed_processIncomingRequest :
    LicensedRequest env s head (processIncomingRequest env s head) [] := by
  cases ht : env.decode (head.get "requestType").toInt with
  | none =>
    simp only [processIncomingRequest, ht]
    trivial
  | some t =>
    have hfootprint : ∀ {p : Prog Bool}, Proc.Within (t.Footprint s) p →
        (∀ o, t.Footprint s o → o.Unremoving) → LicensedRequest env s head p [] :=
      fun hp hsub => removal_last (hp.sub hsub)
    simp only [processIncomingRequest, ht]
    cases t with
    | dispatch => exact licensed_processDispatchRequest ht
    | addContact => exact licensed_processAddContactRequest ht
    | acceptContact => exact licensed_processAcceptContact ht
    | rejectContact => exact licensed_processRejectContact ht
    -- the other handlers remove nothing
    | createAccount =>
      exact removal_last (by simp [processCreateAccount])
    | login =>
      refine hfootprint (within_processLogin env s head) fun o ho => ?_
      cases o <;> first | trivial | exact ho.elim id id
    | logout =>
      refine hfootprint (within_processLogout env s head) fun o ho => ?_
      cases o <;> trivial
    | config =>
      refine hfootprint (within_processConfigRequest env s head) fun o ho => ?_
      cases o <;> trivial
    | createAddCode =>
      refine removal_last ?_
      rw [processCreateAddCode]
      refine Proc.Within.bind (by simp) fun st => ?_
      dsimp only
      split
      · simp
      cases publicKeyOf head with
      | none => simp
      | some publicKey =>
        refine Proc.Within.bind (by simp) fun x => Proc.Within.bind (by simp) fun account => ?_
        cases account <;> simp
    | findContact => exact removal_last (by simp [processFindContactRequest])
    | contactStatus =>
      have hlist : Proc.Within Op.Unremoving (contactStatusList s) :=
        within_contactStatusList (fun _ => trivial) (fun _ => trivial) (fun _ => trivial) s
      exact removal_last (by simp [processContactStatusRequest, hlist.safe])
    | push =>
      have hkeys : ∀ (keys : List UBJ.Value) (id : UInt32) (forward : UBJ.Object),
          Proc.Within Op.Unremoving (pushKeys s id forward keys) := by
        intro keys id
        induction keys with
        | nil => exact fun _ => trivial
        | cons it keys ih => exact fun forward => by simp [pushKeys, ih]
      refine removal_last ?_
      simp [processPushRequest, (hkeys _ _ _).safe]

theorem unremoving_sendResource (it : UBJ.Value) :
    Proc.Within Op.Unremoving (sendResource env s it) := by
  have hcreate : Proc.Within Op.Unremoving (StreamBufferSender.create env s it.toInt) := by
    have hbuffer : Proc.Within Op.Unremoving (StreamBufferSender.getBuffer env
        { session := s, streamId := it.toInt, buffer := none }) :=
      (within_getBuffer env _).sub fun o ho => by cases o <;> trivial
    simp [StreamBufferSender.create, hbuffer]
  unfold sendResource
  simp only [Proc.safe_ite, Proc.safe_bind, Proc.safe_pure]
  refine ⟨fun _ => hcreate.safe fun sender => ?_, fun _ => trivial⟩
  cases sender <;> simp

/-- The callback of a posted request. -/
theorem licensed_response (k : Nat) (σ : ServerState) :
    Proc.Licensed (RemovalLicence env (.response s k head))
      ((Event.response s k head).handler env σ) [] fun _ _ => True := by
  have hresources : ∀ items : List UBJ.Value,
      Proc.Within Op.Unremoving (forM items (sendResource env s)) :=
    fun items => Proc.Safe.forM fun it _ => unremoving_sendResource it
  have hdelete : ∀ {p : Posted} {past : Proc.Past Op Op.Res} {f : Bool → Prog Unit},
      ⟨.takePosted s k, some p⟩ ∈ past → (head.get "status").toInt = 1 →
      (∀ b, Proc.Within Op.Unremoving (f b)) →
      Proc.Licensed (RemovalLicence env (.response s k head))
        (Proc.perform (Op.accountId s) >>= fun x =>
          DB.deleteRequest { id := some p.id, dst := some x } >>= f) past fun _ _ => True := by
    intro p past f hp hok hf
    refine removal_accountId fun x => removal_deleteRequest ?_ hf
    exact .acknowledged rfl (List.mem_cons_of_mem _ hp) hok (List.mem_cons_self ..) rfl
  refine ⟨licence_of_unremoving _ _ trivial, fun posted => ?_⟩
  cases posted with
  | none => trivial
  | some p =>
    show Proc.Licensed _ (processResponse env s p head) _ _
    rw [processResponse]
    -- that of a contact request does nothing, and that of a push goes on to the resources
    split
    · trivial
    · split
      · next hok => exact hdelete (List.mem_cons_self ..) hok fun _ => hresources _
      · trivial
    · split
      · next hok => exact hdelete (List.mem_cons_self ..) hok fun _ => trivial
      · trivial

end

/-- **Removals by handlers.** -/
theorem licensed_program (env : Env) (e : Event) (σ : ServerState) :
    Proc.Licensed (RemovalLicence env e) (e.program env σ) [] fun _ _ => True := by
  have hfootprint : (∀ o, e.Footprint env o → o.Unremoving) →
      Proc.Licensed (RemovalLicence env e) (e.program env σ) [] fun _ _ => True :=
    fun hsub => removal_last ((within_program env e σ).sub hsub)
  cases e with
  | request s head => exact licensed_processIncomingRequest
  | response s k head => exact Proc.licensed_bind.mpr (licensed_response k σ)
  | _ =>
    refine hfootprint fun o ho => ?_
    cases o <;> first | trivial | exact ho.elim | exact ho.elim fun _ => id

/-! ## The store and the log -/

/-- What an entry of the log has done to the collections. -/
def Entry.redo : Entry → ServerState → ServerState
  | .performed _ (.insertRequest q) (.ok _), σ => σ.insertRequest q
  | .performed _ (.removeRequest q) (.ok _), σ => σ.removeRequest q
  | .performed _ (.insertAccount a) (.ok _), σ => σ.insertAccount a
  | .performed _ (.setFcmToken id token) (.ok _), σ =>
    { σ with
      accounts := σ.accounts.replaceF fun a =>
        if a.id = id then some { a with fcmToken := token } else none }
  | _, σ => σ

/-- What all of them have. -/
def replay : List Entry → ServerState
  | [] => {}
  | x :: log => x.redo (replay log)

/-- Two servers with the same collections. -/
structure SameCollections (σ σ' : ServerState) : Prop where
  accounts : σ'.accounts = σ.accounts
  requests : σ'.requests = σ.requests
  nextOid : σ'.nextOid = σ.nextOid

section

variable {env : Env} {σ σ' σ'' : ServerState}

theorem SameCollections.refl (σ : ServerState) : SameCollections σ σ := ⟨rfl, rfl, rfl⟩

theorem SameCollections.trans (h : SameCollections σ σ') (h' : SameCollections σ' σ'') :
    SameCollections σ σ'' :=
  ⟨h'.accounts.trans h.accounts, h'.requests.trans h.requests, h'.nextOid.trans h.nextOid⟩

theorem SameCollections.redo (h : SameCollections σ σ') (x : Entry) :
    SameCollections (x.redo σ) (x.redo σ') := by
  unfold Entry.redo
  split
  · exact ⟨h.accounts, by simp [ServerState.insertRequest, h.requests, h.nextOid],
      by simp [ServerState.insertRequest, h.nextOid]⟩
  · exact ⟨h.accounts, by simp [ServerState.removeRequest, h.requests], h.nextOid⟩
  · exact ⟨by simp [ServerState.insertAccount, h.accounts], h.requests, h.nextOid⟩
  · exact ⟨by simp [h.accounts], h.requests, h.nextOid⟩
  · exact h

/-- An operation does to the collections what its entry says. -/
theorem sameCollections_exec (e : Event) (o : Op) (c : Choice) (σ : ServerState) :
    SameCollections ((Entry.performed e o (exec env o c σ).1).redo σ) (exec env o c σ).2 := by
  by_cases hreads : o.Reads
  · rw [exec_of_reads env hreads]
    cases o <;> first | exact .refl σ | exact hreads.elim
  cases o with
  | insertRequest | removeRequest | insertAccount | setFcmToken =>
    simp only [exec, dbCall]
    split <;> exact .refl _
  | addReceiver | addEngineSender | fopenAppend =>
    rw [exec]
    split <;> exact ⟨rfl, rfl, rfl⟩
  | removeSession s =>
    rw [exec, ServerState.removeSession_eq]
    exact ⟨rfl, rfl, rfl⟩
  | _ => first | exact ⟨rfl, rfl, rfl⟩ | exact absurd trivial hreads

theorem sameCollections_step {C C' : Conc} {m : Move} (h : SameCollections (replay C.log) C.server)
    (hstep : C.Step env m C') : SameCollections (replay C'.log) C'.server := by
  cases hstep with
  | @begin e =>
    have hnote : SameCollections C.server (e.note C.server) := by
      cases e <;> exact ⟨rfl, rfl, rfl⟩
    exact h.trans hnote
  | @perform i c e o k =>
    exact (h.redo (.performed e o (exec env o c C.server).1)).trans
      (sameCollections_exec e o c C.server)
  | finish => exact h

/-- **The collections are what the log makes of them.** -/
theorem sameCollections_life (xs : List Incident) :
    SameCollections (replay (life env xs).log) (life env xs).server :=
  invariant_life (P := fun C => SameCollections (replay C.log) C.server) (.refl _)
    (fun _ _ _ hstep h => sameCollections_step h hstep)
    (fun _ _ h => ⟨h.accounts, h.requests, h.nextOid⟩) xs

end

/-- What the queries in the log were answered is what the collections held. -/
def Honest (env : Env) : List Entry → Prop
  | [] => True
  | .performed _ (.findRequest q) (.ok x) :: log =>
    x = (replay log).requests.find? q.matches ∧ Honest env log
  | .performed _ (.findAccount q) (.ok x) :: log =>
    (∃ p, q.test env = some p ∧ x = (replay log).accounts.find? p) ∧ Honest env log
  | .performed _ (.findAccounts q limit) answer :: log =>
    (CursorAnswer.docs answer = [] ∨ ∃ p, q.test env = some p ∧
      CursorAnswer.docs answer <+: ((replay log).accounts.filter p).take limit) ∧ Honest env log
  | _ :: log => Honest env log

/-- An answer is honest when it is given. -/
theorem Honest.perform {env : Env} {log : List Entry} {σ : ServerState} (e : Event) (o : Op)
    (c : Choice) (h : Honest env log) (hσ : SameCollections (replay log) σ) :
    Honest env (.performed e o (exec env o c σ).1 :: log) := by
  cases o with
  | findRequest q =>
    simp only [exec, dbCall]
    split
    · exact h
    · exact ⟨by rw [hσ.requests], h⟩
  | findAccount q =>
    simp only [exec]
    split
    · exact h
    · next p hp =>
      simp only [dbCall]
      split
      · exact h
      · exact ⟨⟨p, hp, by rw [hσ.accounts]⟩, h⟩
  | findAccounts q limit =>
    simp only [exec]
    split
    · exact ⟨Or.inl rfl, h⟩
    · next p hp =>
      refine ⟨Or.inr ⟨p, hp, ?_⟩, h⟩
      rw [← hσ.accounts]
      exact docs_cursor_isPrefix c _
  | _ => exact h

/-- **Answers are honest.** -/
theorem honest_life (env : Env) (xs : List Incident) : Honest env (life env xs).log := by
  have hall : SameCollections (replay (life env xs).log) (life env xs).server ∧
      Honest env (life env xs).log := by
    refine invariant_life
      (P := fun C => SameCollections (replay C.log) C.server ∧ Honest env C.log) ?_ ?_ ?_ xs
    · exact ⟨.refl _, trivial⟩
    · rintro C m C' hstep ⟨hsame, hhonest⟩
      refine ⟨sameCollections_step hsame hstep, ?_⟩
      cases hstep with
      | begin => exact hhonest
      | @perform i c e o k => exact hhonest.perform e o c hsame
      | finish => exact hhonest
    · rintro C files ⟨hsame, hhonest⟩
      exact ⟨⟨hsame.accounts, hsame.requests, hsame.nextOid⟩, hhonest⟩
  exact hall.2

/-- The first match is removed, and nothing else. -/
theorem mem_eraseP_or {l : List Record} {p : Record → Bool} {r : Record} (hr : r ∈ l) :
    r ∈ l.eraseP p ∨ l.find? p = some r := by
  induction l with
  | nil => cases hr
  | cons b l ih =>
    by_cases hb : p b = true
    · rw [List.eraseP_cons_of_pos hb, List.find?_cons_of_pos hb]
      rcases List.mem_cons.mp hr with rfl | hr
      · exact Or.inr rfl
      · exact Or.inl hr
    · rw [List.eraseP_cons_of_neg hb, List.find?_cons_of_neg hb]
      rcases List.mem_cons.mp hr with rfl | hr
      · exact Or.inl (List.mem_cons_self ..)
      · exact (ih hr).imp_left (List.mem_cons_of_mem _)

/-- What is in the collection stays there until it is removed. -/
theorem replay_keeps {since before : List Entry} {r : Record}
    (hr : r ∈ (replay before).requests) : r ∈ (replay (since ++ before)).requests ∨
      ∃ later e q u earlier, since = later ++ .performed e (.removeRequest q) (.ok u) :: earlier ∧
        (replay (earlier ++ before)).requests.find? q.matches = some r := by
  induction since with
  | nil => exact Or.inl hr
  | cons x since ih =>
    rcases ih with hstays | ⟨later, e, q, u, earlier, rfl, hfind⟩
    · show r ∈ (x.redo (replay (since ++ before))).requests ∨ _
      -- an insert appends, and only a removal takes anything out
      unfold Entry.redo
      split
      · exact Or.inl (List.mem_append_left _ hstays)
      · next e q u =>
        refine (mem_eraseP_or hstays).imp_right fun hfind => ?_
        exact ⟨[], e, q, u, since, rfl, hfind⟩
      all_goals exact Or.inl hstays
    · exact Or.inr ⟨x :: later, e, q, u, earlier, rfl, hfind⟩

/-! ## Whenever the process dies -/

/-- **Nothing is lost.**  In every life, with the process dying at any moment, what was once
stored is stored, or a handler has removed it, which had reason to: a client has acknowledged its
id, or dispatched it, or before the removal went what takes its place to the store. -/
theorem nothing_lost (env : Env) (earlier later : List Incident) {r : Record}
    (hr : r ∈ (life env earlier).server.requests) :
    r ∈ (life env (later ++ earlier)).server.requests ∨
      ∃ since e q u before,
        (life env (later ++ earlier)).log =
          since ++ .performed e (.removeRequest q) (.ok u) :: before ∧
        (life env earlier).log <:+ before ∧
        (replay before).requests.find? q.matches = some r ∧
        Warrant env e q fun o r => .performed e o r ∈ before := by
  obtain ⟨since, hlog⟩ := @log_suffix env later earlier
  rw [(sameCollections_life earlier).requests] at hr
  rw [(sameCollections_life (later ++ earlier)).requests, hlog]
  rcases @replay_keeps since _ _ hr with hstays | ⟨newer, e, q, u, older, rfl, hfind⟩
  · exact Or.inl hstays
  · refine Or.inr ⟨newer, e, q, u, older ++ (life env earlier).log, by simp, ⟨_, rfl⟩, hfind, ?_⟩
    have hlicensed := licensed_life (licensed_program env) (later ++ earlier)
    rw [hlog, List.append_assoc, List.cons_append] at hlicensed
    obtain ⟨past, hin, hwarrant⟩ := hlicensed.performed rfl
    exact (hwarrant q rfl).mono fun o r hseen => hin ⟨o, r⟩ hseen

/-- Handlers that run one after the other, the last first. -/
def oneByOne : List Event → List Incident
  | [] => []
  | e :: es =>
    List.replicate 30 (.move (.proceed es.length (calm 0 0))) ++ .move (.begin e) :: oneByOne es

/-- The account 2 pushes to the account 1, and the handler gets no further than to store it. -/
def cutShort : List Incident :=
  List.replicate 6 (.move (.proceed 8 (calm 0 0))) ++ .move (.begin (samplePush 1 7 1).event) ::
    oneByOne ((sampleJoin 1 "b" 2 ++ sampleJoin 0 "a" 1).map Act.event)

/-- The process is started again, and the account 1 logs in and acknowledges the push. -/
def startedAgain : List Incident :=
  oneByOne (.response 0 0 [("status", .int32 1)] ::
    (sampleLogin 0 1 :: sampleConnect 0).map Act.event) ++ [.restart fun _ => none]

theorem nothing_lost_push : ∃ r ∈ (life sampleEnv cutShort).server.requests,
    ∃ since e q u before, (life sampleEnv (startedAgain ++ cutShort)).log =
        since ++ .performed e (.removeRequest q) (.ok u) :: before ∧
      (life sampleEnv cutShort).log <:+ before ∧
      (replay before).requests.find? q.matches = some r ∧
      Warrant sampleEnv e q fun o r => .performed e o r ∈ before := by
  have hstored : (life sampleEnv cutShort).server.requests.length = 1 := by decide +kernel
  have hempty : (life sampleEnv (startedAgain ++ cutShort)).server.requests.length = 0 := by
    decide +kernel
  obtain ⟨r, hr⟩ := List.exists_mem_of_length_pos (by omega :
    0 < (life sampleEnv cutShort).server.requests.length)
  refine ⟨r, hr, ?_⟩
  rcases nothing_lost sampleEnv cutShort startedAgain hr with hstays | hremoved
  · rw [List.length_eq_zero_iff.mp hempty] at hstays
    cases hstays
  · exact hremoved

/-! ## What a new process finds -/

section

variable {env : Env} {σ : ServerState} {files : String → Option (List UInt8)} {tr : List Act}

/-- A run of the new process. -/
abbrev afterRestart (env : Env) (σ : ServerState) (files : String → Option (List UInt8))
    (tr : List Act) : ServerState :=
  afterFrom env (σ.restarted files) tr

theorem sessionInv_restarted : SessionInv (σ.restarted files) := fun s =>
  .of_closed (fun h => by cases h) rfl fun k h => by
    simp [ServerState.restarted, ServerState.getSessions] at h

/-- What keeps the clients informed, in the new process. -/
theorem informed_restarted (hlooks : ∀ a ∈ tr, a.Looks env) :
    SessionInv (afterRestart env σ files tr) ∧ (∀ s, PostedSent (afterRestart env σ files tr) s) ∧
      Informed (afterRestart env σ files tr) := by
  induction tr with
  | nil =>
    refine ⟨sessionInv_restarted, fun _ _ h => absurd h List.not_mem_nil, ?_⟩
    intro s r _ hstatus
    cases hstatus
  | cons a tr ih =>
    obtain ⟨hsessions, hposted, hinformed⟩ := ih fun b hb => hlooks b (List.mem_cons_of_mem a hb)
    show SessionInv (next env (afterRestart env σ files tr) a) ∧ _
    by_cases hp : a.Possible (afterRestart env σ files tr)
    · exact ⟨hsessions.next hp, fun s => (onward_next hp).posted (postedSent_note (hposted s)),
        informed_next hp (hlooks a (List.mem_cons_self ..)) hsessions hposted hinformed⟩
    · rw [show afterRestart env σ files (a :: tr) = _ from next_of_not_possible hp,
        next_of_not_possible hp]
      exact ⟨hsessions, hposted, hinformed⟩

end

/-- **It arrives all the same.**  However the process has lived and wherever it has died, if the
logins and tasks of the new one can read the store: for whatever is stored for the account of a
client that is logged in again, a request of its type and id has been sent to the client, or the
task that sends it still waits. -/
theorem arrives_again (env : Env) (xs : List Incident) (files : String → Option (List UInt8))
    {tr : List Act} (hlooks : ∀ a ∈ tr, a.Looks env) {s : SessionId} {σ : ServerState}
    (hσ : σ = afterRestart env (life env xs).server files tr)
    (hs : (σ.sessions s).status = .loggedIn) {r : Record} (hr : r ∈ σ.requests)
    (hn : r.toRequest.Notifies (σ.sessions s).accountId) :
    (σ.sessions s).accountId ∈ σ.tasks ∨ SentTo σ s r.key := by
  subst hσ
  exact (informed_restarted hlooks).2.2 s r hr hs hn

/-- The process has been started again after `cutShort`, and the account 1 has logged in. -/
def revived : ServerState :=
  afterRestart sampleEnv (life sampleEnv cutShort).server (fun _ => none)
    (sampleLogin 0 1 :: sampleConnect 0)

theorem arrives_again_push :
    ∃ r ∈ revived.requests, r.type = .push ∧ SentTo revived 0 r.key := by
  have hany : revived.requests.any (fun r => decide (r.type = .push ∧
      r.toRequest.Notifies (revived.sessions 0).accountId)) = true := by
    decide +kernel
  have hstatus : (revived.sessions 0).status = .loggedIn := by decide +kernel
  have htasks : revived.tasks = [] := by decide +kernel
  have hlooks : ∀ a ∈ sampleLogin 0 1 :: sampleConnect 0, a.Looks sampleEnv := by
    intro a ha
    refine looks_of_noFaults ?_
    simp only [sampleConnect, sampleLogin, sampleStep, List.mem_cons, List.not_mem_nil,
      or_false] at ha
    rcases ha with rfl | rfl | rfl <;> exact fun _ => rfl
  obtain ⟨r, hr, hpush⟩ := List.any_eq_true.mp hany
  obtain ⟨htype, hn⟩ := of_decide_eq_true hpush
  refine ⟨r, hr, htype, ?_⟩
  have hrevived : revived = afterRestart sampleEnv (life sampleEnv cutShort).server (fun _ => none)
      (sampleLogin 0 1 :: sampleConnect 0) := by rw [revived]
  rcases arrives_again sampleEnv cutShort _ hlooks hrevived hstatus hr hn with htask | hsent
  · rw [htasks] at htask
    cases htask
  · exact hsent

end ZwayServer
