import ZwayServer.Footprint
import ZwayServer.Store

/-!
# What ends the process

Two things end the process while a request is handled: a null buffer is read, or an
exception leaves the handler.  A client can bring about the first with a login whose
password is not a buffer, and the second with an acceptance that names a stored request
without a public key.  Every other request, in every other state, is handled to its end.
One event besides the requests ends the process: the first packet of an upload whose file
exists already, for then one `FILE` is closed twice.

* `keyed_after` — in every reachable store, a request carries a public key exactly if it is
  a contact request or an acceptance.
* `terminated_run` — a program that does not perform `terminate` leaves the process running.
* `Fatal` — the requests that end the process, `Act.Fatal` — the steps that do.
* `returns_iff` — a run ends the process exactly if one of its steps is fatal, and until then
  a request comes to its end exactly if it is not.
-/

namespace ZwayServer

open ClientSession

/-! ## The public keys of the store -/

/-- The stored requests that carry the public key of their sender. -/
def RequestType.CarriesKey (t : RequestType) : Prop := t = .addContact ∨ t = .acceptContact

instance (t : RequestType) : Decidable t.CarriesKey := by
  unfold RequestType.CarriesKey
  infer_instance

/-- These have a public key, and no others. -/
def Request.Keyed (r : Request) : Prop := r.publicKey = none ↔ ¬ r.type.CarriesKey

section

variable (env : Env) (w : World) (s : SessionId) (head : UBJ.Object)

/-- What the handlers store is of that kind. -/
theorem keyed_wanted : ∀ r ∈ wanted env w s head, r.Keyed := by
  intro r hr
  unfold wanted at hr
  dsimp only at hr
  split at hr
  · obtain ⟨i, _, rfl⟩ := List.mem_map.mp hr
    simp [Request.Keyed, RequestType.CarriesKey, contactRequest]
  · obtain ⟨i, _, rfl⟩ := List.mem_map.mp hr
    simp [Request.Keyed, RequestType.CarriesKey, addCodeRequest]
  · obtain ⟨i, _, rfl⟩ := List.mem_map.mp hr
    simp [Request.Keyed, RequestType.CarriesKey, acceptRequest]
  · obtain ⟨i, _, rfl⟩ := List.mem_map.mp hr
    simp [Request.Keyed, RequestType.CarriesKey, rejectRequest]
  · split at hr
    · obtain ⟨it, _, _, rfl⟩ := (mem_pushedRequests head).mp hr
      simp [Request.Keyed, RequestType.CarriesKey, pushRequest]
    · cases hr
  · cases hr

end

/-- One step keeps the store so. -/
theorem keyed_next (env : Env) {σ : ServerState} (hinv : StoreInv σ) {a : Act} (hp : a.Possible σ)
    (h : ∀ r ∈ σ.requests, r.Keyed) : ∀ r ∈ (next env σ a).requests, r.Keyed := by
  intro r hr
  by_cases hreq : ∃ s head, a.event = .request s head
  · obtain ⟨event, tape⟩ := a
    obtain ⟨s, head, rfl⟩ := hreq
    rw [requests_next_request env hinv hp] at hr
    rcases List.mem_append.mp hr with hold | hnew
    · exact h r ((without_sublist _ _).subset hold)
    · exact keyed_wanted env _ s head _ (oid_of_mem_storedFrom hnew).2
  · obtain hless | ⟨id, x, hupload⟩ := requests_next_of_not_request env hp
      fun s head he => hreq ⟨s, head, he⟩
    · exact h r (hless.subset hr)
    · rw [hupload] at hr
      rcases List.mem_append.mp hr with hold | hnew
      · exact h r hold
      · have hmem := (oid_of_mem_storedFrom hnew).2
        rw [List.mem_singleton] at hmem
        rw [hmem]
        simp [Request.Keyed, RequestType.CarriesKey, uploadRequest]

/-- **The public keys of the store.**  After every run, the stored requests without a public
key are those that are neither contact requests nor acceptances. -/
theorem keyed_after (env : Env) (tr : List Act) : ∀ r ∈ (after env tr).requests, r.Keyed := by
  have hboth : StoreInv (after env tr) ∧ ∀ r ∈ (after env tr).requests, r.Keyed := by
    refine invariant_after (P := fun σ => StoreInv σ ∧ ∀ r ∈ σ.requests, r.Keyed) ?_ ?_ tr
    · exact ⟨.init, fun _ hr => absurd hr List.not_mem_nil⟩
    · intro σ a hp h
      exact ⟨h.1.next hp, keyed_next env h.1 hp h.2⟩
  exact hboth.2

/-! ## What leaves the process running -/

/-- Only `terminate` ends the process. -/
theorem terminated_exec (env : Env) {o : Op} (ho : o ≠ .terminate) (c : Choice) (σ : ServerState) :
    (exec env o c σ).2.terminated = σ.terminated := by
  by_cases hreads : o.Reads
  · rw [exec_of_reads env hreads]
  cases o with
  | terminate => exact absurd rfl ho
  | insertAccount | setFcmToken | insertRequest | removeRequest =>
    exact dbCall_cases (P := fun τ => τ.terminated = σ.terminated) rfl fun _ => rfl
  | addReceiver | addEngineSender | fopenAppend =>
    rw [exec]
    split <;> rfl
  | removeSession s =>
    show (σ.removeSession s).terminated = _
    unfold ServerState.removeSession
    dsimp only
    split <;> rfl
  | _ => first | rfl | exact absurd trivial hreads

/-- A program that does not perform it leaves the process running. -/
theorem terminated_run {α : Type} (env : Env) {p : Prog α} (hp : Proc.Within (· ≠ Op.terminate) p)
    (w : World) : (Proc.run (step env) p w).2.server.terminated = w.server.terminated := by
  refine hp.run (P := fun w' : World => w'.server.terminated = w.server.terminated) ?_ rfl
  intro o w' ho hw'
  exact (terminated_exec env ho (w'.tape 0) w'.server).trans hw'

/-- The handlers of ten request types perform no `terminate`. -/
theorem within_returning (env : Env) (s : SessionId) (head : UBJ.Object)
    (hlogin : env.decode (head.get "requestType").toInt ≠ some .login)
    (haccept : env.decode (head.get "requestType").toInt ≠ some .acceptContact) :
    Proc.Within (· ≠ Op.terminate) (processIncomingRequest env s head) := by
  have hreturning : ∀ {t : RequestType} {p : Prog Bool}, Proc.Within (Op.OfReturning s t) p →
      Proc.Within (· ≠ Op.terminate) p := by
    intro t p hp
    refine hp.sub fun o ho he => ?_
    subst he
    exact ho
  unfold processIncomingRequest
  split
  · exact hreturning (within_processDispatchRequest s head)
  · have hcreate : Proc.Within (Op.OfCreateAccount s) (processCreateAccount env s head) := by
      simp [processCreateAccount]
    refine hcreate.sub fun o ho he => ?_
    subst he
    exact ho
  · next ht => exact absurd ht hlogin
  · refine (within_processLogout env s head).sub fun o ho he => ?_
    subst he
    exact ho
  · refine (within_processConfigRequest env s head).sub fun o ho he => ?_
    subst he
    exact ho
  · exact hreturning (within_processAddContactRequest s head)
  · exact hreturning (within_processCreateAddCode s head)
  · exact hreturning (within_processFindContactRequest s head)
  · next ht => exact absurd ht haccept
  · exact hreturning (within_processRejectContact s head)
  · exact hreturning (within_processContactStatusRequest s head)
  · exact hreturning (within_processPushRequest s head)
  · exact trivial

/-! ## The two handlers that can end it -/

section

variable (env : Env) (w : World) (s : SessionId) (head : UBJ.Object)

/-- A login that gets as far as the password, which is not a buffer. -/
def FatalLogin : Prop :=
  (w.server.sessions s).status ≠ .loggedIn ∧ head.hasField "account" = true ∧
    head.hasField "password" = true ∧
    (w.account env { id := some (head.get "account").toInt }).isSome ∧
    (head.get "password").buffer? = none

/-- An acceptance that gets as far as the public key of the record it names, which has none. -/
def FatalAccept : Prop :=
  (w.server.sessions s).status = .loggedIn ∧
    (∃ d, answeredRecord w s head = some d ∧ ¬ d.type.CarriesKey) ∧
    (w.next.account env { id := some (w.server.sessions s).accountId }).isSome

/-- The requests that end the process. -/
def Fatal : Prop :=
  match env.decode (head.get "requestType").toInt with
  | some .login => FatalLogin env w s head
  | some .acceptContact => FatalAccept env w s head
  | _ => False

@[simp] theorem terminated_respond (r : Response) :
    (w.respond s r).server.terminated = w.server.terminated := rfl

@[simp] theorem terminated_schedule (id : UInt32) :
    (w.schedule id).server.terminated = w.server.terminated := rfl

@[simp] theorem terminated_putContact (id : UInt32) :
    (w.putContact s id).server.terminated = w.server.terminated := rfl

@[simp] theorem terminated_insertRequest (r : Request) :
    (w.insertRequest r).server.terminated = w.server.terminated := by
  unfold World.insertRequest
  dsimp only
  split <;> rfl

@[simp] theorem terminated_removeRequest (q : RequestQuery) :
    (w.removeRequest q).server.terminated = w.server.terminated := by
  unfold World.removeRequest
  dsimp only
  split <;> rfl

/-- A login that has succeeded is also processed to its end. -/
theorem terminated_afterLogin (x : UInt32) :
    (Proc.run (step env) (afterLogin env s head x) w).2.server.terminated =
      w.server.terminated := by
  refine terminated_run env ((within_afterLogin env s head x).sub fun o ho he => ?_) w
  subst he
  exact ho.elim id id

theorem terminated_processLogin (hlive : w.server.terminated = false) :
    (Proc.run (step env) (processLogin env s head) w).2.server.terminated = true ↔
      FatalLogin env w s head := by
  unfold FatalLogin
  by_cases hst : (w.server.sessions s).status = .loggedIn
  · simp [processLogin, Proc.run_bind, hst, hlive]
  by_cases haccount : head.hasField "account" = true
  swap
  · simp [processLogin, Proc.run_bind, hst, haccount, hlive]
  by_cases hpassword : head.hasField "password" = true
  swap
  · simp [processLogin, Proc.run_bind, hst, haccount, hpassword, hlive]
  cases ha : w.account env { id := some (head.get "account").toInt } with
  | none => simp [processLogin, Proc.run_bind, hst, haccount, hpassword, run_getAccount, ha, hlive]
  | some account =>
    cases hv : verifyPassword env account (head.get "password").buffer? with
    | none =>
      have hb : (head.get "password").buffer? = none := Option.map_eq_none_iff.mp hv
      rw [hb] at hv
      simp [processLogin, Proc.run_bind, hst, haccount, hpassword, run_getAccount, ha, hb, hv]
    | some ok =>
      have hb : (head.get "password").buffer? ≠ none := fun hb => by
        rw [hb] at hv
        cases hv
      cases ok with
      | false =>
        simp [processLogin, Proc.run_bind, hst, haccount, hpassword, run_getAccount, ha, hv, hb,
          hlive]
      | true =>
        have hrun := run_processLogin env w s head
        have hinput : loginInput env w s head = some (head.get "account").toInt := by
          simp [loginInput, hst, haccount, hpassword, ha, hv]
        rw [hinput] at hrun
        dsimp only at hrun
        rw [hrun, terminated_afterLogin, World.update_server, ServerState.login_eq,
          World.next_server,
          hlive]
        simp [hb]

theorem terminated_processAcceptContact (hlive : w.server.terminated = false)
    (hkeyed : ∀ r ∈ w.server.requests, r.Keyed) :
    (Proc.run (step env) (processAcceptContact s head) w).2.server.terminated = true ↔
      FatalAccept env w s head := by
  unfold FatalAccept
  by_cases hst : (w.server.sessions s).status = .loggedIn
  swap
  · simp [processAcceptContact, Proc.run_bind, hst, hlive]
  cases hd : answeredRecord w s head with
  | none =>
    have hr := hd
    unfold answeredRecord at hr
    simp [processAcceptContact, Proc.run_bind, hst, run_getRequest, hr, hlive]
  | some d =>
    have hr := hd
    unfold answeredRecord at hr
    have hkey := hkeyed d (mem_of_answeredRecord hd).1
    cases ha : w.next.account env { id := some (w.server.sessions s).accountId } with
    | none =>
      simp [processAcceptContact, Proc.run_bind, hst, run_getRequest, hr, run_getAccount, ha, hlive]
    | some account =>
      cases hk : d.publicKey with
      | none =>
        have hno : ¬ d.type.CarriesKey := hkey.mp hk
        simp [processAcceptContact, Proc.run_bind, hst, run_getRequest, hr, run_getAccount, ha, hk,
          hno]
      | some contactPublicKey =>
        have hcarries : d.type.CarriesKey := by
          by_contra hno
          rw [hkey.mpr hno] at hk
          cases hk
        cases hp : publicKeyOf head with
        | none =>
          simp [processAcceptContact, Proc.run_bind, hst, run_getRequest, hr, run_getAccount, ha,
            hk, hp, hcarries, hlive]
        | some publicKey =>
          have hrun := run_processAcceptContact env w s head
          have hinput : acceptInput env w s head =
              some ⟨d, account, contactPublicKey, publicKey⟩ := by
            simp [acceptInput, hst, hd, ha, hk, hp]
          rw [hinput] at hrun
          obtain ⟨data, hrun⟩ := hrun
          rw [hrun]
          have hskip : (w.skip 2).server.terminated = w.server.terminated := rfl
          simp [hcarries, hskip, hlive]

/-- **The requests that end the process.** -/
theorem terminated_processIncomingRequest (hlive : w.server.terminated = false)
    (hkeyed : ∀ r ∈ w.server.requests, r.Keyed) :
    (Proc.run (step env) (processIncomingRequest env s head) w).2.server.terminated = true ↔
      Fatal env w s head := by
  by_cases hlogin : env.decode (head.get "requestType").toInt = some .login
  · simpa only [processIncomingRequest, Fatal, hlogin] using
      terminated_processLogin env w s head hlive
  by_cases haccept : env.decode (head.get "requestType").toInt = some .acceptContact
  · simpa only [processIncomingRequest, Fatal, haccept] using
      terminated_processAcceptContact env w s head hlive hkeyed
  have hnot : ¬ Fatal env w s head := by
    unfold Fatal
    split
    · next ht => exact absurd ht hlogin
    · next ht => exact absurd ht haccept
    · exact not_false
  rw [terminated_run env (within_returning env s head hlogin haccept), hlive]
  simp [hnot]

end

/-! ## Requests in reachable states -/

/-- The handler of a request comes to its end: it reads no null buffer and lets no exception
out. -/
def Returns (env : Env) (σ : ServerState) (s : SessionId) (head : UBJ.Object)
    (tape : Nat → Choice) : Prop :=
  (Prog.runOn env (processIncomingRequest env s head) tape σ).2.terminated = false

instance (env : Env) (σ : ServerState) (s : SessionId) (head : UBJ.Object) (tape : Nat → Choice) :
    Decidable (Returns env σ s head tape) := by
  unfold Returns
  infer_instance

/-- In every state that a run reaches, a request is handled to its end exactly if it is neither
a login whose password is not a buffer nor an acceptance of a stored request without a public
key. -/
theorem returns_of_live (env : Env) (tr : List Act) (hlive : (after env tr).terminated = false)
    (s : SessionId) (head : UBJ.Object) (tape : Nat → Choice) :
    Returns env (after env tr) s head tape ↔ ¬ Fatal env ⟨after env tr, tape, []⟩ s head := by
  have hfatal := terminated_processIncomingRequest env ⟨after env tr, tape, []⟩ s head hlive
    (keyed_after env tr)
  rw [← hfatal, Bool.not_eq_true]
  exact Iff.rfl

/-- The upload ends the process: its file exists already. -/
def FatalUpload (σ : ServerState) (pkt : Packet) : Prop :=
  pkt.streamType = .resource ∧ (σ.files (tmpFile pkt.streamId)).isSome = true

/-- Does the step end the process? -/
def Act.Fatal (env : Env) (σ : ServerState) (a : Act) : Prop :=
  match a.event with
  | .request s head => ZwayServer.Fatal env ⟨σ, a.tape, []⟩ s head
  | .createReceiver _ pkt => FatalUpload σ pkt
  | _ => False

theorem terminated_createReceiver (env : Env) {σ : ServerState} {s : SessionId} {pkt : Packet}
    {tape : Nat → Choice} (hp : (Act.mk (.createReceiver s pkt) tape).Possible σ) :
    (next env σ ⟨.createReceiver s pkt, tape⟩).terminated = true ↔ FatalUpload σ pkt := by
  have hlive : σ.terminated = false := hp.1
  rw [next_of_possible env hp]
  simp only [Event.handler, Act.world, Event.note, Proc.run_bind, Proc.run_pure,
    createStreamReceiver, Proc.run_ite, FatalUpload]
  by_cases htype : pkt.streamType = .resource
  swap
  · simp [htype, hlive]
  rw [if_neg (not_not.mpr htype), run_streamBufferCreate]
  by_cases hfile : (σ.files (tmpFile pkt.streamId)).isSome = true
  · simp [hfile, htype, World.terminate]
  by_cases hopen : (tape 0).fails = true
  · simp [hfile, hopen, World.next, hlive]
  · simp only [hfile, hopen, if_false, and_false, iff_false, Bool.not_eq_true, Bool.false_eq_true]
    rw [terminated_run env (by simp [Server.addStreamBuffer])]
    exact hlive

/-- No event but these ends the process. -/
theorem terminated_next_of_other (env : Env) {σ : ServerState} {a : Act} (hp : a.Possible σ)
    (hrequest : ∀ s head, a.event ≠ .request s head)
    (hupload : ∀ s pkt, a.event ≠ .createReceiver s pkt) : (next env σ a).terminated = false := by
  refine footprint_next (P := fun σ' => σ'.terminated = false) hp ?_ ?_
  · have hlive := hp.1
    cases ha : a.event <;> exact hlive
  · intro o c σ' ho hσ'
    refine (terminated_exec env ?_ c σ').trans hσ'
    rintro rfl
    cases ha : a.event with
    | request s head => exact hrequest s head ha
    | createReceiver s pkt => exact hupload s pkt ha
    | userRequests k =>
      rw [ha] at ho
      obtain ⟨s, hs⟩ := ho
      exact hs
    | _ =>
      rw [ha] at ho
      exact ho

/-- **Which requests return.**  The process is still running after a run exactly if none of the
run's steps was fatal, and while it is, the requests that it handles to their end are those that
are not fatal. -/
theorem returns_iff (env : Env) (tr : List Act) :
    ((after env tr).terminated = false ↔
      EveryStep env (fun earlier a => ¬ a.Fatal env (after env earlier)) tr) ∧
    ((after env tr).terminated = false → ∀ s head tape,
      Returns env (after env tr) s head tape ↔
        ¬ Fatal env ⟨after env tr, tape, []⟩ s head) := by
  refine ⟨?_, fun hlive s head tape => returns_of_live env tr hlive s head tape⟩
  induction tr with
  | nil => exact iff_of_true rfl trivial
  | cons a tr ih =>
    rw [after_cons, EveryStep, ← ih]
    by_cases hp : a.Possible (after env tr)
    swap
    · rw [next_of_not_possible hp]
      exact ⟨fun hlive => ⟨fun h => absurd h hp, hlive⟩, fun h => h.2⟩
    have hstep : (next env (after env tr) a).terminated = false ↔ ¬ a.Fatal env (after env tr) := by
      obtain ⟨event, tape⟩ := a
      cases event with
      | request s head =>
        rw [next_request_eq env hp]
        exact returns_of_live env tr hp.1 s head tape
      | createReceiver s pkt =>
        rw [← Bool.not_eq_true]
        exact not_congr (terminated_createReceiver env hp)
      | _ =>
        refine iff_of_true (terminated_next_of_other env hp ?_ ?_) id <;>
          exact fun _ _ => Event.noConfusion
    rw [hstep]
    exact ⟨fun h => ⟨fun _ => h, hp.1⟩, fun h => h.1 hp⟩

/-! ## A login and an acceptance that end the process -/

/-- An account exists, and a client has just connected. -/
def crashRun : List Act := sampleConnect 1 ++ sampleJoin 0 "a" 1

/-- The client sends its password as a string. -/
def stringPassword : UBJ.Object :=
  sampleRequest .login 2 [("account", .int32 1), ("password", .string "secret")]

/-- The account has uploaded the resource 7, and its record is still stored. -/
def keylessRun : List Act := sampleUploaded 0 7 :: sampleUpload 0 7 :: sampleJoin 0 "a" 1

/-- It accepts that record as if it were a contact request. -/
def acceptUpload : UBJ.Object :=
  sampleRequest .acceptContact 3 [("contactRequestId", .int32 7), sampleKey]

theorem returns_iff_crashRun :
    Returns sampleEnv (after sampleEnv crashRun) 1
        (sampleRequest .login 2 [("account", .int32 1), ("password", .buffer [])]) (calm 0) ↔
      ¬ Fatal sampleEnv ⟨after sampleEnv crashRun, calm 0, []⟩ 1
        (sampleRequest .login 2 [("account", .int32 1), ("password", .buffer [])]) :=
  (returns_iff sampleEnv crashRun).2 (by decide +kernel) 1 _ (calm 0)

theorem not_returns :
    ((sampleStep 1 stringPassword).Possible (after sampleEnv crashRun) ∧
      ¬ Returns sampleEnv (after sampleEnv crashRun) 1 stringPassword (calm 0)) ∧
    ((sampleStep 0 acceptUpload).Possible (after sampleEnv keylessRun) ∧
      ¬ Returns sampleEnv (after sampleEnv keylessRun) 0 acceptUpload (calm 0)) := by
  refine ⟨⟨?_, ?_⟩, ?_, ?_⟩ <;> decide +kernel

end ZwayServer
