import ZwayServer.Crash
import ZwayServer.Delivery

/-!
# What a session can do without a login

The handlers of requests check the status of their session; the handlers of stream
packets do not, and neither do the callbacks of posted requests.

* `OnlyOn s` — nothing changed but the session `s` itself.
* `NoEffect` — the same, but for the account that a request may create.
* `Harmless` — the condition under which what arrives has no effect.
* `noEffect_iff_harmless` — on a session that has never logged in, what arrives has no
  effect exactly if it is harmless; every request is that does not end the process.
-/

namespace ZwayServer

open ClientSession

/-! ## Changes to one session -/

/-- Nothing changed but the session `s`; in particular the process goes on. -/
def OnlyOn (s : SessionId) (σ σ' : ServerState) : Prop :=
  ∃ x, σ' = { σ with sessions := Function.update σ.sessions s x }

namespace OnlyOn

variable {s : SessionId} {σ σ' σ'' : ServerState}

theorem refl (s : SessionId) (σ : ServerState) : OnlyOn s σ σ :=
  ⟨σ.sessions s, by simp⟩

theorem trans (h : OnlyOn s σ σ') (h' : OnlyOn s σ' σ'') : OnlyOn s σ σ'' := by
  obtain ⟨x, rfl⟩ := h
  obtain ⟨x', rfl⟩ := h'
  exact ⟨x', by simp⟩

theorem modify (s : SessionId) (σ : ServerState) (f : Session → Session) :
    OnlyOn s σ (σ.modify s f) :=
  ⟨f (σ.sessions s), rfl⟩

theorem respond (w : World) (s : SessionId) (r : Response) :
    OnlyOn s w.server (w.respond s r).server :=
  modify s w.server fun x => { x with outbox := x.outbox ++ [.response r] }

/-- The other sessions are as they were. -/
theorem sessions (h : OnlyOn s σ σ') {t : SessionId} (ht : t ≠ s) :
    σ'.sessions t = σ.sessions t := by
  obtain ⟨x, rfl⟩ := h
  simp [ht]

theorem requests (h : OnlyOn s σ σ') : σ'.requests = σ.requests := by
  obtain ⟨x, rfl⟩ := h
  rfl

theorem files (h : OnlyOn s σ σ') : σ'.files = σ.files := by
  obtain ⟨x, rfl⟩ := h
  rfl

theorem terminated (h : OnlyOn s σ σ') : σ'.terminated = σ.terminated := by
  obtain ⟨x, rfl⟩ := h
  rfl

theorem heap (h : OnlyOn s σ σ') : σ'.heap = σ.heap := by
  obtain ⟨x, rfl⟩ := h
  rfl

theorem senders (h : OnlyOn s σ σ') : σ'.senders = σ.senders := by
  obtain ⟨x, rfl⟩ := h
  rfl

end OnlyOn

/-- A request that was turned down, and has not ended the process, concerns its session only. -/
theorem Refused.onlyOn {s : SessionId} {w : World} {out : Bool × World} (h : Refused s w out)
    (hlive : out.2.server.terminated = false) : OnlyOn s w.server out.2.server := by
  obtain ⟨id, code, text, hs⟩ | hs := h.server
  · rw [hs]
    exact .modify s _ _
  · rw [hs] at hlive
    cases hlive

/-! ## The law -/

/-- Something arrives on the session; the size of a packet's body has 32 bits. -/
def Event.ArrivesOn (s : SessionId) : Event → Prop
  | receive t _ body => t = s ∧ body.length < 2 ^ 32
  | request t _ | response t _ _ | createReceiver t _ | received t _ => t = s
  | _ => False

/-- The session has not completed a login in the course of the run. -/
def NeverLoggedIn (env : Env) (tr : List Act) (s : SessionId) : Prop :=
  ∀ later a earlier, tr = later ++ a :: earlier → loginOf env (after env earlier) a s = none

/-- The step changes nothing but the session itself, and adds at most the account that its
request creates. -/
def NoEffect (env : Env) (σ : ServerState) (s : SessionId) (a : Act) : Prop :=
  OnlyOn s σ (next env σ a) ∨
    ∃ head account, a.event = .request s head ∧
      env.decode (head.get "requestType").toInt = some .createAccount ∧
      createInput env (a.world σ) s head = some account ∧
      OnlyOn s (σ.insertAccount account) (next env σ a)

theorem authenticated_of_never {env : Env} {tr : List Act} {s : SessionId}
    (h : NeverLoggedIn env tr s) : authenticated env tr s = none := by
  induction tr with
  | nil => rfl
  | cons a tr ih =>
    rw [authenticated, h [] a tr rfl]
    simp only [ite_eq_left_iff]
    intro _
    exact ih fun later b earlier he => h (a :: later) b earlier (by rw [he]; rfl)

/-- A session that has never logged in is not logged in. -/
theorem status_of_never {env : Env} {tr : List Act} {s : SessionId} (h : NeverLoggedIn env tr s) :
    ((after env tr).sessions s).status ≠ .loggedIn := fun hst => by
  have hauth := authenticated_of_loggedIn env tr hst
  rw [authenticated_of_never h] at hauth
  cases hauth

/-! ## Requests -/

/-- A request of a session that is not logged in, and does not become so, has no effect if it
does not end the process. -/
theorem noEffect_of_not_fatal {env : Env} {σ : ServerState} {s : SessionId} {head : UBJ.Object}
    {tape : Nat → Choice} (hp : (Act.mk (.request s head) tape).Possible σ)
    (hst : (σ.sessions s).status ≠ .loggedIn)
    (hlogin : loginOf env σ ⟨.request s head, tape⟩ s = none)
    (hlive : (next env σ ⟨.request s head, tape⟩).terminated = false) :
    NoEffect env σ s ⟨.request s head, tape⟩ := by
  unfold NoEffect
  rw [next_request_eq env hp] at hlive ⊢
  cases ht : env.decode (head.get "requestType").toInt with
  | none =>
    have hrun : (Proc.run (step env) (processIncomingRequest env s head) ⟨σ, tape, []⟩).2 =
        ⟨σ, tape, []⟩ := by
      simp [processIncomingRequest, ht]
    rw [hrun]
    exact Or.inl (.refl s σ)
  | some t =>
    by_cases hcreate : t = .createAccount
    · subst hcreate
      have h := run_processCreateAccount env ⟨σ, tape, []⟩ s head
      have hrun : processIncomingRequest env s head = processCreateAccount env s head := by
        simp [processIncomingRequest, ht]
      rw [hrun] at hlive ⊢
      cases ha : createInput env ⟨σ, tape, []⟩ s head with
      | none =>
        rw [ha] at h
        exact Or.inl (h.onlyOn hlive)
      | some account =>
        rw [ha] at h
        simp only at h
        rw [h]
        by_cases hf : (tape 3).fails = true
        · rw [if_pos hf]
          exact Or.inl (.respond _ s _)
        · rw [if_neg hf]
          exact Or.inr ⟨head, account, rfl, ht, ha, .respond _ s _⟩
    by_cases hislogin : t = .login
    · subst hislogin
      have h := run_processLogin env ⟨σ, tape, []⟩ s head
      have hrun : processIncomingRequest env s head = processLogin env s head := by
        simp [processIncomingRequest, ht]
      rw [hrun] at hlive ⊢
      have hnone : loginInput env ⟨σ, tape, []⟩ s head = none := by
        simpa [loginOf, hp, ht, Act.world, Event.note] using hlogin
      rw [hnone] at h
      exact Or.inl (h.onlyOn hlive)
    rw [run_notPermitted (w := ⟨σ, tape, []⟩) ht hcreate hislogin hst]
    exact Or.inl (.respond _ s _)

/-- The end of the process is an effect. -/
theorem NoEffect.terminated {env : Env} {σ : ServerState} {s : SessionId} {a : Act}
    (h : NoEffect env σ s a) : (next env σ a).terminated = σ.terminated := by
  obtain h | ⟨head, account, -, -, -, h⟩ := h
  · exact h.terminated
  · exact h.terminated

theorem noEffect_request {env : Env} {σ : ServerState} {s : SessionId} {head : UBJ.Object}
    {tape : Nat → Choice} (hp : (Act.mk (.request s head) tape).Possible σ)
    (hkeyed : ∀ r ∈ σ.requests, r.Keyed) (hst : (σ.sessions s).status ≠ .loggedIn)
    (hlogin : loginOf env σ ⟨.request s head, tape⟩ s = none) :
    NoEffect env σ s ⟨.request s head, tape⟩ ↔ ¬ Fatal env ⟨σ, tape, []⟩ s head := by
  have hend : (next env σ ⟨.request s head, tape⟩).terminated = true ↔
      Fatal env ⟨σ, tape, []⟩ s head := by
    rw [next_request_eq env hp]
    exact terminated_processIncomingRequest env ⟨σ, tape, []⟩ s head hp.1 hkeyed
  rw [← hend, Bool.not_eq_true]
  exact ⟨fun h => h.terminated.trans hp.1, noEffect_of_not_fatal hp hst hlogin⟩

/-! ## Stream packets -/

/-- The first packet of a stream has no effect if the stream is left to the engine, or its file
does not exist and cannot be created. -/
def HarmlessStart (σ : ServerState) (pkt : Packet) (c : Choice) : Prop :=
  pkt.streamType = .resource → σ.files (tmpFile pkt.streamId) = none ∧ c.fails = true

/-- A packet has no effect if nobody receives its stream, its buffer cannot be written, or the
write fails and has put nothing into the file. -/
def HarmlessPacket (σ : ServerState) (s : SessionId) (streamId : UInt32) (body : List UInt8)
    (c : Choice) : Prop :=
  ∀ receiver, (σ.sessions s).receivers.find? (·.streamId == streamId) = some receiver →
    let b := σ.heap.getD receiver.buffer default
    b.append = true → (σ.files b.filename).isSome = true ∧ c.fails = true ∧ c.put body = []

/-- The end of an upload has no effect if nobody receives it, or the insert throws. -/
def HarmlessEnd (σ : ServerState) (s : SessionId) (streamId : UInt32) (c : Choice) : Prop :=
  (σ.sessions s).receivers.find? (·.streamId == streamId) ≠ none → c.fails = true

theorem noEffect_iff_onlyOn {env : Env} {σ : ServerState} {s : SessionId} {a : Act}
    (ha : ∀ head, a.event ≠ .request s head) :
    NoEffect env σ s a ↔ OnlyOn s σ (next env σ a) := by
  constructor
  · rintro (h | ⟨head, account, he, _⟩)
    · exact h
    · exact absurd he (ha head)
  · exact Or.inl

/-- The operations that leave the files alone. -/
@[simp] def Op.KeepsFiles : Op → Prop
  | .fopenAppend _ | .fwrite .. => False
  | _ => True

theorem files_exec (env : Env) {o : Op} (h : o.KeepsFiles) (c : Choice) (σ : ServerState) :
    (exec env o c σ).2.files = σ.files := by
  by_cases hreads : o.Reads
  · rw [exec_of_reads env hreads]
  cases o with
  | fopenAppend | fwrite => exact h.elim
  | insertAccount | setFcmToken | insertRequest | removeRequest =>
    exact dbCall_cases (P := fun τ => τ.files = σ.files) rfl fun _ => rfl
  | addReceiver | addEngineSender =>
    rw [exec]
    split <;> rfl
  | removeSession s =>
    rw [exec, ServerState.removeSession_eq]
  | _ => first | rfl | exact absurd trivial hreads

/-- A program of such operations leaves the files alone. -/
theorem files_run (env : Env) {α : Type} {p : Prog α} (h : Proc.Within Op.KeepsFiles p)
    (w : World) : (Proc.run (step env) p w).2.server.files = w.server.files :=
  Proc.Within.run (P := fun w' : World => w'.server.files = w.server.files) h
    (fun _ _ ho hw => (files_exec env ho _ _).trans hw) rfl

theorem onlyOn_createReceiver {env : Env} {σ : ServerState} {s : SessionId} {pkt : Packet}
    {tape : Nat → Choice} (hp : (Act.mk (.createReceiver s pkt) tape).Possible σ) :
    OnlyOn s σ (next env σ ⟨.createReceiver s pkt, tape⟩) ↔ HarmlessStart σ pkt (tape 0) := by
  unfold HarmlessStart
  by_cases htype : pkt.streamType = .resource
  swap
  · rw [next_of_possible env hp]
    simp [Event.handler, Act.world, Event.note, createStreamReceiver, htype, OnlyOn.refl]
  rw [forall_prop_of_true htype]
  cases hfile : σ.files (tmpFile pkt.streamId) with
  | some bytes =>
    refine iff_of_false (fun h => ?_) (by simp)
    have hend := (terminated_createReceiver env hp).mpr ⟨htype, by rw [hfile]; rfl⟩
    rw [h.terminated, hp.1] at hend
    cases hend
  | none =>
    rw [next_of_possible env hp]
    simp only [Event.handler, Act.world, Event.note, Proc.run_bind, Proc.run_pure,
      createStreamReceiver, Proc.run_ite, run_streamBufferCreate]
    by_cases hopen : (tape 0).fails = true
    · simp [htype, hfile, hopen, OnlyOn.refl]
    -- the file is created, whatever becomes of the stream
    simp only [htype, hfile, hopen, ne_eq, not_true_eq_false, if_false, and_false,
      Option.isSome_none, Bool.false_eq_true, iff_false]
    intro h
    have hfiles := h.files
    rw [files_run env (by simp [Server.addStreamBuffer])] at hfiles
    have hfile' := congrFun hfiles (tmpFile pkt.streamId)
    simp [World.createFile, hfile] at hfile'

/-- A write changes the files unless it puts nothing into a file that exists. -/
theorem update_put_eq_iff (files : String → Option (List UInt8)) (name : String)
    (bytes : List UInt8) :
    Function.update files name (some ((files name).getD [] ++ bytes)) = files ↔
      (files name).isSome = true ∧ bytes = [] := by
  constructor
  · intro h
    have hname := congrFun h name
    rw [Function.update_self] at hname
    cases hold : files name with
    | none =>
      rw [hold] at hname
      cases hname
    | some old =>
      rw [hold] at hname
      exact ⟨rfl, by simpa using hname⟩
  · rintro ⟨hsome, rfl⟩
    obtain ⟨old, hold⟩ := Option.isSome_iff_exists.mp hsome
    simp [hold]

theorem onlyOn_receive {env : Env} {σ : ServerState} {s : SessionId} {id : UInt32}
    {body : List UInt8} {tape : Nat → Choice} (hlen : body.length < 2 ^ 32)
    (hp : (Act.mk (.receive s id body) tape).Possible σ) :
    OnlyOn s σ (next env σ ⟨.receive s id body, tape⟩) ↔
      HarmlessPacket σ s id body (tape 0) := by
  have hbody : body ≠ [] := hp.2.2.2
  rw [next_of_possible env hp]
  simp only [Event.handler, Act.world, Event.note, receivePacket, Proc.run_bind, Proc.run_perform,
    step_findReceiver, HarmlessPacket]
  cases hr : (σ.sessions s).receivers.find? (·.streamId == id) with
  | none => simp [OnlyOn.refl]
  | some receiver =>
    simp only [Option.some.injEq, forall_eq', Proc.run_bind, Proc.run_pure]
    rw [run_streamBufferWrite]
    simp only [hbody, or_false]
    cases happend : (σ.heap.getD receiver.buffer default).append with
    | false =>
      rw [if_pos rfl]
      simp [OnlyOn.refl]
    | true =>
      rw [forall_prop_of_true rfl, if_neg Bool.noConfusion]
      by_cases hf : (tape 0).fails = true
      · simp only [hf, if_true, true_and]
        rw [← update_put_eq_iff]
        constructor
        · exact fun h => h.files
        · intro hsame
          rw [hsame]
          exact .refl s σ
      · -- the buffer has grown, whatever is in the file
        simp only [hf, if_false, and_false, false_and, Bool.false_eq_true, iff_false]
        intro h
        have hheap := congrArg (fun heap => (heap.getD receiver.buffer default).bytesReadable)
          h.heap
        have hlt := lt_length_of_append happend
        simp only [List.getD, List.getElem?_set_self hlt, Option.getD_some] at hheap
        have hzero : UInt64.ofNat body.length = 0 := by simpa using hheap
        have hlength := congrArg UInt64.toNat hzero
        rw [UInt64.toNat_ofNat_of_lt' (lt_trans hlen (by decide))] at hlength
        exact hbody (List.eq_nil_of_length_eq_zero hlength)

/-! ## Uploads -/

/-- The operations of a delivery to the session `s`. -/
@[simp] def Op.DeliversTo (s : SessionId) : Op → Prop
  | .putContact t _ _ | .postRequest t _ => t = s
  | .accountId _ | .config _ | .requestPending .. | .getSessions _ | .findRequests .. => True
  | _ => False

theorem onlyOn_exec (env : Env) {s : SessionId} {o : Op} (h : o.DeliversTo s) (c : Choice)
    (σ : ServerState) : OnlyOn s σ (exec env o c σ).2 := by
  cases o with
  | putContact t id v =>
    obtain rfl : t = s := h
    exact .modify t σ fun x => { x with contacts := x.contacts.insert id v }
  | postRequest t p =>
    obtain rfl : t = s := h
    have hsend : OnlyOn t σ (σ.send t (.request p.type p.id p.head)) :=
      .modify t σ fun x => { x with outbox := x.outbox ++ [.request p.type p.id p.head] }
    exact hsend.trans (.modify t _ fun x => { x with posted := x.posted ++ [p] })
  | findRequests | accountId | config | requestPending | getSessions => exact .refl s σ
  | _ => exact h.elim

theorem deliversTo_getContactStatus (s : SessionId) (id : UInt32) :
    Proc.Within (Op.DeliversTo s) (getContactStatus id) := by
  have hloop : ∀ sessions, Proc.Within (Op.DeliversTo s) (statusOfSessions sessions) := by
    intro sessions
    induction sessions with
    | nil => exact trivial
    | cons t sessions ih =>
      refine Proc.safe_bind.mpr ⟨trivial, fun _ _ => ?_⟩
      exact Proc.safe_ite.mpr ⟨fun _ => trivial, fun _ => ih⟩
  exact Proc.safe_bind.mpr ⟨trivial, fun sessions _ => hloop sessions⟩

/-- Delivery to a session changes nothing but that session. -/
theorem onlyOn_processRequests (env : Env) (s : SessionId) (w : World) :
    OnlyOn s w.server (Proc.run (step env) (processRequests env s) w).2.server := by
  have hround : ∀ request, Proc.Within (Op.DeliversTo s) (processRequest env s request) := by
    intro request
    have hstatus := deliversTo_getContactStatus s request.src
    simp only [processRequest, Proc.Within, Proc.safe_ite, Proc.safe_bind, Proc.safe_perform]
    refine ⟨trivial, fun _ _ => ⟨fun _ => trivial, fun _ => ?_⟩⟩
    cases request.type with
    | dispatch | addContact | rejectContact | push => exact ⟨rfl, fun _ _ => trivial⟩
    | acceptContact =>
      simp only [Proc.safe_bind, Proc.safe_perform]
      exact hstatus.safe fun n => ⟨rfl, fun _ _ => ⟨rfl, fun _ _ => trivial⟩⟩
    | _ => exact trivial
  have hwithin : Proc.Within (Op.DeliversTo s) (processRequests env s) := by
    have hloop : ∀ requests, Proc.Within (Op.DeliversTo s)
        (forM requests (processRequest env s)) := fun requests =>
      Proc.Safe.forM fun request _ => hround request
    simp only [processRequests, Proc.Within, Proc.safe_bind, Proc.safe_perform, safe_getRequests]
    exact ⟨trivial, fun _ _ => ⟨trivial, fun requests _ => (hloop _).safe fun _ => trivial⟩⟩
  exact Proc.Within.run (P := fun w' : World => OnlyOn s w.server w'.server) hwithin
    (fun o w' ho hw' => hw'.trans (onlyOn_exec env ho _ _)) (.refl s w.server)

theorem onlyOn_received {env : Env} {σ : ServerState} {s : SessionId} {id : UInt32}
    {tape : Nat → Choice} (hp : (Act.mk (.received s id) tape).Possible σ) :
    OnlyOn s σ (next env σ ⟨.received s id, tape⟩) ↔ HarmlessEnd σ s id (tape 0) := by
  have hrecv := next_received env hp
  have hrun := next_of_possible env hp
  simp only [Event.handler, Act.world, Event.note, streamReceived, Proc.run_bind, Proc.run_perform,
    step_findReceiver] at hrun
  unfold HarmlessEnd
  cases hr : (σ.sessions s).receivers.find? (·.streamId == id) with
  | none =>
    rw [hr] at hrecv
    simp only at hrecv
    rw [hrecv]
    simp [OnlyOn.refl]
  | some receiver =>
    rw [hr] at hrecv hrun
    simp only [ne_eq, reduceCtorEq, not_false_eq_true, true_imp_iff]
    by_cases hf : (tape 0).fails = true
    · simp only [Proc.run_bind, Proc.run_perform, step_accountId, run_addRequest,
        Proc.run_pure] at hrun
      rw [hrun]
      have hdelivery := onlyOn_processRequests env s ((World.mk σ tape []).insertRequest
        (uploadRequest receiver.streamId (σ.sessions s).accountId))
      simp only [World.insertRequest, hf, if_true] at hdelivery ⊢
      exact ⟨fun _ => trivial, fun _ => hdelivery⟩
    · refine ⟨fun h => ?_, fun h => absurd h hf⟩
      have hrequests := hrecv.requests
      rw [h.requests] at hrequests
      simp [World.insertRequest, hf, ServerState.insertRequest] at hrequests

/-! ## Responses -/

/-- The resources of an acknowledgement of which the sender can be initialised, each with
whether the engine takes it. -/
def initialised : List UInt32 → (Nat → Choice) → List (UInt32 × Bool)
  | [], _ => []
  | id :: ids, tape =>
    if id = 0 then initialised ids tape
    else if (tape 0).fails then initialised ids fun n => tape (n + 1)
    else (id, !(tape 1).fails) :: initialised ids fun n => tape (n + 2)

/-- Asking for the buffer of a stream does not make one: it is known, or there is no file. -/
def ServerState.Settled (σ : ServerState) (id : UInt32) : Prop :=
  (σ.buffers[id]?).isSome = true ∨ σ.files (tmpFile id) = none

/-- Naming resources has no effect if those that are initialised are not taken by the engine,
and no file is opened for them. -/
def HarmlessResources (σ : ServerState) (ids : List UInt32) (tape : Nat → Choice) : Prop :=
  ∀ x ∈ initialised ids tape, x.2 = false ∧ σ.Settled x.1

/-- A response has no effect if it acknowledges nothing; or if its acknowledgement removes
nothing, and sends nothing. -/
def HarmlessResponse (σ : ServerState) (s : SessionId) (p : Posted) (response : UBJ.Object)
    (tape : Nat → Choice) : Prop :=
  Acknowledges p response →
    ((tape 0).fails = true ∨
      ∀ r ∈ σ.requests, (ackQuery p (σ.sessions s).accountId).matches r = false) ∧
    (p.type = .push → HarmlessResources σ
      ((response.get "resources").toArray.map UBJ.Value.toInt) fun n => tape (n + 1))

/-- How many senders and buffers have ever been made. -/
def ServerState.streamCount (σ : ServerState) : Nat := σ.senders.length + σ.heap.length

/-- The file of a stream has been opened again. -/
def ServerState.reopen (env : Env) (id : UInt32) (bytes : List UInt8) (σ : ServerState) :
    ServerState :=
  let size := UInt64.ofNat bytes.length
  let parts := size / env.maxPacketBody
  let parts := if size % env.maxPacketBody ≠ 0 then parts + 1 else parts
  let b : StreamBuffer :=
    { streamId := id, streamType := .resource, streamParts := parts.toUInt32,
      bytesReadable := size, lastActivity := 0, filename := tmpFile id, append := false }
  { σ with heap := σ.heap ++ [b], buffers := σ.buffers.insert id σ.heap.length }

section

variable (env : Env) {id : UInt32} {w : World}

theorem run_getStreamBuffer_of_some {ref : Nat} (hbuffer : w.server.buffers[id]? = some ref) :
    Proc.run (step env) (Server.getStreamBuffer env id) w = (some ref, w) := by
  simp [Server.getStreamBuffer, Proc.run_bind, hbuffer, step, exec, Op.draws]

theorem run_getStreamBuffer_of_none (hbuffer : w.server.buffers[id]? = none)
    (hfile : w.server.files (tmpFile id) = none) :
    Proc.run (step env) (Server.getStreamBuffer env id) w = (none, w) := by
  simp [Server.getStreamBuffer, StreamBuffer.open, hbuffer, hfile, Proc.run_bind, step, exec,
    Op.draws]

theorem run_getStreamBuffer_of_file {bytes : List UInt8} (hbuffer : w.server.buffers[id]? = none)
    (hfile : w.server.files (tmpFile id) = some bytes) :
    Proc.run (step env) (Server.getStreamBuffer env id) w =
      (some w.server.heap.length, w.update (·.reopen env id bytes)) := by
  simp [Server.getStreamBuffer, StreamBuffer.open, hbuffer, hfile, Proc.run_bind, step, exec,
    Op.draws, World.update, ServerState.reopen]

end

/-- A buffer that is known, or whose file does not exist, is not made again. -/
theorem run_getStreamBuffer (env : Env) (id : UInt32) (w : World) :
    (w.server.Settled id → (Proc.run (step env) (Server.getStreamBuffer env id) w).2 = w) ∧
    (¬ w.server.Settled id →
      (Proc.run (step env) (Server.getStreamBuffer env id) w).2.server.streamCount =
        w.server.streamCount + 1) ∧
    (Proc.run (step env) (Server.getStreamBuffer env id) w).2.tape = w.tape := by
  unfold ServerState.Settled
  cases hbuffer : w.server.buffers[id]? with
  | some ref => simp [run_getStreamBuffer_of_some env hbuffer]
  | none =>
    cases hfile : w.server.files (tmpFile id) with
    | none => simp [run_getStreamBuffer_of_none env hbuffer hfile]
    | some bytes =>
      simp [run_getStreamBuffer_of_file env hbuffer hfile, World.update, ServerState.reopen,
        ServerState.streamCount]
      omega

/-- The sender joins both lists if the engine takes it. -/
def World.addSender (w : World) (s : SessionId) (x : Sender) : World :=
  w.update fun σ =>
    { σ.modify s fun y => { y with senders := y.senders ++ [x] } with senders := σ.senders ++ [x] }

/-- A resource opens the buffer of its stream, and makes a sender if the engine takes it. -/
theorem run_sendResource (env : Env) (s : SessionId) (it : UBJ.Value) (w : World) :
    (Proc.run (step env) (sendResource env s it) w).2 =
      let out := Proc.run (step env) (Server.getStreamBuffer env it.toInt) w.next
      if it.toInt = 0 then w
      else if (w.tape 0).fails then w.next
      else if (w.tape 1).fails then out.2.next
      else out.2.next.addSender s { session := s, streamId := it.toInt, buffer := out.1 } := by
  by_cases hid : it.toInt = 0
  · simp [sendResource, hid]
  by_cases hinit : (w.tape 0).fails = true
  · simp [sendResource, StreamBufferSender.create, hid, hinit, Proc.run_bind, step, exec, Op.draws,
      World.next]
  have hstart : step env (.senderInit s it.toInt) w = (true, w.next) := by
    simp [step, exec, Op.draws, hinit, World.next]
  have htaken : (Proc.run (step env) (Server.getStreamBuffer env it.toInt) w.next).2.tape 0 =
      w.tape 1 := congrFun (run_getStreamBuffer env it.toInt w.next).2.2 0
  simp only [sendResource, StreamBufferSender.create, StreamBufferSender.getBuffer, hid, hinit,
    ne_eq, not_false_eq_true, if_true, if_false, Proc.run_bind, Proc.run_perform, hstart,
    Bool.not_true, Bool.false_eq_true, Proc.run_pure, ← htaken]
  generalize Proc.run (step env) (Server.getStreamBuffer env it.toInt) w.next = out
  by_cases hadds : (out.2.tape 0).fails = true
  · have hstep : ∀ x, step env (.addEngineSender s x) out.2 = (false, out.2.next) := fun x => by
      simp [step, exec, Op.draws, hadds, World.next]
    simp only [hadds, if_true, hstep, Bool.false_eq_true, if_false, Proc.run_pure]
  · have hstep : ∀ x, step env (.addEngineSender s x) out.2 = (true, out.2.next.update
        (·.modify s fun y => { y with senders := y.senders ++ [x] })) := fun x => by
      simp [step, exec, Op.draws, hadds, World.next, World.update]
    simp only [hadds, if_false, hstep, if_true, Bool.false_eq_true]
    rfl

/-- If all resources are harmless nothing is done; otherwise something is made. -/
theorem streamCount_forM_sendResource (env : Env) (s : SessionId) (items : List UBJ.Value)
    (w : World) :
    (HarmlessResources w.server (items.map UBJ.Value.toInt) w.tape →
      (Proc.run (step env) (forM items (sendResource env s)) w).2.server = w.server) ∧
    w.server.streamCount ≤
      (Proc.run (step env) (forM items (sendResource env s)) w).2.server.streamCount ∧
    (¬ HarmlessResources w.server (items.map UBJ.Value.toInt) w.tape →
      w.server.streamCount <
        (Proc.run (step env) (forM items (sendResource env s)) w).2.server.streamCount) := by
  induction items generalizing w with
  | nil => simp [HarmlessResources, initialised]
  | cons it items ih =>
    rw [Proc.run_forM_cons, run_sendResource]
    dsimp only
    by_cases hid : it.toInt = 0
    · simpa only [HarmlessResources, initialised, List.map_cons, if_pos hid] using ih w
    by_cases hinit : (w.tape 0).fails = true
    · have hrest := ih w.next
      simp only [HarmlessResources, initialised, List.map_cons, if_neg hid, if_pos hinit] at hrest ⊢
      exact hrest
    obtain ⟨hknown, hnew, htape⟩ := run_getStreamBuffer env it.toInt w.next
    simp only [World.next_server] at hknown hnew
    have hhead : HarmlessResources w.server ((it :: items).map UBJ.Value.toInt) w.tape ↔
        ((w.tape 1).fails = true ∧ w.server.Settled it.toInt) ∧
          HarmlessResources w.server (items.map UBJ.Value.toInt) fun n => w.tape (n + 2) := by
      simp [HarmlessResources, initialised, hid, hinit]
    rw [hhead, if_neg hid, if_neg hinit]
    generalize hout : Proc.run (step env) (Server.getStreamBuffer env it.toInt) w.next = out
    rw [hout] at hknown hnew htape
    have hopened : w.server.streamCount ≤ out.2.server.streamCount := by
      by_cases hsettled : w.server.Settled it.toInt
      · rw [hknown hsettled, World.next_server]
      · rw [hnew hsettled]
        exact Nat.le_succ _
    by_cases hadds : (w.tape 1).fails = true
    · rw [if_pos hadds]
      obtain ⟨hsame, hle, hmore⟩ := ih out.2.next
      have hrest : out.2.next.tape = fun n => w.tape (n + 2) := by
        funext n
        rw [World.next_tape, htape]
        rfl
      rw [hrest] at hsame hmore
      simp only [World.next_server] at hsame hle hmore
      refine ⟨fun h => ?_, hopened.trans hle, fun h => ?_⟩
      · rw [hknown h.1.2] at hsame ⊢
        exact hsame h.2
      · by_cases hsettled : w.server.Settled it.toInt
        · rw [hknown hsettled] at hmore ⊢
          exact hmore fun hres => h ⟨⟨hadds, hsettled⟩, hres⟩
        · have hcount := hnew hsettled
          omega
    · rw [if_neg hadds]
      obtain ⟨-, hle, -⟩ :=
        ih (out.2.next.addSender s { session := s, streamId := it.toInt, buffer := out.1 })
      have hadded : ∀ (w' : World) (x : Sender),
          (w'.addSender s x).server.streamCount = w'.server.streamCount + 1 := by
        intro w' x
        show (w'.server.senders ++ [x]).length + w'.server.heap.length =
          w'.server.senders.length + w'.server.heap.length + 1
        rw [List.length_append, List.length_singleton]
        omega
      rw [hadded, World.next_server] at hle
      exact ⟨fun h => absurd h.1.1 hadds, by omega, fun _ => by omega⟩

theorem onlyOn_response {env : Env} {σ : ServerState} {s : SessionId} {k : Nat}
    {head : UBJ.Object} {tape : Nat → Choice}
    (hp : (Act.mk (.response s k head) tape).Possible σ) :
    OnlyOn s σ (next env σ ⟨.response s k head, tape⟩) ↔
      ∀ p, (σ.sessions s).posted[k]? = some p → HarmlessResponse σ s p head tape := by
  obtain ⟨p, hmem, hnext⟩ := next_response_eq env hp
  have htake : OnlyOn s σ (σ.takePosted s k) := .modify s σ _
  have hx : ((σ.takePosted s k).sessions s).accountId = (σ.sessions s).accountId := by
    simp [ServerState.takePosted]
  rw [hnext, hmem]
  simp only [Option.some.injEq, forall_eq', HarmlessResponse]
  by_cases hack : Acknowledges p head
  swap
  · rw [run_processResponse, if_neg hack]
    simp [hack, htake]
  have hq := quiet_processResponse env s p head ⟨σ.takePosted s k, tape, []⟩ hack
  have hrun := run_processResponse env s p head ⟨σ.takePosted s k, tape, []⟩
  rw [if_pos hack] at hrun
  simp only [hx] at hq hrun
  rw [forall_prop_of_true hack]
  -- the removal
  generalize hw : (World.mk (σ.takePosted s k) tape []).removeRequest
    (ackQuery p (σ.sessions s).accountId) = w' at hq hrun
  have hremoval : w'.server.requests = σ.requests ↔ (tape 0).fails = true ∨
      ∀ r ∈ σ.requests, (ackQuery p (σ.sessions s).accountId).matches r = false := by
    by_cases hf : (tape 0).fails = true
    · simp [← hw, World.removeRequest, hf, ServerState.takePosted]
    · simp only [← hw, World.removeRequest, hf, Bool.false_eq_true, if_false, false_or]
      exact Collection.eraseP_eq_self_iff
  have hsame : (tape 0).fails = true ∨
      (∀ r ∈ σ.requests, (ackQuery p (σ.sessions s).accountId).matches r = false) →
      w'.server = σ.takePosted s k := by
    intro h
    have hrequests := hremoval.mpr h
    by_cases hf : (tape 0).fails = true
    · simp [← hw, World.removeRequest, hf]
    · simp only [← hw, World.removeRequest, hf, Bool.false_eq_true, if_false] at hrequests ⊢
      have herase : (σ.takePosted s k).requests.eraseP
          (ackQuery p (σ.sessions s).accountId).matches = σ.requests := hrequests
      rw [ServerState.removeRequest, herase]
      rfl
  -- the resources
  have hloop := streamCount_forM_sendResource env s (head.get "resources").toArray w'
  have hcount : w'.server.streamCount = σ.streamCount := by
    rw [← hw, World.removeRequest]
    split <;> rfl
  have htape : w'.tape = fun n => tape (n + 1) := by
    rw [← hw]
    rfl
  have hharmless : ∀ ids tape', HarmlessResources w'.server ids tape' ↔
      HarmlessResources σ ids tape' := by
    intro ids tape'
    rw [← hw, World.removeRequest]
    split <;> rfl
  simp only [hharmless, hcount, htape] at hloop
  constructor
  · intro h
    have hrequests := hq.requests
    rw [h.requests] at hrequests
    refine ⟨hremoval.mp hrequests.symm, fun hpush => ?_⟩
    rw [hrun, if_pos hpush] at h
    by_contra hne
    have hlt := hloop.2.2 hne
    rw [ServerState.streamCount, ServerState.streamCount, h.senders, h.heap] at hlt
    omega
  · rintro ⟨hrem, hres⟩
    rw [hrun]
    split
    · next hpush =>
      rw [hloop.1 (hres hpush), hsame hrem]
      exact htake
    · rw [hsame hrem]
      exact htake

/-! ## Everything that arrives -/

/-- The condition under which what arrives has no effect. -/
def Harmless (env : Env) (σ : ServerState) (a : Act) : Prop :=
  match a.event with
  | .request s head => ¬ Fatal env ⟨σ, a.tape, []⟩ s head
  | .createReceiver _ pkt => HarmlessStart σ pkt (a.tape 0)
  | .receive s id body => HarmlessPacket σ s id body (a.tape 0)
  | .received s id => HarmlessEnd σ s id (a.tape 0)
  | .response s k head =>
    ∀ p, (σ.sessions s).posted[k]? = some p → HarmlessResponse σ s p head a.tape
  | _ => True

/-- **No effect without a login.**  After any run, what arrives on a session that has never
logged in, and does not log in by it, has no effect exactly if it is harmless. -/
theorem noEffect_iff_harmless (env : Env) (tr : List Act) (s : SessionId) (a : Act)
    (harrives : a.event.ArrivesOn s) (hp : a.Possible (after env tr))
    (hnever : NeverLoggedIn env tr s) (hlogin : loginOf env (after env tr) a s = none) :
    NoEffect env (after env tr) s a ↔ Harmless env (after env tr) a := by
  obtain ⟨event, tape⟩ := a
  cases event with
  | request t head =>
    obtain rfl : t = s := harrives
    exact noEffect_request hp (keyed_after env tr) (status_of_never hnever) hlogin
  | response t k head =>
    obtain rfl : t = s := harrives
    exact (noEffect_iff_onlyOn fun _ => Event.noConfusion).trans (onlyOn_response hp)
  | createReceiver t pkt =>
    obtain rfl : t = s := harrives
    exact (noEffect_iff_onlyOn fun _ => Event.noConfusion).trans (onlyOn_createReceiver hp)
  | receive t id body =>
    obtain ⟨rfl, hlen⟩ := harrives
    exact (noEffect_iff_onlyOn fun _ => Event.noConfusion).trans (onlyOn_receive hlen hp)
  | received t id =>
    obtain rfl : t = s := harrives
    exact (noEffect_iff_onlyOn fun _ => Event.noConfusion).trans (onlyOn_received hp)
  | _ => exact harrives.elim

/-- A session that has only connected. -/
theorem neverLoggedIn_connect (s : SessionId) : NeverLoggedIn sampleEnv (sampleConnect s) s := by
  intro later a earlier h
  rcases later with _ | ⟨b, _ | ⟨c, later⟩⟩
  · obtain ⟨rfl, rfl⟩ := List.cons.inj h
    rfl
  · obtain ⟨-, h⟩ := List.cons.inj h
    obtain ⟨rfl, rfl⟩ := List.cons.inj h
    rfl
  · simp [sampleConnect] at h

/-- Without a login, a push is turned down and has no effect. -/
theorem noEffect_push :
    NoEffect sampleEnv (after sampleEnv (sampleConnect 0)) 0
      (sampleStep 0 (sampleRequest .push 7 [])) := by
  have ht : sampleEnv.decode ((sampleRequest .push 7 []).get "requestType").toInt = some .push := by
    decide +kernel
  exact (noEffect_iff_harmless sampleEnv (sampleConnect 0) 0
    (sampleStep 0 (sampleRequest .push 7 []))
    rfl (by decide +kernel) (neverLoggedIn_connect 0) (by decide +kernel)).mpr
    (by simp [Harmless, sampleStep, Fatal, ht])

/-- Without a login, the first packet of an upload makes a file. -/
theorem effect_upload :
    NeverLoggedIn sampleEnv (sampleConnect 0) 0 ∧
      (sampleUpload 0 7).Possible (after sampleEnv (sampleConnect 0)) ∧
      loginOf sampleEnv (after sampleEnv (sampleConnect 0)) (sampleUpload 0 7) 0 = none ∧
      ¬ NoEffect sampleEnv (after sampleEnv (sampleConnect 0)) 0 (sampleUpload 0 7) := by
  refine ⟨neverLoggedIn_connect 0, by decide +kernel, rfl, fun h => ?_⟩
  have honly := (noEffect_iff_onlyOn fun _ => Event.noConfusion).mp h
  have hfile := congrFun honly.files (tmpFile 7)
  revert hfile
  decide +kernel

end ZwayServer
