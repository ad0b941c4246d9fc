import ZwayServer.Effects

/-!
# Runs of the server

The server as a transition system: events arrive in any order, each handler runs as
one step, and every step comes with the choices of the outside world.  A run is a list
of steps, newest first, and `after` is the state it leads to.

For every event there is one lemma that says what it does (`next_…`), in terms of the
relations of the earlier files; invariants of all runs are proved from these alone.
-/

namespace ZwayServer

open ClientSession

/-! ## Events -/

/-- Something that happens to the server. -/
inductive Event where
  /-- A connection is accepted. -/
  | connect (s : SessionId)
  /-- The handshake of a session is over. -/
  | handshake (s : SessionId) (error : Bool)
  /-- A request has arrived. -/
  | request (s : SessionId) (head : UBJ.Object)
  /-- The answer to the `k`-th request posted to the session has arrived. -/
  | response (s : SessionId) (k : Nat) (head : UBJ.Object)
  /-- The first packet of a stream has arrived. -/
  | createReceiver (s : SessionId) (pkt : Packet)
  /-- A packet of a stream has arrived. -/
  | receive (s : SessionId) (streamId : UInt32) (body : List UInt8)
  /-- An upload is complete. -/
  | received (s : SessionId) (streamId : UInt32)
  /-- The `k`-th waiting task runs. -/
  | userRequests (k : Nat)
  /-- The `k`-th sender is asked for a packet. -/
  | send (k size offset : Nat)
  /-- The timer fires; the engine is done with the senders `completed`. -/
  | timer (completed : Sender → Bool)
  /-- Reading from the socket of a session failed. -/
  | disconnect (s : SessionId)
  /-- All sessions are closed. -/
  | removeSessions

/-- A step: an event, and what the outside world decides meanwhile. -/
structure Act where
  event : Event
  tape : Nat → Choice

namespace Event

/-- Can the event happen?  Only a session that is connected is sent anything, and packets
without a stream or a body are dropped by `onPacketRecv`.  Completions that were queued before the
session was closed are not among these events: the sockets have them. -/
def Enabled (σ : ServerState) : Event → Prop
  | connect s => (σ.sessions s).started = false
  | handshake s _ => (σ.sessions s).started = true ∧ (σ.sessions s).handshaken = false
  | request s _ => (σ.sessions s).status ≠ .disconnected
  | response s k _ => (σ.sessions s).status ≠ .disconnected ∧ k < (σ.sessions s).posted.length
  | createReceiver s pkt => (σ.sessions s).status ≠ .disconnected ∧ pkt.streamId ≠ 0
  | receive s id body => (σ.sessions s).status ≠ .disconnected ∧ id ≠ 0 ∧ body ≠ []
  | received s _ => (σ.sessions s).status ≠ .disconnected
  | userRequests k => k < σ.tasks.length
  | send .. => True
  | timer _ => True
  | disconnect s => (σ.sessions s).status ≠ .disconnected
  | removeSessions => True

instance (σ : ServerState) (e : Event) : Decidable (e.Enabled σ) := by
  cases e <;> unfold Enabled <;> infer_instance

/-- What is noted before the handler runs: how far a connection has got, and that a task
is no longer waiting. -/
def note (σ : ServerState) : Event → ServerState
  | connect s => σ.modify s fun x => { x with started := true }
  | handshake s _ => σ.modify s fun x => { x with handshaken := true }
  | userRequests k => { σ with tasks := σ.tasks.eraseIdx k }
  | _ => σ

/-- The handler of an event. -/
def handler (env : Env) (σ : ServerState) : Event → Prog Unit
  | connect s => start s
  | handshake s error => handleHandshake s error
  | request s head => do
    let _ ← processIncomingRequest env s head
  | response s k head => do
    match ← Proc.perform (Op.takePosted s k) with
    | some p => processResponse env s p head
    | none => return
  | createReceiver s pkt => do
    let _ ← createStreamReceiver s pkt
  | receive s id body => receivePacket s id body
  | received s id => streamReceived env s id
  | userRequests k => Server.processUserRequests env (σ.tasks.getD k 0)
  | send k size offset => StreamBufferSender.preparePacket env k size offset
  | timer completed => Server.onTimer completed
  | disconnect s => close s true
  | removeSessions => Server.removeSessions

end Event

/-! ## Runs -/

/-- The world in which the handler of a step starts. -/
def Act.world (a : Act) (σ : ServerState) : World := { server := a.event.note σ, tape := a.tape }

/-- Does the step take place?  After the process has ended, nothing does. -/
def Act.Possible (a : Act) (σ : ServerState) : Prop := σ.terminated = false ∧ a.event.Enabled σ

instance (a : Act) (σ : ServerState) : Decidable (a.Possible σ) := by
  unfold Act.Possible
  infer_instance

/-- One step. -/
def next (env : Env) (σ : ServerState) (a : Act) : ServerState :=
  if a.Possible σ then (Proc.run (step env) (a.event.handler env σ) (a.world σ)).2.server else σ

/-- The state a run leads to, from a server without accounts. -/
def after (env : Env) : List Act → ServerState
  | [] => {}
  | a :: tr => next env (after env tr) a

/-- Some run leads there. -/
def Reachable (env : Env) (σ : ServerState) : Prop := ∃ tr, after env tr = σ

@[simp] theorem after_nil (env : Env) : after env [] = {} := rfl

@[simp] theorem after_cons (env : Env) (a : Act) (tr : List Act) :
    after env (a :: tr) = next env (after env tr) a := rfl

/-- **Invariants.**  What holds at the start and is kept by every step holds after every
run. -/
theorem invariant_after {env : Env} {P : ServerState → Prop} (h0 : P {})
    (hstep : ∀ σ a, a.Possible σ → P σ → P (next env σ a)) (tr : List Act) : P (after env tr) := by
  induction tr with
  | nil => exact h0
  | cons a tr ih =>
    by_cases hp : a.Possible (after env tr)
    · exact hstep _ a hp ih
    · rw [after_cons, next, if_neg hp]
      exact ih

/-- Every step of the run that took place satisfies `P`, which may look at the run so far. -/
def EveryStep (env : Env) (P : List Act → Act → Prop) : List Act → Prop
  | [] => True
  | a :: tr => (a.Possible (after env tr) → P tr a) ∧ EveryStep env P tr

/-- A concrete run can be checked step by step. -/
instance decidableEveryStep {env : Env} {P : List Act → Act → Prop} [∀ tr a, Decidable (P tr a)] :
    ∀ tr, Decidable (EveryStep env P tr)
  | [] => isTrue trivial
  | a :: tr =>
    have := @decidableEveryStep env P _ tr
    inferInstanceAs (Decidable ((a.Possible (after env tr) → P tr a) ∧ EveryStep env P tr))

/-- **Invariants of restricted runs.**  What holds at the start, is kept by every step that
satisfies `P`, and does not mind steps that do not take place, holds after every run made
of such steps. -/
theorem invariant_everyStep {env : Env} {P : List Act → Act → Prop} {I : List Act → Prop}
    (h0 : I []) (hskip : ∀ tr a, ¬ a.Possible (after env tr) → I tr → I (a :: tr))
    (hstep : ∀ tr a, a.Possible (after env tr) → P tr a → I tr → I (a :: tr)) {tr : List Act}
    (h : EveryStep env P tr) : I tr := by
  induction tr with
  | nil => exact h0
  | cons a tr ih =>
    by_cases hp : a.Possible (after env tr)
    · exact hstep tr a hp (h.1 hp) (ih h.2)
    · exact hskip tr a hp (ih h.2)

/-- A part of a run from its start is made of the same steps. -/
theorem EveryStep.earlier {env : Env} {P : List Act → Act → Prop} {later earlier : List Act}
    (h : EveryStep env P (later ++ earlier)) : EveryStep env P earlier := by
  induction later with
  | nil => exact h
  | cons a later ih => exact ih h.2

/-- The same, with the steps taken out of the run. -/
theorem everyStep_iff {env : Env} {P : List Act → Act → Prop} {tr : List Act} :
    EveryStep env P tr ↔ ∀ later a earlier, tr = later ++ a :: earlier →
      a.Possible (after env earlier) → P earlier a := by
  constructor
  · rintro h later a earlier rfl hp
    have hpart : EveryStep env P (a :: earlier) := h.earlier
    exact hpart.1 hp
  · intro h
    induction tr with
    | nil => exact trivial
    | cons a tr ih =>
      refine ⟨h [] a tr rfl, ih fun later b earlier he => ?_⟩
      exact h (a :: later) b earlier (by rw [he]; rfl)

theorem next_of_not_possible {env : Env} {σ : ServerState} {a : Act} (h : ¬ a.Possible σ) :
    next env σ a = σ :=
  if_neg h

/-! ## What each event does -/

@[simp] theorem step_takePosted (env : Env) (s : SessionId) (k : Nat) (w : World) :
    step env (.takePosted s k) w =
      ((w.server.sessions s).posted[k]?, w.update (·.takePosted s k)) := rfl

@[simp] theorem step_findReceiver (env : Env) (s : SessionId) (id : UInt32) (w : World) :
    step env (.findReceiver s id) w =
      ((w.server.sessions s).receivers.find? (·.streamId == id), w) := rfl

section

variable (env : Env) {σ : ServerState} {s : SessionId} {tape : Nat → Choice}

theorem next_of_possible {a : Act} (h : a.Possible σ) :
    next env σ a = (Proc.run (step env) (a.event.handler env σ) (a.world σ)).2.server :=
  if_pos h

theorem next_connect (h : (Act.mk (.connect s) tape).Possible σ) :
    next env σ ⟨.connect s, tape⟩ = σ.connect s (tape 0).word := by
  rw [next_of_possible env h]
  show ((σ.modify s _).modify s _).appendSession s = _
  rw [ServerState.modify_modify]
  rfl

theorem next_handshake {error : Bool} (h : (Act.mk (.handshake s error) tape).Possible σ) :
    next env σ ⟨.handshake s error, tape⟩ =
      if error then (σ.modify s fun x => { x with handshaken := true }).close s
      else (σ.modify s fun x => { x with handshaken := true }).setStatus s .connected := by
  rw [next_of_possible env h]
  cases error <;> rfl

theorem next_request_eq {head : UBJ.Object} (h : (Act.mk (.request s head) tape).Possible σ) :
    next env σ ⟨.request s head, tape⟩ =
      (Proc.run (step env) (processIncomingRequest env s head)
        { server := σ, tape := tape }).2.server := by
  rw [next_of_possible env h]
  simp only [Event.handler, Act.world, Event.note, Proc.run_bind, Proc.run_pure]

theorem next_request {head : UBJ.Object} (h : (Act.mk (.request s head) tape).Possible σ) :
    Outcome env { server := σ, tape := tape } s head (next env σ ⟨.request s head, tape⟩) := by
  rw [next_request_eq env h]
  exact outcome env { server := σ, tape := tape } s head

/-- Does a response make the server drop the record? -/
def Acknowledges (p : Posted) (response : UBJ.Object) : Prop :=
  p.type ≠ .addContact ∧ (response.get "status").toInt = 1

instance (p : Posted) (response : UBJ.Object) : Decidable (Acknowledges p response) := by
  unfold Acknowledges
  infer_instance

/-- What an acknowledgement removes, for a session that has the account `x`. -/
def ackQuery (p : Posted) (x : UInt32) : RequestQuery := { id := some p.id, dst := some x }

/-- A response that acknowledges nothing changes nothing; another removes by id and by the
account that the session has when it arrives, and that of a push starts sending the
resources that it asks for. -/
theorem run_processResponse (env : Env) (s : SessionId) (p : Posted) (response : UBJ.Object)
    (w : World) :
    (Proc.run (step env) (processResponse env s p response) w).2 =
      if Acknowledges p response then
        let w' := w.removeRequest (ackQuery p (w.server.sessions s).accountId)
        if p.type = .push then
          (Proc.run (step env) (forM (response.get "resources").toArray (sendResource env s)) w').2
        else w'
      else w := by
  by_cases hst : (response.get "status").toInt = 1
  · cases ht : p.type <;>
      simp [Acknowledges, processResponse, ht, hst, Proc.run_bind, run_deleteRequest, ackQuery]
  · rw [if_neg fun h => hst h.2]
    cases ht : p.type <;> simp [processResponse, ht, hst]

theorem quiet_processResponse (env : Env) (s : SessionId) (p : Posted) (response : UBJ.Object)
    (w : World) (hack : Acknowledges p response) :
    Quiet (w.removeRequest (ackQuery p (w.server.sessions s).accountId)).server
      (Proc.run (step env) (processResponse env s p response) w).2.server := by
  rw [run_processResponse, if_pos hack]
  show Quiet _ (if p.type = .push then _ else _ : World).server
  split
  · exact quiet_run (Proc.Safe.forM fun it _ => quiet_sendResource env s it) _
  · exact .refl _

/-- The response is no longer waited for when it is processed. -/
theorem next_response_eq {k : Nat} {head : UBJ.Object}
    (h : (Act.mk (.response s k head) tape).Possible σ) :
    ∃ p, (σ.sessions s).posted[k]? = some p ∧
      next env σ ⟨.response s k head, tape⟩ =
        (Proc.run (step env) (processResponse env s p head)
          { server := σ.takePosted s k, tape := tape }).2.server := by
  obtain ⟨p, hp⟩ : ∃ p, (σ.sessions s).posted[k]? = some p :=
    ⟨_, List.getElem?_eq_getElem h.2.2⟩
  refine ⟨p, hp, ?_⟩
  rw [next_of_possible env h]
  simp only [Event.handler, Act.world, Event.note, Proc.run_bind, Proc.run_perform,
    step_takePosted, hp]
  rfl

theorem next_response {k : Nat} {head : UBJ.Object}
    (h : (Act.mk (.response s k head) tape).Possible σ) :
    ∃ p, (σ.sessions s).posted[k]? = some p ∧
      if Acknowledges p head then
        Quiet ((World.mk (σ.takePosted s k) tape []).removeRequest
            (ackQuery p (σ.sessions s).accountId)).server
          (next env σ ⟨.response s k head, tape⟩)
      else next env σ ⟨.response s k head, tape⟩ = σ.takePosted s k := by
  obtain ⟨p, hp, hnext⟩ := next_response_eq env h
  refine ⟨p, hp, ?_⟩
  have hx : ((σ.takePosted s k).sessions s).accountId = (σ.sessions s).accountId := by
    simp [ServerState.takePosted]
  rw [hnext]
  split
  · next hack =>
    have hq := quiet_processResponse env s p head ⟨σ.takePosted s k, tape, []⟩ hack
    rwa [hx] at hq
  · next hack => rw [run_processResponse, if_neg hack]

/-- The events that concern streams only. -/
theorem next_quiet {a : Act} (hp : a.Possible σ) (hnote : a.event.note σ = σ)
    (h : Prog.IsQuiet (a.event.handler env σ)) : Quiet σ (next env σ a) := by
  rw [next_of_possible env hp]
  have hq : Quiet (a.event.note σ)
      (Proc.run (step env) (a.event.handler env σ) (a.world σ)).2.server := quiet_run h (a.world σ)
  rwa [hnote] at hq

theorem next_createReceiver {pkt : Packet}
    (h : (Act.mk (.createReceiver s pkt) tape).Possible σ) :
    Quiet σ (next env σ ⟨.createReceiver s pkt, tape⟩) :=
  next_quiet env h rfl
    (Proc.safe_bind.mpr ((quiet_createStreamReceiver s pkt).safe fun _ => trivial))

theorem next_receive {id : UInt32} {body : List UInt8}
    (h : (Act.mk (.receive s id body) tape).Possible σ) :
    Quiet σ (next env σ ⟨.receive s id body, tape⟩) :=
  next_quiet env h rfl (quiet_receivePacket s id body)

theorem next_send {k size offset : Nat} (h : (Act.mk (.send k size offset) tape).Possible σ) :
    Quiet σ (next env σ ⟨.send k size offset, tape⟩) :=
  next_quiet env h rfl (quiet_preparePacket env k size offset)

theorem next_timer {completed : Sender → Bool} (h : (Act.mk (.timer completed) tape).Possible σ) :
    Quiet σ (next env σ ⟨.timer completed, tape⟩) :=
  next_quiet env h rfl (quiet_onTimer completed)

/-- The dispatch request that is stored when an upload is complete. -/
def uploadRequest (id x : UInt32) : Request :=
  { id := id, type := .dispatch, src := 0, dst := some x, dispatchType := some 6 }

theorem next_received {id : UInt32} (h : (Act.mk (.received s id) tape).Possible σ) :
    match (σ.sessions s).receivers.find? (·.streamId == id) with
    | none => next env σ ⟨.received s id, tape⟩ = σ
    | some receiver =>
      let w := (World.mk σ tape []).insertRequest
        (uploadRequest receiver.streamId (σ.sessions s).accountId)
      Delivers
        (fun t p => t = s ∧ MadeFrom env w.server.requests (σ.sessions s).accountId p) w.server
        (next env σ ⟨.received s id, tape⟩) := by
  rw [next_of_possible env h]
  simp only [Event.handler, Act.world, Event.note, streamReceived, Proc.run_bind,
    Proc.run_perform, step_findReceiver]
  cases hr : (σ.sessions s).receivers.find? (·.streamId == id) with
  | none => rfl
  | some receiver =>
    simp only [Proc.run_bind, Proc.run_perform, step_accountId, run_addRequest, Proc.run_pure]
    have hdelivers := run_processRequests env s ((World.mk σ tape []).insertRequest
      (uploadRequest receiver.streamId (σ.sessions s).accountId))
    rw [sessions_insertRequest] at hdelivers
    exact hdelivers

theorem next_userRequests {k : Nat} (h : (Act.mk (.userRequests k) tape).Possible σ) :
    Delivers
      (fun t p => t ∈ σ.getSessions (σ.tasks.getD k 0) ∧
        MadeFrom env σ.requests (σ.sessions t).accountId p)
      { σ with tasks := σ.tasks.eraseIdx k } (next env σ ⟨.userRequests k, tape⟩) := by
  rw [next_of_possible env h]
  simp only [Event.handler, Act.world, Event.note]
  exact run_processUserRequests env
    (σ.tasks.getD k 0) ⟨{ σ with tasks := σ.tasks.eraseIdx k }, tape, []⟩

theorem next_disconnect (h : (Act.mk (.disconnect s) tape).Possible σ) :
    next env σ ⟨.disconnect s, tape⟩ = σ.close s := by
  rw [next_of_possible env h]
  rfl

/-- Closing sessions one after the other. -/
theorem run_forM_close (env : Env) (sessions : List SessionId) (w : World) :
    (Proc.run (step env) (forM sessions fun s => close s false) w).2 = w.update fun σ =>
      { σ with sessions := fun t =>
          if t ∈ sessions then { σ.sessions t with status := .disconnected }
          else σ.sessions t } := by
  induction sessions generalizing w with
  | nil => simp [World.update]
  | cons s sessions ih =>
    have hclose : (Proc.run (step env) (close s false) w).2 =
        w.update (·.setStatus s .disconnected) := by
      simp [close]
    rw [Proc.run_forM_cons, ih, hclose]
    simp only [World.update, ServerState.setStatus, ServerState.modify]
    congr 2
    funext t
    by_cases ht : t = s
    · subst ht
      simp
    · simp [ht]

theorem next_removeSessions (h : (Act.mk .removeSessions tape).Possible σ) :
    next env σ ⟨.removeSessions, tape⟩ = σ.closeAll := by
  rw [next_of_possible env h]
  simp only [Event.handler, Server.removeSessions, Proc.run_bind, Proc.run_perform, run_forM_close]
  rfl

end

/-! ## A sample environment -/

/-- Numbers for the request types. -/
def typeNumber : RequestType → UInt32
  | .dispatch => 1
  | .createAccount => 2
  | .login => 3
  | .logout => 4
  | .config => 5
  | .addContact => 3100
  | .createAddCode => 7
  | .findContact => 8
  | .acceptContact => 9
  | .rejectContact => 10
  | .contactStatus => 11
  | .push => 4100

/-- SHA-256 of 64 zero bytes. -/
def zeroHash : List UInt8 :=
  [0xf5, 0xa5, 0xfd, 0x42, 0xd1, 0x6a, 0x20, 0x30, 0x27, 0x98, 0xef, 0x6e, 0xd3, 0x09, 0x97, 0x9b,
    0x43, 0x00, 0x3d, 0x23, 0x20, 0xd9, 0xf0, 0xe8, 0xea, 0x98, 0x31, 0xa9, 0x27, 0x59, 0xfb, 0x4b]

/-- Libraries for sample runs, in which names are single letters and every password and
every salt is 32 zero bytes. -/
def sampleEnv : Env where
  code := typeNumber
  decode n :=
    [RequestType.dispatch, .createAccount, .login, .logout, .config, .addContact, .createAddCode,
      .findContact, .acceptContact, .rejectContact, .contactStatus, .push].find? (typeNumber · == n)
  decode_code t := by cases t <;> rfl
  code_addContact := rfl
  code_push := rfl
  maxPacketBody := 0x10000
  sha256 bytes := if bytes = List.replicate 64 0 then zeroHash else []
  regex pattern := some (· == pattern)

/-- Nothing fails, and the random bits are `word`. -/
def calm (word : UInt32) : Nat → Choice := fun _ => { word := word, salt := List.replicate 32 0 }

/-- A request of the type `t`, with further fields. -/
def sampleRequest (t : RequestType) (id : UInt32) (fields : UBJ.Object) : UBJ.Object :=
  [("requestType", .int32 (typeNumber t)), ("requestId", .int32 id)] ++ fields

/-- A public key. -/
def sampleKey : String × UBJ.Value := ("publicKey", .object [("n", .int32 5)])

/-- The session `s` connects, under the temporary id `1000 + s`. -/
def sampleConnect (s : SessionId) : List Act :=
  [⟨.handshake s false, calm 0⟩, ⟨.connect s, calm (1000 + UInt32.ofNat s)⟩]

/-- A request arrives on the session `s`, and nothing fails. -/
def sampleStep (s : SessionId) (head : UBJ.Object) : Act := ⟨.request s head, calm 0⟩

/-- The session `s` logs in to the account `x`. -/
def sampleLogin (s : SessionId) (x : UInt32) : Act :=
  sampleStep s (sampleRequest .login 2
    [("account", .int32 x), ("password", .buffer (List.replicate 32 0))])

/-- The session `s` connects, creates an account and logs in to it. -/
def sampleJoin (s : SessionId) (name : String) (x : UInt32) : List Act :=
  sampleLogin s x ::
  sampleStep s (sampleRequest .createAccount 1
    [("name", .string name), ("password", .buffer (List.replicate 32 0))]) ::
  sampleConnect s

/-- The session `s` pushes to the account `dst`. -/
def samplePush (s : SessionId) (id dst : UInt32) : Act :=
  sampleStep s (sampleRequest .push id [("keys", .array [.object [("dst", .int32 dst)]])])

/-- The first packet of an upload. -/
def sampleUpload (s : SessionId) (id : UInt32) : Act :=
  ⟨.createReceiver s { streamId := id, streamType := .resource, parts := 1 }, calm 0⟩

/-- The end of an upload. -/
def sampleUploaded (s : SessionId) (id : UInt32) : Act := ⟨.received s id, calm 0⟩

end ZwayServer
