import ZwayServer.Session

/-!
# Quiet operations and delivery

Most of what a handler does has no part in who is sent what: it reads, it answers its
client, it keeps contacts, settings and streams.  Such operations are called quiet,
and a program made of them alone leaves the stored requests, the registry and every
session's identity as they were.  Delivery is quiet but for the requests it posts.

* `Delivers F` — nothing but quiet changes and posted requests with `F`; `Quiet` is
  the case where none is posted.
* `delivers_exec`, `quiet_run` — an operation, and a program, of that kind.
* `within_…` — the functions of the server that are quiet.
* `run_processRequests`, `run_processUserRequests` — every request posted was made
  from a stored record of the session's own account.
-/

namespace ZwayServer

open ClientSession

/-! ## Deliveries and quiet changes -/

/-- A message that is not a request waiting for an answer. -/
def Message.Plain : Message → Prop
  | .request .. => False
  | _ => True

/-- Nothing changed but contacts, settings, tokens, streams and plain messages handed
over, and every request posted to a session satisfies `F`. -/
structure Delivers (F : SessionId → Posted → Prop) (σ σ' : ServerState) : Prop where
  accounts : σ'.accounts.map Account.id = σ.accounts.map Account.id
  requests : σ'.requests = σ.requests
  nextOid : σ'.nextOid = σ.nextOid
  registry : σ'.registry = σ.registry
  tasks : σ'.tasks = σ.tasks
  started : ∀ s, (σ'.sessions s).started = (σ.sessions s).started
  handshaken : ∀ s, (σ'.sessions s).handshaken = (σ.sessions s).handshaken
  status : ∀ s, (σ'.sessions s).status = (σ.sessions s).status
  accountId : ∀ s, (σ'.sessions s).accountId = (σ.sessions s).accountId
  posted : ∀ s, ∃ ps, (σ'.sessions s).posted = (σ.sessions s).posted ++ ps ∧ ∀ p ∈ ps, F s p
  outbox : ∀ s, ∃ ms, (σ'.sessions s).outbox = (σ.sessions s).outbox ++ ms ∧
    ∀ m ∈ ms, m.Plain ∨ ∃ p, F s p ∧ m = .request p.type p.id p.head

/-- Nothing is posted. -/
abbrev Quiet : ServerState → ServerState → Prop := Delivers fun _ _ => False

namespace Delivers

variable {F F' : SessionId → Posted → Prop} {σ σ' σ'' : ServerState}

theorem refl (σ : ServerState) : Delivers F σ σ where
  accounts := rfl
  requests := rfl
  nextOid := rfl
  registry := rfl
  tasks := rfl
  started := fun _ => rfl
  handshaken := fun _ => rfl
  status := fun _ => rfl
  accountId := fun _ => rfl
  posted := fun _ => ⟨[], by simp, by simp⟩
  outbox := fun _ => ⟨[], by simp, by simp⟩

theorem trans (h : Delivers F σ σ') (h' : Delivers F σ' σ'') : Delivers F σ σ'' where
  accounts := h'.accounts.trans h.accounts
  requests := h'.requests.trans h.requests
  nextOid := h'.nextOid.trans h.nextOid
  registry := h'.registry.trans h.registry
  tasks := h'.tasks.trans h.tasks
  started := fun s => (h'.started s).trans (h.started s)
  handshaken := fun s => (h'.handshaken s).trans (h.handshaken s)
  status := fun s => (h'.status s).trans (h.status s)
  accountId := fun s => (h'.accountId s).trans (h.accountId s)
  posted := fun s => by
    obtain ⟨ps, hps, hF⟩ := h.posted s
    obtain ⟨ps', hps', hF'⟩ := h'.posted s
    refine ⟨ps ++ ps', by rw [hps', hps, List.append_assoc], fun p hp => ?_⟩
    rcases List.mem_append.mp hp with hp | hp
    · exact hF p hp
    · exact hF' p hp
  outbox := fun s => by
    obtain ⟨ms, hms, hm⟩ := h.outbox s
    obtain ⟨ms', hms', hm'⟩ := h'.outbox s
    refine ⟨ms ++ ms', by rw [hms', hms, List.append_assoc], fun m hmem => ?_⟩
    rcases List.mem_append.mp hmem with hmem | hmem
    · exact hm m hmem
    · exact hm' m hmem

/-- A weaker account of what was posted. -/
theorem mono (h : Delivers F σ σ') (hF : ∀ s p, F s p → F' s p) : Delivers F' σ σ' :=
  { h with
    posted := fun s => by
      obtain ⟨ps, hps, hp⟩ := h.posted s
      exact ⟨ps, hps, fun p hmem => hF s p (hp p hmem)⟩
    outbox := fun s => by
      obtain ⟨ms, hms, hm⟩ := h.outbox s
      refine ⟨ms, hms, fun m hmem => ?_⟩
      rcases hm m hmem with hplain | ⟨p, hp, rfl⟩
      · exact Or.inl hplain
      · exact Or.inr ⟨p, hF s p hp, rfl⟩ }

theorem getSessions (h : Delivers F σ σ') (id : UInt32) :
    σ'.getSessions id = σ.getSessions id := by
  rw [ServerState.getSessions, h.registry, ServerState.getSessions]

/-- A posted request is an old one or satisfies `F`. -/
theorem mem_posted (h : Delivers F σ σ') {s : SessionId} {p : Posted}
    (hp : p ∈ (σ'.sessions s).posted) : p ∈ (σ.sessions s).posted ∨ F s p := by
  obtain ⟨ps, hps, hF⟩ := h.posted s
  rw [hps] at hp
  rcases List.mem_append.mp hp with hp | hp
  · exact Or.inl hp
  · exact Or.inr (hF p hp)

/-- A request in the outbox is an old one or made of a posted request with `F`. -/
theorem mem_outbox (h : Delivers F σ σ') {s : SessionId} {t : RequestType} {id : UInt32}
    {head : UBJ.Object} (hm : .request t id head ∈ (σ'.sessions s).outbox) :
    .request t id head ∈ (σ.sessions s).outbox ∨
      ∃ p, F s p ∧ p.type = t ∧ p.id = id ∧ p.head = head := by
  obtain ⟨ms, hms, hF⟩ := h.outbox s
  rw [hms] at hm
  rcases List.mem_append.mp hm with hm | hm
  · exact Or.inl hm
  · rcases hF _ hm with hplain | ⟨p, hp, he⟩
    · exact False.elim hplain
    · cases he
      exact Or.inr ⟨p, hp, rfl, rfl, rfl⟩

/-- Changing contacts, settings or streams of a session, posting requests to it, or
handing it messages. -/
theorem modify (σ : ServerState) (s : SessionId) (f : Session → Session) (ps : List Posted)
    (ms : List Message)
    (hf : ∀ x, f x = { x with
      contacts := (f x).contacts, config := (f x).config, receivers := (f x).receivers,
      senders := (f x).senders, posted := x.posted ++ ps, outbox := x.outbox ++ ms })
    (hps : ∀ p ∈ ps, F s p)
    (hms : ∀ m ∈ ms, m.Plain ∨ ∃ p, F s p ∧ m = .request p.type p.id p.head) :
    Delivers F σ (σ.modify s f) where
  accounts := rfl
  requests := rfl
  nextOid := rfl
  registry := rfl
  tasks := rfl
  started := fun t => by by_cases h : t = s <;> simp [h]; rw [hf]
  handshaken := fun t => by by_cases h : t = s <;> simp [h]; rw [hf]
  status := fun t => by by_cases h : t = s <;> simp [h]; rw [hf]
  accountId := fun t => by by_cases h : t = s <;> simp [h]; rw [hf]
  posted := fun t => by
    by_cases h : t = s
    · subst h
      exact ⟨ps, by rw [ServerState.sessions_modify, if_pos rfl, hf], hps⟩
    · exact ⟨[], by simp [h], by simp⟩
  outbox := fun t => by
    by_cases h : t = s
    · subst h
      exact ⟨ms, by rw [ServerState.sessions_modify, if_pos rfl, hf], hms⟩
    · exact ⟨[], by simp [h], by simp⟩

theorem send (σ : ServerState) (s : SessionId) {m : Message}
    (hm : m.Plain ∨ ∃ p, F s p ∧ m = .request p.type p.id p.head) :
    Delivers F σ (σ.send s m) :=
  modify σ s _ [] [m] (fun x => by simp) (by simp) (by simpa using hm)

/-- Posting a request. -/
theorem post (σ : ServerState) (s : SessionId) {p : Posted} (hp : F s p) :
    Delivers F σ ((σ.send s (.request p.type p.id p.head)).modify s
      fun x => { x with posted := x.posted ++ [p] }) := by
  refine (send σ s (Or.inr ⟨p, hp, rfl⟩)).trans ?_
  exact modify _ s (fun x => { x with posted := x.posted ++ [p] }) [p] [] (fun x => by simp)
    (by simpa using hp) (by simp)

end Delivers

namespace Quiet

variable {F : SessionId → Posted → Prop} {σ σ' σ'' : ServerState}

theorem delivers (h : Quiet σ σ') : Delivers F σ σ' := h.mono fun _ _ => False.elim

theorem posted_eq (h : Quiet σ σ') (s : SessionId) :
    (σ'.sessions s).posted = (σ.sessions s).posted := by
  obtain ⟨ps, hps, hF⟩ := h.posted s
  rw [hps, List.eq_nil_iff_forall_not_mem.mpr hF, List.append_nil]

theorem respond (σ : ServerState) (s : SessionId) (r : Response) :
    Quiet σ (σ.send s (.response r)) :=
  .send σ s (Or.inl trivial)

end Quiet

/-! ## Operations -/

/-- The operations that are quiet. -/
@[simp] def Op.IsQuiet : Op → Prop
  | .setStatus .. | .setAccountId .. | .postRequest .. | .takePosted .. | .insertAccount _
  | .insertRequest _ | .removeRequest _ | .appendSession _ | .removeSession _ | .clearSessions
  | .schedule _ => False
  | _ => True

/-- Replacing the token of an account keeps the list of ids. -/
theorem map_id_replaceF_token (as : List Account) (id : UInt32) (token : String) :
    (as.replaceF fun a => if a.id = id then some { a with fcmToken := token } else none).map
      Account.id = as.map Account.id := by
  induction as with
  | nil => rfl
  | cons a as ih =>
    by_cases h : a.id = id
    · simp [h]
    · simp [h, ih]

/-- A quiet operation is quiet. -/
theorem quiet_exec (env : Env) {o : Op} (c : Choice) (σ : ServerState) (h : o.IsQuiet) :
    Quiet σ (exec env o c σ).2 := by
  by_cases hreads : o.Reads
  · rw [exec_of_reads env hreads]
    exact .refl σ
  cases o with
  | clearContacts s =>
    exact .modify σ s (fun x => { x with contacts := ∅ }) [] [] (fun x => by simp) (by simp)
      (by simp)
  | putContact s id v =>
    exact .modify σ s (fun x => { x with contacts := x.contacts.insert id v }) [] []
      (fun x => by simp) (by simp) (by simp)
  | setConfig s v =>
    exact .modify σ s (fun x => { x with config := v }) [] [] (fun x => by simp) (by simp)
      (by simp)
  | respond s r => exact Quiet.respond σ s r
  | addUbjSender s head => exact .send σ s (Or.inl trivial)
  | setFcmToken id token =>
    exact dbCall_cases (P := Quiet σ) (.refl σ) fun _ =>
      { Delivers.refl σ with accounts := map_id_replaceF_token .. }
  | addReceiver s r =>
    rw [exec]
    split
    · exact .refl σ
    · exact .modify σ s (fun x => { x with receivers := x.receivers ++ [r] }) [] []
        (fun x => by simp) (by simp) (by simp)
  | addEngineSender s r =>
    rw [exec]
    split
    · exact .refl σ
    · exact .modify σ s (fun x => { x with senders := x.senders ++ [r] }) [] []
        (fun x => by simp) (by simp) (by simp)
  | fopenAppend name =>
    rw [exec]
    split
    · exact .refl σ
    · exact { Delivers.refl σ with }
  | fwrite | newBuffer | addReadable | touchBuffer | putBuffer | addSender | setSender | dropSenders
  | evictBuffers | sendFcm | terminate => exact { Delivers.refl σ with }
  | _ => first | exact absurd trivial hreads | cases h

/-- Quiet operations, and requests posted with `F`. -/
def Op.Delivery (F : SessionId → Posted → Prop) : Op → Prop
  | .postRequest s p => F s p
  | o => o.IsQuiet

theorem Op.Delivery.of_quiet {F : SessionId → Posted → Prop} {o : Op} (h : o.IsQuiet) :
    o.Delivery F := by
  cases o <;> first | exact h | cases h

/-- Posting a request is a delivery. -/
theorem delivers_exec (env : Env) {F : SessionId → Posted → Prop} {o : Op} (c : Choice)
    (σ : ServerState) (h : o.Delivery F) : Delivers F σ (exec env o c σ).2 := by
  by_cases hq : o.IsQuiet
  · exact (quiet_exec env c σ hq).delivers
  cases o with
  | postRequest s p => exact .post σ s h
  | _ => exact absurd h hq

/-- A program of quiet operations only. -/
abbrev Prog.IsQuiet {α : Type} (p : Prog α) : Prop := Proc.Within Op.IsQuiet p

/-- A program of quiet operations is quiet. -/
theorem quiet_run {env : Env} {α : Type} {p : Prog α} (h : p.IsQuiet) (w : World) :
    Quiet w.server (Proc.run (step env) p w).2.server := by
  refine Proc.Within.run (P := fun w' : World => Quiet w.server w'.server) h
    (fun o w' ho hw' => ?_) (.refl _)
  exact hw'.trans (quiet_exec env _ _ ho)

/-! ## The quiet functions -/

theorem quiet_statusOfSessions (sessions : List SessionId) :
    Prog.IsQuiet (statusOfSessions sessions) := by
  induction sessions with
  | nil => exact trivial
  | cons s sessions ih =>
    refine Proc.safe_bind.mpr ⟨trivial, fun _ _ => ?_⟩
    exact Proc.safe_ite.mpr ⟨fun _ => trivial, fun _ => ih⟩

theorem quiet_getContactStatus (id : UInt32) : Prog.IsQuiet (getContactStatus id) :=
  Proc.safe_bind.mpr ⟨trivial, fun sessions _ => quiet_statusOfSessions sessions⟩

theorem quiet_contactStatusList (s : SessionId) : Prog.IsQuiet (contactStatusList s) := by
  refine Proc.safe_bind.mpr ⟨trivial, fun _ _ => Proc.Safe.mapM fun it _ => ?_⟩
  exact Proc.safe_bind.mpr ((quiet_getContactStatus it.1).safe fun _ => trivial)

theorem quiet_broadcastTo (env : Env) (s : SessionId) (status : UInt32)
    (it : UInt32 × UBJ.Object) : Prog.IsQuiet (broadcastTo env s status it) := by
  have hsend : ∀ (sessions : List SessionId) (obj : UBJ.Object), Prog.IsQuiet
      (forM sessions fun session => Proc.perform (Op.addUbjSender session obj)) :=
    fun sessions obj => Proc.Safe.forM fun _ _ => ⟨trivial, fun _ _ => trivial⟩
  simp [broadcastTo, hsend]

theorem quiet_broadcastStatus (env : Env) (s : SessionId) (status : UInt32) (check : Bool) :
    Prog.IsQuiet (broadcastStatus env s status check) := by
  have hloop : ∀ contacts, Prog.IsQuiet (forM contacts (broadcastTo env s status)) :=
    fun contacts => Proc.Safe.forM fun it _ => quiet_broadcastTo env s status it
  simp [broadcastStatus, hloop]

theorem quiet_setConfig (env : Env) (s : SessionId) (newConfig : UBJ.Object) :
    Prog.IsQuiet (setConfig env s newConfig) := by
  have hloop : ∀ items : List UBJ.Value, Prog.IsQuiet
      (forM items fun it => putContact s (it.get "contactId").toInt it.toObject) :=
    fun items => Proc.Safe.forM fun _ _ => ⟨trivial, fun _ _ => trivial⟩
  have hbroadcast := fun n => quiet_broadcastStatus env s n false
  simp only [setConfig, Prog.IsQuiet, Proc.Within, Proc.safe_ite, Proc.safe_bind,
    Proc.safe_perform, Proc.safe_pure, safe_setFcmToken]
  refine ⟨fun _ => ⟨trivial, fun _ _ => (hloop _).safe fun _ => ?_⟩, fun _ => ?_⟩
  · simp [hbroadcast]
  · simp [hbroadcast]

theorem quiet_getInbox (id : UInt32) : Prog.IsQuiet (DB.getInbox id) := by
  simp [DB.getInbox, forall_answer]

theorem quiet_getFcmToken (id : UInt32) : Prog.IsQuiet (DB.getFcmToken id) := by
  simp [DB.getFcmToken, forall_answer, Option.forall]

theorem quiet_numContactRequests (env : Env) (id : UInt32) :
    Prog.IsQuiet (DB.numContactRequests env id) := by
  simp [DB.numContactRequests, forall_answer]

theorem quiet_numPushRequests (env : Env) (id : UInt32) :
    Prog.IsQuiet (DB.numPushRequests env id) := by
  simp [DB.numPushRequests, forall_answer]

theorem quiet_processConfigRequest (env : Env) (s : SessionId) (head : UBJ.Object) :
    Prog.IsQuiet (processConfigRequest env s head) := by
  have hset := quiet_setConfig env s (head.get "config").toObject
  simp only [processConfigRequest, Prog.IsQuiet, Proc.Within, Proc.safe_ite, Proc.safe_bind,
    Proc.safe_perform, Proc.safe_pure]
  refine ⟨trivial, fun _ _ => ⟨fun _ => ⟨trivial, fun _ _ => trivial⟩, fun _ => ?_⟩⟩
  refine ⟨fun _ => ?_, fun _ => ?_⟩
  · exact hset.safe fun _ => by simp
  · exact ⟨trivial, fun _ _ => trivial⟩

theorem quiet_processContactStatusRequest (s : SessionId) (head : UBJ.Object) :
    Prog.IsQuiet (processContactStatusRequest s head) := by
  simp only [processContactStatusRequest, Prog.IsQuiet, Proc.Within, Proc.safe_ite,
    Proc.safe_bind, Proc.safe_perform, Proc.safe_pure]
  refine ⟨trivial, fun _ _ => ⟨fun _ => ⟨trivial, fun _ _ => trivial⟩, fun _ => ?_⟩⟩
  exact (quiet_contactStatusList s).safe fun _ => ⟨trivial, fun _ _ => trivial⟩

theorem quiet_processFindContactRequest (s : SessionId) (head : UBJ.Object) :
    Prog.IsQuiet (processFindContactRequest s head) := by
  simp [processFindContactRequest]

theorem quiet_getStreamBuffer (env : Env) (id : UInt32) :
    Prog.IsQuiet (Server.getStreamBuffer env id) := by
  have hopen : Prog.IsQuiet (StreamBuffer.open env (tmpFile id) id) := by
    simp [StreamBuffer.open]
  refine Proc.safe_bind.mpr ⟨trivial, fun found _ => ?_⟩
  cases found with
  | some ref => exact trivial
  | none =>
    refine Proc.safe_bind.mpr (hopen.safe fun buffer => ?_)
    cases buffer with
    | none => exact trivial
    | some ref => exact ⟨trivial, fun _ _ => trivial⟩

theorem quiet_getBuffer (env : Env) (sender : Sender) :
    Prog.IsQuiet (StreamBufferSender.getBuffer env sender) := by
  unfold StreamBufferSender.getBuffer
  split
  · exact trivial
  · exact quiet_getStreamBuffer env _

theorem quiet_sendResource (env : Env) (s : SessionId) (it : UBJ.Value) :
    Prog.IsQuiet (sendResource env s it) := by
  have hcreate : Prog.IsQuiet (StreamBufferSender.create env s it.toInt) := by
    have hbuffer := quiet_getBuffer env { session := s, streamId := it.toInt, buffer := none }
    simp [StreamBufferSender.create, hbuffer]
  unfold sendResource
  simp only [Prog.IsQuiet, Proc.Within, Proc.safe_ite, Proc.safe_bind, Proc.safe_pure]
  refine ⟨fun _ => hcreate.safe fun sender => ?_, fun _ => trivial⟩
  cases sender with
  | none => exact trivial
  | some sender => simp

theorem quiet_streamBufferRead (ref size offset : Nat) :
    Prog.IsQuiet (StreamBuffer.read ref size offset) := by
  simp [StreamBuffer.read, Option.forall]

theorem quiet_streamBufferWrite (ref : Nat) (data : List UInt8) :
    Prog.IsQuiet (StreamBuffer.write ref data) := by
  simp [StreamBuffer.write]

theorem quiet_preparePacket (env : Env) (k size offset : Nat) :
    Prog.IsQuiet (StreamBufferSender.preparePacket env k size offset) := by
  have hread := fun ref => quiet_streamBufferRead ref size offset
  refine Proc.safe_bind.mpr ⟨trivial, fun sender _ => ?_⟩
  cases sender with
  | none => exact trivial
  | some sender =>
    refine Proc.safe_bind.mpr ((quiet_getBuffer env sender).safe fun buffer => ?_)
    cases buffer with
    | none => simp
    | some ref => simp [hread]

theorem quiet_createStreamReceiver (s : SessionId) (pkt : Packet) :
    Prog.IsQuiet (createStreamReceiver s pkt) := by
  have hcreate : Prog.IsQuiet (StreamBuffer.create (tmpFile pkt.streamId) pkt) := by
    simp [StreamBuffer.create]
  unfold createStreamReceiver
  simp only [Prog.IsQuiet, Proc.Within, Proc.safe_ite, Proc.safe_bind, Proc.safe_pure]
  refine ⟨fun _ => trivial, fun _ => hcreate.safe fun buffer => ?_⟩
  cases buffer with
  | none => exact trivial
  | some buffer => simp [Server.addStreamBuffer]

theorem quiet_receivePacket (s : SessionId) (streamId : UInt32) (body : List UInt8) :
    Prog.IsQuiet (receivePacket s streamId body) := by
  refine Proc.safe_bind.mpr ⟨trivial, fun receiver _ => ?_⟩
  cases receiver with
  | none => exact trivial
  | some receiver =>
    exact Proc.safe_bind.mpr ((quiet_streamBufferWrite _ _).safe fun _ => trivial)

theorem quiet_onTimer (completed : Sender → Bool) : Prog.IsQuiet (Server.onTimer completed) := by
  simp [Server.onTimer]

/-! ## Delivery -/

/-- A request posted to a session was made from a stored record of its account. -/
structure MadeFrom (env : Env) (requests : List Record) (x : UInt32) (p : Posted) : Prop where
  mem : p.record ∈ requests
  dst : p.record.dst = some x
  id : p.id = p.record.id
  type : p.type = p.record.type
  delivered : p.type = .dispatch ∨ p.type = .addContact ∨ p.type = .acceptContact ∨
    p.type = .rejectContact ∨ p.type = .push
  head : ∃ contactStatus, p.head = postedHead env p.record contactStatus

/-- One round of the loop posts nothing, or the record it is about. -/
theorem within_processRequest (env : Env) {F : SessionId → Posted → Prop} {s : SessionId}
    {request : Record} {requests : List Record} {x : UInt32} (hmem : request ∈ requests)
    (hdst : request.dst = some x) (hF : ∀ p, MadeFrom env requests x p → F s p) :
    Proc.Within (Op.Delivery F) (processRequest env s request) := by
  have hpost : ∀ n, request.type = .dispatch ∨ request.type = .addContact ∨
      request.type = .acceptContact ∨ request.type = .rejectContact ∨ request.type = .push →
      F s ⟨request.type, request.id, postedHead env request n, request⟩ :=
    fun n ht => hF _ ⟨hmem, hdst, rfl, rfl, ht, n, rfl⟩
  have hstatus : Proc.Within (Op.Delivery F) (getContactStatus request.src) :=
    (quiet_getContactStatus _).mono (fun _ => Op.Delivery.of_quiet) fun _ => id
  simp only [processRequest, Proc.Within, Proc.safe_ite, Proc.safe_bind, Proc.safe_perform]
  refine ⟨trivial, fun _ _ => ⟨fun _ => trivial, fun _ => ?_⟩⟩
  cases ht : request.type with
  | dispatch | addContact | rejectContact | push =>
    rw [ht] at hpost
    exact ⟨hpost 0 (by simp), fun _ _ => trivial⟩
  | acceptContact =>
    rw [ht] at hpost
    simp only [Proc.safe_bind, Proc.safe_perform]
    refine hstatus.safe fun n => ⟨trivial, fun _ _ => ?_⟩
    exact ⟨hpost n (by simp), fun _ _ => trivial⟩
  | _ => exact trivial

/-- What `processRequests` is told, as long as the account of the session and the stored
requests stay what they are. -/
def ToldOf (requests : List Record) (s : SessionId) (x : UInt32) : (o : Op) → o.Res → Prop
  | .accountId t, y => t = s → y = x
  | .findRequests _ q, rs => ∀ r ∈ CursorAnswer.docs rs, r ∈ requests ∧ q.matches r = true
  | _, _ => True

theorem toldOf_step (env : Env) {F : SessionId → Posted → Prop} (s : SessionId) {w w' : World}
    (h : Delivers F w.server w'.server) (o : Op) :
    ToldOf w.server.requests s (w.server.sessions s).accountId o (step env o w').1 := by
  cases o with
  | accountId t =>
    rintro rfl
    exact h.accountId t
  | findRequests t q =>
    intro r hr
    have hmem : r ∈ w'.server.requests.filter q.matches := mem_docs_cursor hr
    rw [h.requests] at hmem
    exact List.mem_filter.mp hmem
  | _ => trivial

/-- Delivery to a session: every request posted was made from a stored record of the
account the session has. -/
theorem run_processRequests (env : Env) (s : SessionId) (w : World) :
    Delivers (fun t p => t = s ∧ MadeFrom env w.server.requests (w.server.sessions s).accountId p)
        w.server (Proc.run (step env) (processRequests env s) w).2.server := by
  let x := (w.server.sessions s).accountId
  let F : SessionId → Posted → Prop := fun t p => t = s ∧ MadeFrom env w.server.requests x p
  have hsafe : Proc.Safe (Op.Delivery F) (ToldOf w.server.requests s x) (processRequests env s)
      fun _ => True := by
    simp only [processRequests, Proc.safe_bind, Proc.safe_perform, safe_getRequests, Proc.safe_pure]
    refine ⟨trivial, fun y hy => ⟨trivial, fun rs hrs => ?_⟩⟩
    obtain rfl : y = x := hy rfl
    refine Proc.Safe.forM fun request hdocs => ?_
    obtain ⟨hmem, hq⟩ := hrs request hdocs
    have hdst : request.dst = some x := (RequestQuery.matches_iff.mp hq).2.2.2.1 x rfl
    exact (within_processRequest env hmem hdst fun p hp => ⟨rfl, hp⟩).safe fun _ => trivial
  exact (Proc.Safe.run (P := fun w' : World => Delivers F w.server w'.server) hsafe
    (fun o w' ho hw' => hw'.trans (delivers_exec env _ _ ho))
    (fun o w' hw' => toldOf_step env s hw' o) (.refl _)).1

/-- Delivery to one session after the other. -/
theorem run_forM_processRequests (env : Env) {F : SessionId → Posted → Prop} (σ : ServerState)
    (sessions : List SessionId) (w : World)
    (hF : ∀ t ∈ sessions, ∀ p, MadeFrom env σ.requests (σ.sessions t).accountId p → F t p)
    (h : Delivers F σ w.server) :
    Delivers F σ (Proc.run (step env)
      (forM sessions fun s => do let _ ← processRequests env s) w).2.server := by
  induction sessions generalizing w with
  | nil => exact h
  | cons s sessions ih =>
    rw [Proc.run_forM_cons]
    refine ih _ (fun t ht => hF t (List.mem_cons_of_mem _ ht)) (h.trans ?_)
    rw [Proc.run_bind, Proc.run_pure]
    refine (run_processRequests env s w).mono fun t p hp => ?_
    obtain ⟨rfl, hp⟩ := hp
    rw [h.requests, h.accountId] at hp
    exact hF t (List.mem_cons_self ..) p hp

theorem quiet_notifyUser (env : Env) (id : UInt32) : Prog.IsQuiet (Server.notifyUser env id) := by
  refine Proc.safe_bind.mpr ((quiet_getFcmToken id).safe fun token => ?_)
  rw [Proc.safe_ite]
  refine ⟨fun _ => ?_, fun _ => trivial⟩
  refine Proc.safe_bind.mpr ((quiet_numContactRequests env id).safe fun n => ?_)
  have hmessages := quiet_numPushRequests env id
  simp [hmessages]

/-- Delivery to the sessions of an account. -/
theorem run_processUserRequests (env : Env) (id : UInt32) (w : World) :
    Delivers
      (fun t p => t ∈ w.server.getSessions id ∧
        MadeFrom env w.server.requests (w.server.sessions t).accountId p)
      w.server (Proc.run (step env) (Server.processUserRequests env id) w).2.server := by
  rw [Server.processUserRequests, Proc.run_bind, Proc.run_perform, Proc.run_ite]
  split
  · exact run_forM_processRequests env w.server _ w (fun t ht p hp => ⟨ht, hp⟩) (.refl _)
  · exact (quiet_run (quiet_notifyUser env id) w).delivers

end ZwayServer
