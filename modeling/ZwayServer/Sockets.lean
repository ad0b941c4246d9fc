import ZwayServer.Connection
import ZwayServer.Footprint
import ZwayServer.Invariants
import ZwayServer.Notification

/-!
# Outstanding reads

A session lives as long as something is outstanding on its socket: the handshake first, then
one read after the other, each started by the handler of the last.  Here the handlers of
handshakes and reads run against the whole server, in any order, with any result, and packets
have the session's requests, responses and streams processed between two reads.

* `Sockets` — the server, and what is outstanding on the socket of each session.
* `SocketEvent` — what can complete, and the rest that can happen meanwhile.
* `SocketsInv` — at most one thing is outstanding; who is listed and waits for its handshake
  has the status it was made with, and who is listed and does not is connected.
* `no_zombies` — as long as every completion of a session was answered, it is listed only
  while something is outstanding, so that its end is noticed.
* `zombie_iff` — the others have nothing outstanding.
-/

namespace ZwayServer

open ClientSession

/-! ## The server and its sockets -/

/-- What has been started on the socket of a session. -/
inductive Outstanding where
  /-- `async_handshake`. -/
  | handshake
  /-- `async_read_some`. -/
  | read (r : Reading)
  deriving DecidableEq

/-- The server, and what is outstanding on the socket of each session. -/
structure Sockets where
  server : ServerState := {}
  pending : SessionId → List Outstanding := fun _ => []

namespace Sockets

/-- Start something on the socket of a session. -/
def await (io : Sockets) (s : SessionId) (p : Outstanding) : Sockets :=
  { io with pending := Function.update io.pending s (io.pending s ++ [p]) }

/-- It has completed. -/
def finish (io : Sockets) (s : SessionId) (p : Outstanding) : Sockets :=
  { io with pending := Function.update io.pending s ((io.pending s).erase p) }

/-- Change the server. -/
def serve (io : Sockets) (f : ServerState → ServerState) : Sockets :=
  { io with server := f io.server }

end Sockets

/-- What the handler of an event makes of the server. -/
def Act.effect (env : Env) (a : Act) (σ : ServerState) : ServerState :=
  (Proc.run (step env) (a.event.handler env σ) (a.world σ)).2.server

/-- What the engine calls when a packet has come in for the session. -/
def Event.OfPacket (s : SessionId) : Event → Prop
  | request t _ | response t _ _ | createReceiver t _ | receive t _ _ | received t _ => t = s
  | _ => False

instance (s : SessionId) : (e : Event) → Decidable (e.OfPacket s)
  | .request t _ | .response t _ _ | .createReceiver t _ | .receive t _ _ | .received t _ =>
    inferInstanceAs (Decidable (t = s))
  | .connect _ | .handshake .. | .userRequests _ | .send .. | .timer _ | .disconnect _
  | .removeSessions => instDecidableFalse

/-- What happens without a read. -/
def Event.Background : Event → Prop
  | userRequests _ | send .. | timer _ => True
  | _ => False

instance : (e : Event) → Decidable e.Background
  | .userRequests _ | .send .. | .timer _ => instDecidableTrue
  | .connect _ | .handshake .. | .request .. | .response .. | .createReceiver .. | .receive ..
  | .received .. | .disconnect _ | .removeSessions => instDecidableFalse

/-- `ClientSession::processIncomingPacket`: `inside` is what the engine makes of the packet.
An exception ends it. -/
def processIncomingPacket (env : Env) (inside : List Act) (σ : ServerState) : ServerState :=
  inside.foldl (fun σ a => if σ.terminated then σ else a.effect env σ) σ

/-- `ClientSession::recvPacket`, which gives up if there is no memory for a packet. -/
def recvPacket (s : SessionId) (granted : Bool) (io : Sockets) : Sockets :=
  if granted then io.await s (.read .head) else io

/-- `ClientSession::onPacketRecv`. -/
def onPacketRecv (env : Env) (s : SessionId) (body : Bytes) (granted : Bool) (inside : List Act)
    (io : Sockets) : Sockets :=
  let io := if body = [] then io else io.serve (processIncomingPacket env inside)
  if io.server.terminated then io else recvPacket s granted io

/-- What becomes of the session when the read `r` has completed.  A head asks for memory before
it is followed by a read; a body is read on into the memory it has. -/
def react (env : Env) (s : SessionId) (r : Reading) (granted : Bool) (inside : List Act)
    (io : Sockets) : Reaction → Sockets
  | .read r' => if granted ∨ r ≠ .head then io.await s (.read r') else io
  | .packet _ body => onPacketRecv env s body granted inside io
  | .close => io.serve (Act.effect env ⟨.disconnect s, fun _ => {}⟩)
  | .nothing => io

/-- `ClientSession::handleHandshake`.  After `setStatus` it asks for the address of the peer, and
`remote_endpoint` throws if there is none. -/
def onHandshake (env : Env) (s : SessionId) (error throws granted : Bool) (io : Sockets) :
    Sockets :=
  let io := io.serve (Act.effect env ⟨.handshake s error, fun _ => {}⟩)
  if error then io
  else if throws then io.serve fun σ => { σ with terminated := true }
  else recvPacket s granted io

/-! ## Runs -/

/-- Something that happens to the server or on a socket. -/
inductive SocketEvent where
  /-- A connection is accepted. -/
  | accept (s : SessionId) (tape : Nat → Choice)
  /-- A handshake completes. -/
  | handshake (s : SessionId) (error throws granted : Bool)
  /-- A read completes. -/
  | read (s : SessionId) (r : Reading) (error : Option IoError) (bytes : Bytes) (granted : Bool)
      (inside : List Act)
  /-- A task, a sender or the timer is served. -/
  | background (a : Act)
  /-- All sessions are closed from the console. -/
  | removeSessions

variable (L : Layout) (env : Env)

namespace SocketEvent

/-- Can it happen?  A completion that was waiting when the session was closed still can. -/
def Enabled (io : Sockets) : SocketEvent → Prop
  | accept s _ => (io.server.sessions s).started = false
  | handshake s .. => .handshake ∈ io.pending s
  | read s r _ _ _ inside => .read r ∈ io.pending s ∧ ∀ a ∈ inside, a.event.OfPacket s
  | background a => a.event.Background ∧ a.event.Enabled io.server
  | removeSessions => True

instance (io : Sockets) (e : SocketEvent) : Decidable (e.Enabled io) := by
  cases e <;> unfold Enabled <;> infer_instance

/-- What it does. -/
def effect (io : Sockets) : SocketEvent → Sockets
  | accept s tape => (io.serve (Act.effect env ⟨.connect s, tape⟩)).await s .handshake
  | handshake s error throws granted =>
    onHandshake env s error throws granted (io.finish s .handshake)
  | read s r error bytes granted inside =>
    react env s r granted inside (io.finish s (.read r)) (r.completed L error bytes)
  | background a => io.serve (a.effect env)
  | removeSessions => io.serve (Act.effect env ⟨.removeSessions, fun _ => {}⟩)

/-- Does it take place?  After an exception has left a handler, nothing does. -/
def Possible (io : Sockets) (e : SocketEvent) : Prop :=
  io.server.terminated = false ∧ e.Enabled io

instance (io : Sockets) (e : SocketEvent) : Decidable (e.Possible io) := by
  unfold Possible
  infer_instance

end SocketEvent

/-- Where a run leads, newest first. -/
def afterSockets : List SocketEvent → Sockets
  | [] => {}
  | e :: tr =>
    if e.Possible (afterSockets tr) then e.effect L env (afterSockets tr) else afterSockets tr

/-! ## What a packet does to the sessions -/

/-- Who is listed under an id has it. -/
def ServerState.Housed (σ : ServerState) : Prop :=
  ∀ s k, s ∈ σ.getSessions k → (σ.sessions s).accountId = k

/-- A change of the session `s`, of its account and of its place in the registry. -/
structure Concerns (s : SessionId) (σ σ' : ServerState) : Prop where
  status : ∀ t, t ≠ s → (σ'.sessions t).status = (σ.sessions t).status
  started : ∀ t, t ≠ s → (σ'.sessions t).started = (σ.sessions t).started
  listed : ∀ t, t ≠ s → t ∈ σ'.listed → t ∈ σ.listed
  housed : σ'.Housed

/-- What the handlers of a packet may do: the session stays connected, and is listed anew
only when it logs in. -/
structure Attends (s : SessionId) (σ σ' : ServerState) : Prop extends Concerns s σ σ' where
  same : (σ'.sessions s).started = (σ.sessions s).started
  awake : (σ.sessions s).status ≠ .disconnected → (σ'.sessions s).status ≠ .disconnected
  relisted : s ∈ σ'.listed → s ∈ σ.listed ∨ (σ'.sessions s).status ≠ .disconnected

section

variable {s : SessionId} {σ σ' σ'' : ServerState}

theorem SamePeople.trans (h : SamePeople σ σ') (h' : SamePeople σ' σ'') : SamePeople σ σ'' where
  started t := (h'.started t).trans (h.started t)
  status t := (h'.status t).trans (h.status t)
  accountId t := (h'.accountId t).trans (h.accountId t)
  listed t k ht := h.listed t k (h'.listed t k ht)
  tasks d hd := h'.tasks d (h.tasks d hd)

theorem SamePeople.mem_listed (h : SamePeople σ σ') {t : SessionId} (ht : t ∈ σ'.listed) :
    t ∈ σ.listed := by
  obtain ⟨k, hk⟩ := (σ'.mem_listed t).mp ht
  exact (σ.mem_listed t).mpr ⟨k, h.listed t k hk⟩

theorem SamePeople.housed (h : SamePeople σ σ') (hσ : σ.Housed) : σ'.Housed := by
  intro t k ht
  rw [h.accountId]
  exact hσ t k (h.listed t k ht)

theorem SamePeople.attends (h : SamePeople σ σ') (hσ : σ.Housed) : Attends s σ σ' where
  status t _ := h.status t
  started t _ := h.started t
  listed t _ ht := h.mem_listed ht
  housed := h.housed hσ
  same := h.started s
  awake hst := by rwa [h.status]
  relisted hs := Or.inl (h.mem_listed hs)

/-- A program without login and logout changes none of this. -/
theorem samePeople_run (env : Env) {α : Type} {p : Prog α} (hp : Proc.Within Op.Steady p)
    (w : World) :
    SamePeople w.server (Proc.run (step env) p w).2.server := by
  refine hp.run (P := fun w' : World => SamePeople w.server w'.server) ?_ (.refl _)
  intro o w' ho hw'
  exact hw'.trans (samePeople_exec env (w'.tape 0) w'.server ho)

theorem Concerns.trans (h : Concerns s σ σ') (h' : Concerns s σ' σ'') : Concerns s σ σ'' where
  status t ht := (h'.status t ht).trans (h.status t ht)
  started t ht := (h'.started t ht).trans (h.started t ht)
  listed t ht hmem := h.listed t ht (h'.listed t ht hmem)
  housed := h'.housed

namespace Attends

theorem refl (hσ : σ.Housed) : Attends s σ σ := (SamePeople.refl σ).attends hσ

theorem trans (h : Attends s σ σ') (h' : Attends s σ' σ'') : Attends s σ σ'' where
  toConcerns := h.toConcerns.trans h'.toConcerns
  same := h'.same.trans h.same
  awake hst := h'.awake (h.awake hst)
  relisted hs := by
    rcases h'.relisted hs with hmem | hst
    · rcases h.relisted hmem with hold | hst
      · exact Or.inl hold
      · exact Or.inr (h'.awake hst)
    · exact Or.inr hst

/-- A logout. -/
theorem setConnected (hσ : σ.Housed) : Attends s σ (σ.setStatus s .connected) where
  status t ht := by simp [ServerState.setStatus, ht]
  started t ht := by simp [ServerState.setStatus, ht]
  listed t _ ht := ht
  housed t k ht := by
    rw [ServerState.setStatus, ServerState.sessions_modify]
    split
    · next he =>
      subst he
      exact hσ t k ht
    · exact hσ t k ht
  same := by simp [ServerState.setStatus]
  awake _ := by simp [ServerState.setStatus]
  relisted hs := Or.inl hs

theorem mem_login {t : SessionId} {x k : UInt32} (hσ : σ.Housed)
    (ht : t ∈ (σ.login s x).getSessions k) : t ≠ s ∧ t ∈ σ.getSessions k ∨ t = s ∧ x = k := by
  rw [ServerState.getSessions_login] at ht
  rcases List.mem_append.mp ht with hold | hnew
  · refine Or.inl ?_
    split at hold
    · obtain ⟨hmem, hne⟩ := List.mem_filter.mp hold
      exact ⟨by simpa using hne, hmem⟩
    · next hne =>
      refine ⟨?_, hold⟩
      rintro rfl
      exact hne (hσ t k hold)
  · refine Or.inr ?_
    split at hnew
    · next hk => exact ⟨List.mem_singleton.mp hnew, hk⟩
    · cases hnew

theorem login (hσ : σ.Housed) (x : UInt32) : Attends s σ (σ.login s x) where
  status t ht := by simp [ht]
  started t ht := by simp [ht]
  listed t ht hmem := by
    obtain ⟨k, hk⟩ := (ServerState.mem_listed _ t).mp hmem
    rcases mem_login hσ hk with ⟨_, hold⟩ | ⟨rfl, _⟩
    · exact (σ.mem_listed t).mpr ⟨k, hold⟩
    · exact absurd rfl ht
  housed t k ht := by
    rcases mem_login hσ ht with ⟨hne, hold⟩ | ⟨rfl, rfl⟩
    · rw [ServerState.sessions_login, if_neg hne]
      exact hσ t k hold
    · rw [ServerState.sessions_login, if_pos rfl]
  same := by simp
  awake _ := by simp
  relisted _ := Or.inr (by simp)

end Attends

/-- A request does one of these, whatever the status of the session. -/
theorem attends_outcome {env : Env} {w : World} {head : UBJ.Object} (hw : w.server.Housed)
    (h : Outcome env w s head σ') : Attends s w.server σ' := by
  have hunmoved : ∀ {τ : ServerState}, Attends s w.server τ → Unmoved τ σ' →
      Attends s w.server σ' := by
    intro τ hτ hu
    have hlisted : ∀ t, t ∈ σ'.listed → t ∈ τ.listed := by
      intro t ht
      rwa [ServerState.listed, hu.registry] at ht
    refine hτ.trans ?_
    exact
      { status := fun t _ => hu.status t
        started := fun t _ => hu.started t
        listed := fun t _ ht => hlisted t ht
        housed := fun t k ht => by
          rw [hu.getSessions] at ht
          exact (hu.accountId t).trans (hτ.housed t k ht)
        same := hu.started s
        awake := fun hst => by rwa [hu.status]
        relisted := fun hs => Or.inl (hlisted s hs) }
  cases h with
  | refused _ hq => exact hunmoved (.refl hw) (.of_delivers hq)
  | edited _ _ he => exact hunmoved (.refl hw) (.of_edits he)
  | loggedOut _ _ hq => exact hunmoved (.setConnected hw) (.of_delivers hq)
  | created a _ _ _ hq =>
    have hinsert : SamePeople w.server (w.server.insertAccount a) :=
      { SamePeople.refl w.server with }
    exact hunmoved (hinsert.attends hw) (.of_delivers hq)
  | loggedIn x _ _ hd => exact hunmoved (.login hw x) (.of_delivers hd)

/-- So does everything else that a packet can bring. -/
theorem attends_effect (env : Env) {a : Act} (ha : a.event.OfPacket s) (hσ : σ.Housed) :
    Attends s σ (a.effect env σ) := by
  obtain ⟨event, tape⟩ := a
  have hsteady : (∀ o, event.Footprint env o → o.Steady) → event.note σ = σ →
      Attends s σ ((Act.mk event tape).effect env σ) := by
    intro hfoot hnote
    have hpeople := samePeople_run env ((within_handler env event σ).sub hfoot)
      ((Act.mk event tape).world σ)
    have hserver : ((Act.mk event tape).world σ).server = σ := hnote
    rw [hserver] at hpeople
    exact hpeople.attends hσ
  cases event with
  | request t head =>
    obtain rfl : t = s := ha
    have hrun : (Act.mk (.request t head) tape).effect env σ =
        (Proc.run (step env) (processIncomingRequest env t head) ⟨σ, tape, []⟩).2.server := by
      simp only [Act.effect, Event.handler, Act.world, Event.note, Proc.run_bind, Proc.run_pure]
    rw [hrun]
    exact attends_outcome (w := ⟨σ, tape, []⟩) hσ (outcome env ⟨σ, tape, []⟩ t head)
  | response | createReceiver | receive | received =>
    refine hsteady (fun o ho => ?_) rfl
    cases o <;> first | exact trivial | exact ho.elim
  | _ => exact ha.elim

theorem attends_processIncomingPacket (env : Env) {inside : List Act}
    (h : ∀ a ∈ inside, a.event.OfPacket s) (hσ : σ.Housed) :
    Attends s σ (processIncomingPacket env inside σ) := by
  unfold processIncomingPacket
  induction inside generalizing σ with
  | nil => exact .refl hσ
  | cons a inside ih =>
    rw [List.foldl_cons]
    have hrest := fun b hb => h b (List.mem_cons_of_mem a hb)
    split
    · exact ih hrest hσ
    · have hfirst := attends_effect env (h a (List.mem_cons_self ..)) hσ
      exact hfirst.trans (ih hrest hfirst.housed)

end

/-! ## The invariant -/

/-- The server has become `σ`, and on the socket of `s` there is left `l`. -/
def Sockets.left (io : Sockets) (s : SessionId) (σ : ServerState) (l : List Outstanding) :
    Sockets :=
  { server := σ, pending := Function.update io.pending s l }

namespace Sockets

variable (io : Sockets) (s : SessionId) (σ : ServerState) (l : List Outstanding)

@[simp] theorem left_server : (io.left s σ l).server = σ := rfl

@[simp] theorem left_pending_self : (io.left s σ l).pending s = l := by simp [left]

@[simp] theorem left_pending_of_ne {t : SessionId} (ht : t ≠ s) :
    (io.left s σ l).pending t = io.pending t := by
  simp [left, ht]

@[simp] theorem left_serve (f : ServerState → ServerState) :
    (io.left s σ l).serve f = io.left s (f σ) l := rfl

@[simp] theorem left_await (p : Outstanding) :
    (io.left s σ l).await s p = io.left s σ (l ++ [p]) := by
  simp [left, await]

end Sockets

/-- The session was started, and nothing of it is outstanding. -/
def Sockets.Idle (s : SessionId) (io : Sockets) : Prop :=
  io.pending s = [] ∧ (io.server.sessions s).started = true

section

variable {s : SessionId} {io : Sockets} {σ' : ServerState} {l : List Outstanding}

/-- What holds of every session, in a run in which the completions of the sessions in `A` have
all been answered. -/
structure SocketsInv (A : SessionId → Prop) (io : Sockets) : Prop where
  housed : io.server.Housed
  few : ∀ s, (io.pending s).length ≤ 1
  fresh : ∀ s, (io.server.sessions s).started = false →
    io.pending s = [] ∧ (io.server.sessions s).status = .disconnected ∧ s ∉ io.server.listed
  shaking : ∀ s, .handshake ∈ io.pending s → (io.server.sessions s).status = .disconnected
  awake : ∀ s ∈ io.server.listed, .handshake ∉ io.pending s →
    (io.server.sessions s).status ≠ .disconnected
  answered : ∀ s ∈ io.server.listed, A s → io.pending s ≠ []

namespace SocketsInv

variable {A A' : SessionId → Prop}

theorem init : SocketsInv A {} where
  housed s k hs := by simp [ServerState.getSessions] at hs
  few s := by simp
  fresh s _ := ⟨rfl, rfl, by simp [ServerState.getSessions]⟩
  shaking s hs := absurd hs List.not_mem_nil
  awake s hs := by simp [ServerState.getSessions] at hs
  answered s hs := by simp [ServerState.getSessions] at hs

/-- What completes is all that was outstanding. -/
theorem finish_eq (h : SocketsInv A io) {p : Outstanding} (hp : p ∈ io.pending s) :
    io.pending s = [p] ∧ io.finish s p = io.left s io.server [] := by
  have hone : io.pending s = [p] := by
    obtain ⟨q, hq⟩ := List.length_eq_one_iff.mp
      (Nat.le_antisymm (h.few s) (List.length_pos_of_mem hp))
    rw [hq] at hp ⊢
    rw [List.mem_singleton.mp hp]
  refine ⟨hone, ?_⟩
  simp [Sockets.finish, Sockets.left, hone]

/-- What concerns one session keeps the invariant if it holds of that session. -/
theorem of_concerns (h : SocketsInv A io) (hA : ∀ t, A' t → A t) (hc : Concerns s io.server σ')
    (hfew : l.length ≤ 1)
    (hfresh : (σ'.sessions s).started = false →
      l = [] ∧ (σ'.sessions s).status = .disconnected ∧ s ∉ σ'.listed)
    (hshaking : .handshake ∈ l → (σ'.sessions s).status = .disconnected)
    (hawake : s ∈ σ'.listed → .handshake ∉ l → (σ'.sessions s).status ≠ .disconnected)
    (hanswered : s ∈ σ'.listed → A' s → l ≠ []) : SocketsInv A' (io.left s σ' l) where
  housed := hc.housed
  few t := by
    by_cases ht : t = s
    · subst ht
      simpa using hfew
    · simpa [ht] using h.few t
  fresh t hstarted := by
    by_cases ht : t = s
    · subst ht
      simpa using hfresh hstarted
    · have hold := h.fresh t (by rwa [← hc.started t ht])
      refine ⟨by simpa [ht] using hold.1, (hc.status t ht).trans hold.2.1, ?_⟩
      exact fun hmem => hold.2.2 (hc.listed t ht hmem)
  shaking t hmem := by
    by_cases ht : t = s
    · subst ht
      exact hshaking (by simpa using hmem)
    · rw [Sockets.left_pending_of_ne _ _ _ _ ht] at hmem
      exact (hc.status t ht).trans (h.shaking t hmem)
  awake t hlisted hmem := by
    by_cases ht : t = s
    · subst ht
      exact hawake hlisted (by simpa using hmem)
    · rw [Sockets.left_pending_of_ne _ _ _ _ ht] at hmem
      rw [Sockets.left_server, hc.status t ht]
      exact h.awake t (hc.listed t ht hlisted) hmem
  answered t hlisted hanswered' := by
    by_cases ht : t = s
    · subst ht
      simpa using hanswered hlisted hanswered'
    · rw [Sockets.left_pending_of_ne _ _ _ _ ht]
      exact h.answered t (hc.listed t ht hlisted) (hA t hanswered')

/-- A session that has been closed has nothing to keep. -/
theorem of_closed (h : SocketsInv A io) (hA : ∀ t, A' t → A t) (hc : Concerns s io.server σ')
    (hst : (σ'.sessions s).status = .disconnected) (hnot : s ∉ σ'.listed) :
    SocketsInv A' (io.left s σ' []) := by
  refine h.of_concerns hA hc (Nat.zero_le _) ?_ ?_ ?_ ?_
  · intro _
    exact ⟨rfl, hst, hnot⟩
  · intro _
    exact hst
  · intro hs
    exact absurd hs hnot
  · intro hs
    exact absurd hs hnot

end SocketsInv

end

/-! ## Completions that nobody answers -/

/-- The completions of a read on which its handler starts another, hands over a packet, or
closes the session. -/
def Reading.Answers (r : Reading) (error : Option IoError) (n : Nat) : Prop :=
  match error with
  | some e => e.Ends
  | none =>
    match r with
    | .head => n = 0 ∨ n = L.headSize
    | .body pktHead offset _ => offset.toNat + n ≤ (L.bodySize pktHead).toNat

instance (r : Reading) (error : Option IoError) (n : Nat) : Decidable (r.Answers L error n) := by
  unfold Reading.Answers
  split
  · infer_instance
  · split <;> infer_instance

/-- After such a completion without an error, the handler asks for memory: for the body of the
packet, or for the next packet. -/
def Reading.Asks (r : Reading) (n : Nat) : Prop :=
  match r with
  | .head => True
  | .body pktHead offset _ => offset.toNat + n = (L.bodySize pktHead).toNat

instance (r : Reading) (n : Nat) : Decidable (r.Asks L n) := by
  unfold Reading.Asks
  split <;> infer_instance

/-- What the handler of a read does, by what it was told. -/
theorem completed_spec (r : Reading) (error : Option IoError) (bytes : Bytes) :
    match r.completed L error bytes with
    | .read _ => error = none ∧ r.Answers L error bytes.length ∧
        (r = .head ↔ r.Asks L bytes.length)
    | .packet .. => error = none ∧ r.Answers L error bytes.length ∧ r.Asks L bytes.length
    | .close => ∃ e, error = some e ∧ e.Ends
    | .nothing => ¬ r.Answers L error bytes.length := by
  cases error with
  | some e =>
    by_cases he : e.Ends <;> cases r <;>
      simp [Reading.completed, onPacketHeadRecv, onPacketBodyRecv, onReadError, he, Reading.Answers]
  | none =>
    cases r with
    | head =>
      unfold Reading.completed onPacketHeadRecv
      dsimp only
      by_cases hfull : bytes.length = L.headSize
      · rw [if_pos ⟨rfl, hfull⟩]
        by_cases hbody : L.bodySize bytes > 0 <;>
          simp [hbody, recvPacketBody, Reading.Answers, Reading.Asks, hfull]
      · rw [if_neg fun hc => hfull hc.2]
        by_cases hempty : bytes.length = 0
        · simp [Reading.Answers, Reading.Asks, hempty]
        · simp [onReadError, Reading.Answers, hempty, hfull]
    | body pktHead offset data =>
      unfold Reading.completed onPacketBodyRecv
      dsimp only
      by_cases hmore : offset.toNat + bytes.length < (L.bodySize pktHead).toNat
      · rw [if_pos ⟨rfl, hmore⟩]
        refine ⟨rfl, hmore.le, ?_⟩
        simp [Reading.Asks, hmore.ne]
      · rw [if_neg fun hc => hmore hc.2]
        by_cases hall : offset.toNat + bytes.length = (L.bodySize pktHead).toNat
        · simp [Reading.Answers, Reading.Asks, hall]
        · have hover : ¬ offset.toNat + bytes.length ≤ (L.bodySize pktHead).toNat := by omega
          simp [onReadError, Reading.Answers, hover, hall]

namespace SocketEvent

/-- A completion after which nothing of the session is outstanding, and the session is not
closed: its handler knows neither the error nor the number of bytes, or there was no memory
for the next packet. -/
def Unanswered (s : SessionId) : SocketEvent → Prop
  | handshake t error _ granted => t = s ∧ error = false ∧ granted = false
  | read t r error bytes granted _ =>
    t = s ∧ (¬ r.Answers L error bytes.length ∨
      error = none ∧ r.Asks L bytes.length ∧ granted = false)
  | _ => False

instance (s : SessionId) (e : SocketEvent) : Decidable (e.Unanswered L s) := by
  cases e <;> unfold Unanswered <;> infer_instance

/-- A completion that tells of the end of the connection. -/
def Ends (s : SessionId) : SocketEvent → Prop
  | handshake t error .. => t = s ∧ error = true
  | read t _ error .. => t = s ∧ ∃ e, error = some e ∧ e.Ends
  | _ => False

end SocketEvent

/-- Every completion of the session that took place was answered. -/
def AllAnswered (s : SessionId) : List SocketEvent → Prop
  | [] => True
  | e :: tr =>
    (e.Possible (afterSockets L env tr) → ¬ e.Unanswered L s) ∧ AllAnswered s tr

/-! ## Every event keeps the invariant -/

/-- No event undoes that a session was started. -/
theorem started_effect (a : Act) {σ : ServerState} {s : SessionId}
    (hs : (σ.sessions s).started = true) : ((a.effect env σ).sessions s).started = true := by
  have hnote : ((a.world σ).server.sessions s).started = true := by
    obtain ⟨event, tape⟩ := a
    cases event with
    | connect t | handshake t error =>
      simp only [Act.world, Event.note, ServerState.sessions_modify]
      split
      · next ht =>
        subst ht
        first | rfl | exact hs
      · exact hs
    | _ => exact hs
  have hwithin : Proc.Within (fun _ => True) (a.event.handler env σ) :=
    (within_handler env a.event σ).sub fun _ _ => trivial
  refine hwithin.run (P := fun w : World => (w.server.sessions s).started = true) ?_ hnote
  intro o w _ hw
  exact (started_exec env o (w.tape 0) w.server s).trans hw

section

variable {env}
variable {s : SessionId} {σ : ServerState}

/-- It is noted that the handshake of a session is over. -/
theorem samePeople_handshaken (s : SessionId) (σ : ServerState) :
    SamePeople σ (σ.modify s fun x => { x with handshaken := true }) := by
  refine ⟨fun t => ?_, fun t => ?_, fun t => ?_, fun t k => id, fun d => id⟩ <;>
    · rw [ServerState.sessions_modify]
      split
      · next ht => rw [ht]
      · rfl

theorem concerns_connect (hσ : σ.Housed) (hs : s ∉ σ.listed) (id : UInt32) :
    Concerns s σ (σ.connect s id) := by
  have hget : ∀ t k, t ∈ (σ.connect s id).getSessions k → t ∈ σ.getSessions k ∨ t = s ∧ id = k := by
    intro t k ht
    simpa using (ServerState.mem_getSessions_appendSession _).mp ht
  refine ⟨fun t ht => ?_, fun t ht => ?_, fun t ht hmem => ?_, fun t k ht => ?_⟩
  · simp [ServerState.connect, ht]
  · simp [ServerState.connect, ht]
  · obtain ⟨k, hk⟩ := (ServerState.mem_listed _ t).mp hmem
    rcases hget t k hk with hold | ⟨rfl, _⟩
    · exact (σ.mem_listed t).mpr ⟨k, hold⟩
    · exact absurd rfl ht
  · rcases hget t k ht with hold | ⟨rfl, rfl⟩
    · have hne : t ≠ s := by
        rintro rfl
        exact hs ((σ.mem_listed t).mpr ⟨k, hold⟩)
      simpa [ServerState.connect, hne] using hσ t k hold
    · simp [ServerState.connect]

/-- A session that is closed is in no list. -/
theorem closed (hσ : σ.Housed) : Concerns s σ (σ.close s) ∧
    ((σ.close s).sessions s).status = .disconnected ∧ s ∉ (σ.close s).listed := by
  have hget : ∀ t k, t ∈ (σ.close s).getSessions k → t ≠ s ∧ t ∈ σ.getSessions k := by
    intro t k ht
    obtain ⟨hold, hne⟩ := (ServerState.mem_getSessions_removeSession _).mp ht
    refine ⟨?_, hold⟩
    rintro rfl
    exact hne (by simpa [ServerState.setStatus] using hσ t k hold) rfl
  refine ⟨⟨fun t ht => ?_, fun t ht => ?_, fun t ht hmem => ?_, fun t k ht => ?_⟩, ?_, ?_⟩
  · simp [ServerState.close, ServerState.setStatus, ht]
  · simp [ServerState.close, ServerState.setStatus, ht]
  · obtain ⟨k, hk⟩ := (ServerState.mem_listed _ t).mp hmem
    exact (σ.mem_listed t).mpr ⟨k, (hget t k hk).2⟩
  · obtain ⟨hne, hold⟩ := hget t k ht
    simpa [ServerState.close, ServerState.setStatus, hne] using hσ t k hold
  · simp [ServerState.close, ServerState.setStatus]
  · intro hmem
    obtain ⟨k, hk⟩ := (ServerState.mem_listed _ s).mp hmem
    exact (hget s k hk).1 rfl

namespace SocketsInv

variable {A A' : SessionId → Prop} {io : Sockets}

/-- A new connection. -/
theorem accept (h : SocketsInv A io) (hA : ∀ t, A' t → A t) {tape : Nat → Choice}
    (hp : (SocketEvent.accept s tape).Possible io) :
    SocketsInv A' ((SocketEvent.accept s tape).effect L env io) := by
  obtain ⟨hlive, hstarted⟩ := hp
  obtain ⟨hnone, hst, hnot⟩ := h.fresh s hstarted
  have hact : (Act.mk (.connect s) tape).Possible io.server := ⟨hlive, hstarted⟩
  have heffect : (Act.mk (.connect s) tape).effect env io.server =
      io.server.connect s (tape 0).word := (next_of_possible env hact).symm.trans
        (next_connect env hact)
  have hleft : (SocketEvent.accept s tape).effect L env io =
      io.left s (io.server.connect s (tape 0).word) [.handshake] := by
    simp only [SocketEvent.effect, Sockets.await, Sockets.serve, heffect, hnone, List.nil_append]
    rfl
  rw [hleft]
  refine h.of_concerns hA (concerns_connect h.housed hnot _) (le_refl _) ?_ ?_ ?_ ?_
  · intro hfresh
    simp [ServerState.connect] at hfresh
  · intro _
    simpa [ServerState.connect] using hst
  · intro _ hmem
    exact absurd (List.mem_singleton_self _) hmem
  · intro _ _
    exact List.cons_ne_nil _ _

/-- The next read is started, or it is not. -/
theorem of_next (h : SocketsInv A io) (hA : ∀ t, A' t → A t) {σ' : ServerState}
    (hc : Attends s io.server σ') (hstarted : (io.server.sessions s).started = true)
    (hawake : s ∈ σ'.listed → (σ'.sessions s).status ≠ .disconnected) {r : Reading} {c : Prop}
    [Decidable c] (hanswered : A' s → c) :
    SocketsInv A' (if c then (io.left s σ' []).await s (.read r) else io.left s σ' []) := by
  have hnotFresh : (σ'.sessions s).started ≠ false := by
    rw [hc.same, hstarted]
    decide
  by_cases hnext : c
  · rw [if_pos hnext, Sockets.left_await, List.nil_append]
    refine h.of_concerns hA hc.toConcerns (le_refl _) ?_ ?_ ?_ ?_
    · intro hfresh
      exact absurd hfresh hnotFresh
    · intro hmem
      cases List.mem_singleton.mp hmem
    · intro hs _
      exact hawake hs
    · intro _ _
      exact List.cons_ne_nil _ _
  · rw [if_neg hnext]
    refine h.of_concerns hA hc.toConcerns (Nat.zero_le _) ?_ ?_ ?_ ?_
    · intro hfresh
      exact absurd hfresh hnotFresh
    · intro hmem
      cases hmem
    · intro hs _
      exact hawake hs
    · intro _ hs
      exact absurd (hanswered hs) hnext

/-- Who has something outstanding has been started. -/
theorem started (h : SocketsInv A io) {p : Outstanding} (hp : p ∈ io.pending s) :
    (io.server.sessions s).started = true := by
  by_contra hno
  have hnone := (h.fresh s (by simpa using hno)).1
  rw [hnone] at hp
  cases hp

/-- The end of a handshake, unless `remote_endpoint` throws. -/
theorem handshake (h : SocketsInv A io) (hA : ∀ t, A' t → A t) {error throws granted : Bool}
    (hp : (SocketEvent.handshake s error throws granted).Possible io)
    (hlive :
      ((SocketEvent.handshake s error throws granted).effect L env io).server.terminated = false)
    (hanswered : A' s → ¬ (SocketEvent.handshake s error throws granted).Unanswered L s) :
    SocketsInv A' ((SocketEvent.handshake s error throws granted).effect L env io) := by
  obtain ⟨_, hfinish⟩ := h.finish_eq hp.2
  have hnoted : SamePeople io.server (io.server.modify s fun x => { x with handshaken := true }) :=
    samePeople_handshaken s io.server
  have hhoused := hnoted.housed h.housed
  have hconcerns : Concerns s io.server _ := (hnoted.attends h.housed).toConcerns
  simp only [SocketEvent.effect, onHandshake, hfinish, Sockets.left_serve] at hlive ⊢
  cases error with
  | true =>
    obtain ⟨hclose, hst, hnot⟩ := closed (s := s) hhoused
    exact h.of_closed hA (hconcerns.trans hclose) hst hnot
  | false =>
    have hconnect : Attends s io.server _ :=
      (hnoted.attends h.housed).trans (Attends.setConnected hhoused)
    have hst : (((io.server.modify s fun x => { x with handshaken := true }).setStatus s
        .connected).sessions s).status ≠ .disconnected := by
      simp [ServerState.setStatus]
    have hstarted := h.started hp.2
    cases throws with
    | true => cases hlive
    | false =>
      refine h.of_next hA hconnect hstarted (fun _ => hst) fun hs => ?_
      by_contra hgranted
      exact hanswered hs ⟨rfl, rfl, by simpa using hgranted⟩

/-- The end of a read, unless the packet that it completes ends the process. -/
theorem read (h : SocketsInv A io) (hA : ∀ t, A' t → A t) {r : Reading} {error : Option IoError}
    {bytes : Bytes} {granted : Bool} {inside : List Act}
    (hp : (SocketEvent.read s r error bytes granted inside).Possible io)
    (hlive : ((SocketEvent.read s r error bytes granted inside).effect L env io).server.terminated =
      false)
    (hanswered : A' s → ¬ (SocketEvent.read s r error bytes granted inside).Unanswered L s) :
    SocketsInv A' ((SocketEvent.read s r error bytes granted inside).effect L env io) := by
  obtain ⟨hpending, hfinish⟩ := h.finish_eq hp.2.1
  have hstarted := h.started hp.2.1
  have hnoHandshake : .handshake ∉ io.pending s := by
    rw [hpending]
    simp
  have hawake := fun hs => h.awake s hs hnoHandshake
  have hsame : Attends s io.server io.server := .refl h.housed
  simp only [SocketEvent.effect, hfinish] at hlive ⊢
  have hspec := completed_spec L r error bytes
  cases hreaction : r.completed L error bytes with
  | read r' =>
    rw [hreaction] at hspec
    obtain ⟨herror, hanswers, hhead⟩ := hspec
    unfold react
    dsimp only
    refine h.of_next hA hsame hstarted hawake fun hs => ?_
    by_contra hno
    push Not at hno
    refine hanswered hs ⟨rfl, Or.inr ⟨herror, hhead.mp hno.2, by simpa using hno.1⟩⟩
  | packet pktHead body =>
    rw [hreaction] at hspec hlive
    obtain ⟨herror, hanswers, hasks⟩ := hspec
    have hserved : ∃ σ', Attends s io.server σ' ∧
        (if body = [] then io.left s io.server []
          else (io.left s io.server []).serve (processIncomingPacket env inside)) =
          io.left s σ' [] := by
      by_cases hbody : body = []
      · exact ⟨_, hsame, if_pos hbody⟩
      · exact ⟨_, attends_processIncomingPacket env hp.2.2 h.housed, if_neg hbody⟩
    obtain ⟨σ', hattends, hserved⟩ := hserved
    unfold react onPacketRecv at hlive ⊢
    dsimp only at hlive ⊢
    rw [hserved] at hlive ⊢
    by_cases hend : σ'.terminated = true
    · rw [Sockets.left_server, if_pos hend, Sockets.left_server, hend] at hlive
      cases hlive
    · rw [Sockets.left_server, if_neg hend]
      refine h.of_next hA hattends hstarted ?_ fun hs => ?_
      · intro hs
        rcases hattends.relisted hs with hold | hst
        · exact hattends.awake (hawake hold)
        · exact hst
      · by_contra hgranted
        exact hanswered hs ⟨rfl, Or.inr ⟨herror, hasks, by simpa using hgranted⟩⟩
  | close =>
    obtain ⟨hclose, hst, hnot⟩ := closed (s := s) h.housed
    exact h.of_closed hA hclose hst hnot
  | nothing =>
    rw [hreaction] at hspec
    have hinv := h.of_next (r := r) (c := False) hA hsame hstarted hawake fun hs =>
      hanswered hs ⟨rfl, Or.inl hspec⟩
    rwa [if_neg not_false] at hinv

/-- What happens without a read. -/
theorem background (h : SocketsInv A io) (hA : ∀ t, A' t → A t) {a : Act}
    (hp : (SocketEvent.background a).Possible io) :
    SocketsInv A' ((SocketEvent.background a).effect L env io) := by
  obtain ⟨_, hbackground, _⟩ := hp
  -- a task is taken off the queue first, which no session notices
  have hnote : (a.event.note io.server).sessions = io.server.sessions ∧
      (a.event.note io.server).registry = io.server.registry := by
    cases ha : a.event <;> rw [ha] at hbackground <;>
      first | exact ⟨rfl, rfl⟩ | exact hbackground.elim
  have hsteady : Proc.Within Op.Steady (a.event.handler env (io.server)) := by
    refine (within_handler env a.event io.server).sub fun o ho => ?_
    cases ha : a.event with
    | userRequests k =>
      rw [ha] at ho
      cases o <;> first | exact trivial | exact ho.choose_spec.elim
    | send | timer =>
      rw [ha] at ho
      cases o <;> first | exact trivial | exact ho.elim
    | _ =>
      rw [ha] at hbackground
      exact hbackground.elim
  have hpeople : SamePeople (a.event.note io.server) (a.effect env io.server) :=
    samePeople_run env hsteady (a.world io.server)
  have hlisted : ∀ t, t ∈ (a.effect env io.server).listed → t ∈ io.server.listed := by
    intro t ht
    have hmem := hpeople.mem_listed ht
    rwa [ServerState.listed, hnote.2] at hmem
  have hsession : ∀ t, (a.event.note io.server).sessions t = io.server.sessions t := by
    intro t
    rw [hnote.1]
  exact
    { housed := by
        refine hpeople.housed fun t k ht => ?_
        rw [ServerState.getSessions, hnote.2] at ht
        rw [hsession]
        exact h.housed t k ht
      few := h.few
      fresh := fun t hstarted => by
        have hold := h.fresh t (by rwa [← hsession, ← hpeople.started])
        refine ⟨hold.1, ?_, fun hmem => hold.2.2 (hlisted t hmem)⟩
        rw [← hsession, ← hpeople.status] at hold
        exact hold.2.1
      shaking := fun t hmem => by
        have hold := h.shaking t hmem
        rwa [← hsession, ← hpeople.status] at hold
      awake := fun t hmem hno => by
        have hold := h.awake t (hlisted t hmem) hno
        rwa [← hsession, ← hpeople.status] at hold
      answered := fun t hmem ht => h.answered t (hlisted t hmem) (hA t ht) }

theorem removeSessions (h : SocketsInv A io) (hp : SocketEvent.removeSessions.Possible io) :
    SocketsInv A' (SocketEvent.removeSessions.effect L env io) := by
  have hact : (Act.mk .removeSessions fun _ => {}).Possible io.server := ⟨hp.1, trivial⟩
  have heffect : (Act.mk .removeSessions fun _ => {}).effect env io.server = io.server.closeAll :=
    (next_of_possible env hact).symm.trans (next_removeSessions env hact)
  have hleft : SocketEvent.removeSessions.effect L env io =
      { io with server := io.server.closeAll } := by
    simp only [SocketEvent.effect, Sockets.serve, heffect]
  have hnone : ∀ t, t ∉ io.server.closeAll.listed := by
    intro t ht
    simp [ServerState.closeAll, ServerState.getSessions] at ht
  have hst : ∀ t, (io.server.sessions t).status = .disconnected →
      (io.server.closeAll.sessions t).status = .disconnected := by
    intro t ht
    simp only [ServerState.closeAll]
    split
    · rfl
    · exact ht
  have hstarted : ∀ t,
      (io.server.closeAll.sessions t).started = (io.server.sessions t).started := by
    intro t
    simp only [ServerState.closeAll]
    split <;> rfl
  rw [hleft]
  exact
    { housed := fun t k ht => absurd ((ServerState.mem_listed _ t).mpr ⟨k, ht⟩) (hnone t)
      few := h.few
      fresh := fun t hfresh => by
        have hold := h.fresh t (by rwa [← hstarted])
        exact ⟨hold.1, hst t hold.2.1, hnone t⟩
      shaking := fun t hmem => hst t (h.shaking t hmem)
      awake := fun t hmem => absurd hmem (hnone t)
      answered := fun t hmem => absurd hmem (hnone t) }

/-- Every event keeps the invariant, unless it ends the process. -/
theorem step (h : SocketsInv A io) (hA : ∀ t, A' t → A t) {e : SocketEvent} (hp : e.Possible io)
    (hlive : (e.effect L env io).server.terminated = false)
    (hanswered : ∀ t, A' t → ¬ e.Unanswered L t) : SocketsInv A' (e.effect L env io) := by
  cases e with
  | accept s tape => exact h.accept L hA hp
  | handshake s error throws granted => exact h.handshake L hA hp hlive (hanswered s)
  | read s r error bytes granted inside => exact h.read L hA hp hlive (hanswered s)
  | background a => exact h.background L hA hp
  | removeSessions => exact h.removeSessions L hp

/-- A completion that tells of the end of the connection takes the session out of the
registry. -/
theorem ends (h : SocketsInv A io) {e : SocketEvent} (hp : e.Possible io) (he : e.Ends s) :
    s ∉ (e.effect L env io).server.listed ∧
      ((e.effect L env io).server.sessions s).status = .disconnected := by
  cases e with
  | handshake t error throws granted =>
    obtain ⟨rfl, rfl⟩ := he
    have hhoused := (samePeople_handshaken t io.server).housed h.housed
    obtain ⟨_, hst, hnot⟩ := closed (s := t) hhoused
    exact ⟨hnot, hst⟩
  | read t r error bytes granted inside =>
    obtain ⟨rfl, e, rfl, he⟩ := he
    have hclose : r.completed L (some e) bytes = .close := by
      cases r <;> simp [Reading.completed, onPacketHeadRecv, onPacketBodyRecv, onReadError, he]
    obtain ⟨_, hst, hnot⟩ := closed (s := t) h.housed
    unfold SocketEvent.effect
    dsimp only
    rw [hclose]
    exact ⟨hnot, hst⟩
  | _ => exact he.elim

/-- After a completion that nobody answers, nothing is outstanding. -/
theorem unanswered (h : SocketsInv A io) {e : SocketEvent} (hp : e.Possible io)
    (he : e.Unanswered L s) : (e.effect L env io).Idle s := by
  cases e with
  | handshake t error throws granted =>
    obtain ⟨rfl, rfl, rfl⟩ := he
    obtain ⟨_, hfinish⟩ := h.finish_eq hp.2
    have hstarted := h.started hp.2
    have heffect : (((Act.mk (.handshake t false) fun _ => {}).effect env io.server).sessions
        t).started = true := started_effect env _ hstarted
    simp only [SocketEvent.effect, onHandshake, hfinish, Sockets.left_serve, recvPacket]
    cases throws with
    | true => exact ⟨by simp, heffect⟩
    | false => exact ⟨by simp, heffect⟩
  | read t r error bytes granted inside =>
    obtain ⟨rfl, he⟩ := he
    obtain ⟨_, hfinish⟩ := h.finish_eq hp.2.1
    have hstarted := h.started hp.2.1
    have hspec := completed_spec L r error bytes
    simp only [SocketEvent.effect, hfinish]
    cases hreaction : r.completed L error bytes with
    | read r' =>
      rw [hreaction] at hspec
      obtain ⟨_, hanswers, hhead⟩ := hspec
      obtain hno | ⟨_, hasks, rfl⟩ := he
      · exact absurd hanswers hno
      · refine ⟨?_, ?_⟩ <;> simp [react, hhead.mpr hasks, hstarted]
    | packet pktHead body =>
      rw [hreaction] at hspec
      obtain ⟨_, hanswers, _⟩ := hspec
      obtain hno | ⟨_, _, rfl⟩ := he
      · exact absurd hanswers hno
      · have hinside : (processIncomingPacket env inside io.server).sessions t |>.started :=
          (attends_processIncomingPacket env hp.2.2 h.housed).same.trans hstarted
        unfold react onPacketRecv recvPacket
        dsimp only
        by_cases hbody : body = []
        · refine ⟨?_, ?_⟩ <;> simp [hbody, hstarted]
        · refine ⟨?_, ?_⟩ <;> simp [hbody, hinside]
    | close => exact ⟨by simp [react], started_effect env _ hstarted⟩
    | nothing => exact ⟨by simp [react], hstarted⟩
  | _ => exact he.elim

end SocketsInv

end

/-! ## Runs -/

/-- **The invariant of all runs.** -/
theorem socketsInv_after (tr : List SocketEvent)
    (hlive : (afterSockets L env tr).server.terminated = false) :
    SocketsInv (fun s => AllAnswered L env s tr) (afterSockets L env tr) := by
  induction tr with
  | nil => exact .init
  | cons e tr ih =>
    rw [afterSockets] at hlive ⊢
    by_cases hp : e.Possible (afterSockets L env tr)
    · rw [if_pos hp] at hlive ⊢
      refine (ih hp.1).step L ?_ hp hlive ?_
      · intro s hs
        exact hs.2
      · intro s hs
        exact hs.1 hp
    · rw [if_neg hp] at hlive ⊢
      have hinv := ih hlive
      exact { hinv with answered := fun s hmem hs => hinv.answered s hmem hs.2 }

namespace Sockets.Idle

variable {L} {env}
variable {s t : SessionId} {io : Sockets}

theorem await (h : io.Idle s) (ht : t ≠ s) (p : Outstanding) : (io.await t p).Idle s := by
  refine ⟨?_, h.2⟩
  simpa [Sockets.await, ht.symm] using h.1

theorem finish (h : io.Idle s) (ht : t ≠ s) (p : Outstanding) : (io.finish t p).Idle s := by
  refine ⟨?_, h.2⟩
  simpa [Sockets.finish, ht.symm] using h.1

theorem serve (h : io.Idle s) (a : Act) : (io.serve (a.effect env)).Idle s :=
  ⟨h.1, started_effect env a h.2⟩

theorem recvPacket (h : io.Idle s) (ht : t ≠ s) (granted : Bool) :
    (ZwayServer.recvPacket t granted io).Idle s := by
  unfold ZwayServer.recvPacket
  split
  · exact h.await ht _
  · exact h

theorem processIncomingPacket (h : io.Idle s) (inside : List Act) :
    (io.serve (ZwayServer.processIncomingPacket env inside)).Idle s := by
  refine ⟨h.1, ?_⟩
  have hstarted := h.2
  unfold Sockets.serve ZwayServer.processIncomingPacket
  dsimp only
  generalize io.server = σ at hstarted ⊢
  induction inside generalizing σ with
  | nil => exact hstarted
  | cons a inside ih =>
    rw [List.foldl_cons]
    split
    · exact ih σ hstarted
    · exact ih _ (started_effect env a hstarted)

theorem react (h : io.Idle s) (ht : t ≠ s) (r : Reading) (granted : Bool) (inside : List Act)
    (reaction : Reaction) : (ZwayServer.react env t r granted inside io reaction).Idle s := by
  unfold ZwayServer.react
  cases reaction with
  | read r' =>
    dsimp only
    split
    · exact h.await ht _
    · exact h
  | packet pktHead body =>
    have hserved : (if body = [] then io
        else io.serve (ZwayServer.processIncomingPacket env inside)).Idle s := by
      split
      · exact h
      · exact h.processIncomingPacket inside
    unfold onPacketRecv
    dsimp only
    generalize (if body = [] then io
      else io.serve (ZwayServer.processIncomingPacket env inside)) = io' at hserved ⊢
    split
    · exact hserved
    · exact hserved.recvPacket ht granted
  | close => exact h.serve _
  | nothing => exact h

/-- It stays so, whatever happens. -/
theorem effect (h : io.Idle s) {e : SocketEvent} (hp : e.Possible io) :
    (e.effect L env io).Idle s := by
  have hne : ∀ t p, p ∈ io.pending t → t ≠ s := by
    rintro t p hmem rfl
    rw [h.1] at hmem
    cases hmem
  cases e with
  | accept t tape =>
    have ht : t ≠ s := by
      rintro rfl
      have hfresh : (io.server.sessions t).started = false := hp.2
      rw [h.2] at hfresh
      cases hfresh
    exact (h.serve _).await ht _
  | handshake t error throws granted =>
    have ht := hne t _ hp.2
    have hserved : ((io.finish t .handshake).serve
        (Act.effect env ⟨.handshake t error, fun _ => {}⟩)).Idle s := (h.finish ht _).serve _
    unfold SocketEvent.effect onHandshake
    dsimp only
    split
    · exact hserved
    · split
      · exact ⟨hserved.1, hserved.2⟩
      · exact hserved.recvPacket ht granted
  | read t r error bytes granted inside =>
    have ht := hne t _ hp.2.1
    exact (h.finish ht _).react ht r granted inside _
  | background a => exact h.serve a
  | removeSessions => exact h.serve _

end Sockets.Idle

/-- A session one of whose completions went unanswered has nothing outstanding any more. -/
theorem idle_of_not_allAnswered {tr : List SocketEvent} {s : SessionId}
    (hlive : (afterSockets L env tr).server.terminated = false) (h : ¬ AllAnswered L env s tr) :
    (afterSockets L env tr).Idle s := by
  induction tr with
  | nil => exact absurd trivial h
  | cons e tr ih =>
    rw [afterSockets] at hlive ⊢
    by_cases hp : e.Possible (afterSockets L env tr)
    · rw [if_pos hp] at hlive ⊢
      have hinv := socketsInv_after L env tr hp.1
      by_cases hlast : e.Unanswered L s
      · exact hinv.unanswered L hp hlast
      · refine (ih hp.1 ?_).effect hp
        intro htr
        exact h ⟨fun _ => hlast, htr⟩
    · rw [if_neg hp] at hlive ⊢
      refine ih hlive ?_
      intro htr
      exact h ⟨fun hp' => absurd hp' hp, htr⟩

/-- **No zombies.**  After every run, a session in the registry has at most one handshake or read
outstanding.  While it is the handshake, the session has the status it was made with; from
then on it is connected.  As long as all its completions were answered, exactly one is
outstanding, and one that tells of the end of the connection takes the session out of the
registry. -/
theorem no_zombies (tr : List SocketEvent)
    (hlive : (afterSockets L env tr).server.terminated = false) (s : SessionId)
    (hs : s ∈ (afterSockets L env tr).server.listed) :
    ((afterSockets L env tr).pending s).length ≤ 1 ∧
      (.handshake ∈ (afterSockets L env tr).pending s →
        ((afterSockets L env tr).server.sessions s).status = .disconnected) ∧
      (.handshake ∉ (afterSockets L env tr).pending s →
        ((afterSockets L env tr).server.sessions s).status ≠ .disconnected) ∧
      (AllAnswered L env s tr → ((afterSockets L env tr).pending s).length = 1) ∧
      ∀ e : SocketEvent, e.Possible (afterSockets L env tr) → e.Ends s →
        s ∉ (e.effect L env (afterSockets L env tr)).server.listed ∧
          ((e.effect L env (afterSockets L env tr)).server.sessions s).status = .disconnected := by
  have hinv := socketsInv_after L env tr hlive
  refine ⟨hinv.few s, hinv.shaking s, hinv.awake s hs, ?_, ?_⟩
  · intro hanswered
    have hsome := List.length_pos_iff.mpr (hinv.answered s hs hanswered)
    have hfew := hinv.few s
    omega
  · intro e hp he
    exact hinv.ends L hp he

/-- The others are in the registry with nothing outstanding, so that nobody will notice when
they end. -/
theorem zombie_iff (tr : List SocketEvent)
    (hlive : (afterSockets L env tr).server.terminated = false) (s : SessionId)
    (hs : s ∈ (afterSockets L env tr).server.listed) :
    (afterSockets L env tr).pending s = [] ↔ ¬ AllAnswered L env s tr := by
  constructor
  · intro hnone hanswered
    exact (socketsInv_after L env tr hlive).answered s hs hanswered hnone
  · intro hnot
    exact (idle_of_not_allAnswered L env hlive hnot).1

/-! ## A session in its handshake, and a head in two parts -/

/-- Heads of four bytes, which announce no body. -/
def sampleHeads : Layout where
  headSize := 4
  headSize_pos := by decide
  bodySize _ := 0

/-- A connection has been accepted. -/
def acceptedRun : List SocketEvent := [.accept 0 (calm 1000)]

/-- Its handshake has succeeded, and a whole head has come in. -/
def wholeHeadRun : List SocketEvent :=
  .read 0 .head none [1, 2, 3, 4] true [] :: .handshake 0 false false true :: acceptedRun

/-- Of the head, the first byte has come in alone. -/
def shortHeadRun : List SocketEvent :=
  .read 0 .head none [1] true [] :: .handshake 0 false false true :: acceptedRun

theorem no_zombies_wholeHeadRun :
    ((afterSockets sampleHeads sampleEnv wholeHeadRun).pending 0).length = 1 ∧
      ((afterSockets sampleHeads sampleEnv wholeHeadRun).server.sessions 0).status ≠
        .disconnected := by
  have h := no_zombies sampleHeads sampleEnv wholeHeadRun (by decide +kernel) 0 (by decide +kernel)
  refine ⟨h.2.2.2.1 ?_, h.2.2.1 (by decide +kernel)⟩
  exact ⟨fun _ => by decide, fun _ => by decide, fun _ => by decide, trivial⟩

theorem zombie_shortHeadRun :
    (0 ∈ (afterSockets sampleHeads sampleEnv acceptedRun).server.listed ∧
      ((afterSockets sampleHeads sampleEnv acceptedRun).server.sessions 0).status =
        .disconnected) ∧
    0 ∈ (afterSockets sampleHeads sampleEnv shortHeadRun).server.listed ∧
      (afterSockets sampleHeads sampleEnv shortHeadRun).pending 0 = [] := by
  refine ⟨⟨?_, ?_⟩, ?_, ?_⟩ <;> decide +kernel

end ZwayServer
