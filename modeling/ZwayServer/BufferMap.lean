import ZwayServer.Relay

/-!
# The map of stream buffers and the files

`m_buffers` has an entry for every upload that is going on or is being read.  Entries leave it
when the timer or `removeStreamBuffer` drops them, and come back when `getStreamBuffer` opens
the file again.  What keeps two uploads of one id apart is `FileBuffer::init`, which looks for
the file; but where it finds one, the process does not survive that.

* `removeStreamBuffer` — the function of the server that no handler calls.
* `BufferAct`, `bufferAfter` — whatever is done to the map, the buffers and the files, in any
  order.
* `Begun` — the ids of which an upload has been begun.
* `Orderly` — every key is the id of its buffer and has a file, an upload never meets another
  one, a later one leaves everything as it is, and what the timer and `removeStreamBuffer` drop.
* `orderly_iff_fresh` — all steps of a run are orderly exactly if no upload is begun again.
-/

namespace ZwayServer

open ClientSession

/-- `Server::removeStreamBuffer`. -/
def ServerState.removeStreamBuffer (σ : ServerState) (id : UInt32) : Bool × ServerState :=
  if id ∈ σ.buffers then (true, { σ with buffers := σ.buffers.erase id }) else (false, σ)

/-! ## Runs -/

/-- What is done to buffers, each as one step. -/
inductive BufferEvent where
  | createStreamReceiver (s : SessionId) (pkt : Packet)
  | getStreamBuffer (id : UInt32)
  | removeStreamBuffer (id : UInt32)
  | timer (completed : Sender → Bool)
  | write (ref : Nat) (data : List UInt8)
  | read (ref size offset : Nat)

/-- A step, and what the outside world decides meanwhile. -/
structure BufferAct where
  event : BufferEvent
  tape : Nat → Choice

/-- One step; after the process has ended, there is none. -/
def bufferNext (env : Env) (σ : ServerState) (a : BufferAct) : ServerState :=
  if σ.terminated then σ else
  match a.event with
  | .createStreamReceiver s pkt => (Prog.runOn env (createStreamReceiver s pkt) a.tape σ).2
  | .getStreamBuffer id => (Prog.runOn env (Server.getStreamBuffer env id) a.tape σ).2
  | .removeStreamBuffer id => (σ.removeStreamBuffer id).2
  | .timer completed => (Prog.runOn env (Server.onTimer completed) a.tape σ).2
  | .write ref data => (Prog.runOn env (StreamBuffer.write ref data) a.tape σ).2
  | .read ref size offset => (Prog.runOn env (StreamBuffer.read ref size offset) a.tape σ).2

/-- Where a run leads that starts with an empty map, the newest step first; `files` are those
that earlier runs of the server have left. -/
def bufferAfter (env : Env) (files : String → Option (List UInt8)) : List BufferAct → ServerState
  | [] => { files := files }
  | a :: tr => bufferNext env (bufferAfter env files tr) a

/-- The step makes a buffer for the upload `x`. -/
def Begins (env : Env) (σ : ServerState) (a : BufferAct) (x : UInt32) : Prop :=
  ∃ s pkt, a.event = .createStreamReceiver s pkt ∧ pkt.streamType = .resource ∧
    pkt.streamId = x ∧ (Prog.runOn env (StreamBuffer.create (tmpFile x) pkt) a.tape σ).1.isSome

/-- An upload of `x` has been begun: a step of the run has made a buffer for it, or its file is
there from an earlier run. -/
def Begun (env : Env) (files : String → Option (List UInt8)) : List BufferAct → UInt32 → Prop
  | [], x => (files (tmpFile x)).isSome = true
  | a :: tr, x => Begins env (bufferAfter env files tr) a x ∨ Begun env files tr x

/-! ## What every step keeps -/

/-- Every key of the map is the id of its buffer, and has a file. -/
structure Linked (σ : ServerState) : Prop where
  streamId : ∀ (id : UInt32) (ref : Nat), σ.buffers[id]? = some ref →
    ref < σ.heap.length ∧ (σ.heap.getD ref default).streamId = id
  file : ∀ (id : UInt32) (ref : Nat), σ.buffers[id]? = some ref →
    (σ.files (tmpFile id)).isSome = true

/-- Files and buffers stay, and buffers keep their ids. -/
structure Grown (σ σ' : ServerState) : Prop where
  files : ∀ name, (σ.files name).isSome = true → (σ'.files name).isSome = true
  heap : σ.heap.length ≤ σ'.heap.length
  streamId : ∀ ref < σ.heap.length,
    (σ'.heap.getD ref default).streamId = (σ.heap.getD ref default).streamId

namespace Grown

variable {σ σ' σ'' : ServerState}

theorem of_same (hfiles : σ'.files = σ.files) (hheap : σ'.heap = σ.heap) : Grown σ σ' := by
  refine ⟨?_, ?_, ?_⟩
  · intro name h
    rw [hfiles]
    exact h
  · rw [hheap]
  · intro ref _
    rw [hheap]

theorem refl (σ : ServerState) : Grown σ σ := of_same rfl rfl

/-- A file is made or written. -/
theorem of_update {name : String} {bytes : List UInt8}
    (hfiles : σ'.files = Function.update σ.files name (some bytes)) (hheap : σ'.heap = σ.heap) :
    Grown σ σ' := by
  refine ⟨?_, hheap ▸ le_rfl, fun ref _ => by rw [hheap]⟩
  intro name' h
  rw [hfiles, Function.update_apply]
  split
  · rfl
  · exact h

/-- A buffer is made. -/
theorem of_append {b : StreamBuffer} (hfiles : σ'.files = σ.files)
    (hheap : σ'.heap = σ.heap ++ [b]) : Grown σ σ' := by
  refine ⟨fun name h => by rw [hfiles]; exact h, ?_, ?_⟩
  · rw [hheap, List.length_append]
    omega
  · intro ref href
    rw [hheap, List.getD_append _ _ _ _ href]

/-- A buffer changes, but not its id. -/
theorem of_set {ref : Nat} {b : StreamBuffer} (hfiles : σ'.files = σ.files)
    (hheap : σ'.heap = σ.heap.set ref b)
    (hid : b.streamId = (σ.heap.getD ref default).streamId) : Grown σ σ' := by
  refine ⟨fun name h => by rw [hfiles]; exact h, ?_, ?_⟩
  · rw [hheap, List.length_set]
  · intro ref' href
    rw [hheap, List.getD_eq_getElem?_getD, List.getElem?_set]
    split
    · next heq =>
      subst heq
      rw [if_pos href, Option.getD_some, hid]
    · rw [List.getD_eq_getElem?_getD]

theorem trans (h : Grown σ σ') (h' : Grown σ' σ'') : Grown σ σ'' := by
  refine ⟨fun name hname => h'.files name (h.files name hname), h.heap.trans h'.heap, ?_⟩
  intro ref href
  rw [h'.streamId ref (href.trans_le h.heap), h.streamId ref href]

end Grown

namespace Linked

variable {σ σ' : ServerState}

/-- Entries may go while everything else stays. -/
theorem forget (h : Linked σ) (hgrown : Grown σ σ')
    (hsub : ∀ (id : UInt32) (ref : Nat), σ'.buffers[id]? = some ref → σ.buffers[id]? = some ref) :
    Linked σ' := by
  refine ⟨?_, ?_⟩
  · intro id ref href
    obtain ⟨hlt, hid⟩ := h.streamId id ref (hsub id ref href)
    exact ⟨hlt.trans_le hgrown.heap, (hgrown.streamId ref hlt).trans hid⟩
  · intro id ref href
    exact hgrown.files _ (h.file id ref (hsub id ref href))

/-- An entry may come if it is linked. -/
theorem insert (h : Linked σ) (hgrown : Grown σ σ') {id : UInt32} {ref : Nat}
    (hbuffers : σ'.buffers = σ.buffers.insert id ref) (hlt : ref < σ'.heap.length)
    (hid : (σ'.heap.getD ref default).streamId = id)
    (hfile : (σ'.files (tmpFile id)).isSome = true) :
    Linked σ' := by
  have hcases : ∀ (id' : UInt32) (ref' : Nat), σ'.buffers[id']? = some ref' →
      (id' = id ∧ ref' = ref) ∨ σ.buffers[id']? = some ref' := by
    intro id' ref' href'
    rw [hbuffers, Std.TreeMap.getElem?_insert] at href'
    split at href'
    · next he => exact Or.inl ⟨(Std.LawfulEqCmp.eq_of_compare he).symm,
        (Option.some.inj href').symm⟩
    · exact Or.inr href'
  refine ⟨?_, ?_⟩
  · intro id' ref' href'
    rcases hcases id' ref' href' with ⟨rfl, rfl⟩ | hold
    · exact ⟨hlt, hid⟩
    · obtain ⟨hlt', hid'⟩ := h.streamId id' ref' hold
      exact ⟨hlt'.trans_le hgrown.heap, (hgrown.streamId ref' hlt').trans hid'⟩
  · intro id' ref' href'
    rcases hcases id' ref' href' with ⟨rfl, rfl⟩ | hold
    · exact hfile
    · exact hgrown.files _ (h.file id' ref' hold)

end Linked

/-! ## What the steps do -/

section

variable (env : Env) {w : World}

/-- A stream that is not a resource is left to the engine. -/
theorem run_createStreamReceiver_of_other (s : SessionId) {pkt : Packet}
    (htype : pkt.streamType ≠ .resource) :
    Proc.run (step env) (createStreamReceiver s pkt) w = (none, w) := by
  rw [createStreamReceiver, Proc.run_ite, if_pos htype]
  rfl

/-- A stream whose file exists ends the process. -/
theorem run_createStreamReceiver_of_exists (s : SessionId) {pkt : Packet}
    (htype : pkt.streamType = .resource)
    (hfile : (w.server.files (tmpFile pkt.streamId)).isSome = true) :
    Proc.run (step env) (createStreamReceiver s pkt) w = (none, w.terminate) := by
  rw [createStreamReceiver, Proc.run_ite, if_neg (not_not.mpr htype), Proc.run_bind,
    run_streamBufferCreate, if_pos hfile]
  rfl

/-- What becomes of a stream whose file does not exist: nothing if it cannot be created, a file
and a buffer if the engine refuses the receiver, and else a receiver, and an entry for it unless
there is one. -/
theorem run_createStreamReceiver (s : SessionId) {pkt : Packet} (htype : pkt.streamType = .resource)
    (hfile : w.server.files (tmpFile pkt.streamId) = none) :
    let out := Proc.run (step env) (createStreamReceiver s pkt) w
    let new := (w.createFile (tmpFile pkt.streamId) pkt).server
    if (w.tape 0).fails then out.1 = none ∧ out.2.server = w.server
    else if (w.tape 1).fails then out.1 = none ∧ out.2.server = new
    else out.1 = some { streamId := pkt.streamId, buffer := w.server.heap.length } ∧
      out.2.server.files = new.files ∧ out.2.server.heap = new.heap ∧
      out.2.server.buffers = if pkt.streamId ∈ w.server.buffers then w.server.buffers
        else w.server.buffers.insert pkt.streamId w.server.heap.length := by
  have hcreate := run_streamBufferCreate env w (tmpFile pkt.streamId) pkt
  rw [hfile, Option.isSome_none, if_neg Bool.false_ne_true] at hcreate
  dsimp only
  rw [createStreamReceiver, Proc.run_ite, if_neg (not_not.mpr htype), Proc.run_bind, hcreate]
  by_cases hopen : (w.tape 0).fails = true
  · rw [if_pos hopen, if_pos hopen]
    exact ⟨rfl, rfl⟩
  rw [if_neg hopen, if_neg hopen]
  by_cases hrefused : (w.tape 1).fails = true
  · rw [if_pos hrefused]
    simp [Proc.run_bind, step, exec, Op.draws, World.createFile, World.next, World.update, hrefused]
  · rw [if_neg hrefused]
    by_cases hmem : pkt.streamId ∈ w.server.buffers
    · simp [Proc.run_bind, step, exec, Op.draws, World.createFile, World.next, World.update,
        Server.addStreamBuffer, ServerState.modify, hrefused, hmem]
    · simp [Proc.run_bind, step, exec, Op.draws, World.createFile, World.next, World.update,
        Server.addStreamBuffer, ServerState.modify, hrefused, hmem]

/-- An id without a file has no entry. -/
theorem Linked.not_mem {σ : ServerState} (h : Linked σ) {id : UInt32}
    (hfile : σ.files (tmpFile id) = none) : id ∉ σ.buffers := by
  intro hmem
  obtain ⟨ref, href⟩ := Option.isSome_iff_exists.mp (Std.TreeMap.isSome_getElem?_iff_mem.mpr hmem)
  have hsome := h.file id ref href
  rw [hfile] at hsome
  cases hsome

/-- A file and a buffer on it. -/
theorem grown_createFile (filename : String) (pkt : Packet) :
    Grown w.server (w.createFile filename pkt).server := by
  have hfile : Grown w.server
      { w.server with files := Function.update w.server.files filename (some []) } :=
    .of_update rfl rfl
  exact hfile.trans (.of_append rfl rfl)

theorem linked_createStreamReceiver (s : SessionId) (pkt : Packet) (h : Linked w.server) :
    let out := (Proc.run (step env) (createStreamReceiver s pkt) w).2.server
    Grown w.server out ∧ Linked out := by
  dsimp only
  by_cases htype : pkt.streamType = .resource
  swap
  · rw [run_createStreamReceiver_of_other env s htype]
    exact ⟨.refl _, h⟩
  by_cases hfile : (w.server.files (tmpFile pkt.streamId)).isSome = true
  · rw [run_createStreamReceiver_of_exists env s htype hfile]
    have hgrown : Grown w.server w.terminate.server := .of_same rfl rfl
    exact ⟨hgrown, h.forget hgrown fun _ _ href => href⟩
  have hnew : w.server.files (tmpFile pkt.streamId) = none := by simpa using hfile
  have hgrown := grown_createFile (w := w) (tmpFile pkt.streamId) pkt
  have hout := run_createStreamReceiver env s htype hnew
  dsimp only at hout
  split at hout
  · rw [hout.2]
    exact ⟨.refl _, h⟩
  · split at hout
    · rw [hout.2]
      exact ⟨hgrown, h.forget hgrown fun _ _ href => href⟩
    · obtain ⟨-, hfiles, hheap, hbuffers⟩ := hout
      rw [if_neg (h.not_mem hnew)] at hbuffers
      have hgrown' := hgrown.trans (Grown.of_same hfiles hheap)
      refine ⟨hgrown', h.insert hgrown' hbuffers ?_ ?_ ?_⟩
      · rw [hheap]
        simp [World.createFile, World.update, World.next]
      · rw [hheap]
        simp [World.createFile, World.update, World.next]
      · rw [hfiles]
        simp [World.createFile, World.update]

theorem linked_getStreamBuffer (id : UInt32) (h : Linked w.server) :
    let out := (Proc.run (step env) (Server.getStreamBuffer env id) w).2.server
    Grown w.server out ∧ Linked out := by
  cases hbuffer : w.server.buffers[id]? with
  | some ref =>
    rw [run_getStreamBuffer_of_some env hbuffer]
    exact ⟨.refl _, h⟩
  | none =>
    cases hfile : w.server.files (tmpFile id) with
    | none =>
      rw [run_getStreamBuffer_of_none env hbuffer hfile]
      exact ⟨.refl _, h⟩
    | some bytes =>
      rw [run_getStreamBuffer_of_file env hbuffer hfile]
      have hgrown : Grown w.server (w.server.reopen env id bytes) := .of_append rfl rfl
      refine ⟨hgrown, h.insert hgrown rfl ?_ ?_ ?_⟩
      · simp [ServerState.reopen]
      · simp [ServerState.reopen]
      · show (w.server.files (tmpFile id)).isSome = true
        rw [hfile]
        rfl

theorem linked_write (ref : Nat) (data : List UInt8) (h : Linked w.server) :
    let out := (Proc.run (step env) (StreamBuffer.write ref data) w).2.server
    Grown w.server out ∧ Linked out ∧ out.buffers = w.server.buffers := by
  dsimp only
  rw [run_streamBufferWrite]
  dsimp only
  have hfiles : ∀ name bytes, Grown w.server
      { w.server with files := Function.update w.server.files name (some bytes) } :=
    fun _ _ => .of_update rfl rfl
  split
  · exact ⟨.refl _, h, rfl⟩
  · split
    · exact ⟨hfiles _ _, h.forget (hfiles _ _) fun _ _ href => href, rfl⟩
    · have hboth : ∀ name bytes b, b.streamId = (w.server.heap.getD ref default).streamId →
          Grown w.server { w.server with
            files := Function.update w.server.files name (some bytes)
            heap := w.server.heap.set ref b } :=
        fun name bytes b hid => (hfiles name bytes).trans (.of_set rfl rfl hid)
      exact ⟨hboth _ _ _ rfl, h.forget (hboth _ _ _ rfl) fun _ _ href => href, rfl⟩

theorem linked_read (ref size offset : Nat) (h : Linked w.server) :
    let out := (Proc.run (step env) (StreamBuffer.read ref size offset) w).2.server
    Grown w.server out ∧ Linked out ∧ out.buffers = w.server.buffers := by
  have htouch : ∀ t, Grown w.server { w.server with
      heap := w.server.heap.set ref { w.server.heap.getD ref default with lastActivity := t } } :=
    fun t => .of_set rfl rfl rfl
  have hread : step env (.readBuffer ref) w = (w.server.heap.getD ref default, w) := rfl
  dsimp only
  rw [StreamBuffer.read, Proc.run_bind, Proc.run_perform, hread]
  dsimp only
  generalize (if offset < _ then _ else 0) = bytesToRead
  rw [Proc.run_ite]
  split
  · rw [Proc.run_bind, Proc.run_perform]
    dsimp only [step, exec, Op.draws]
    split
    · exact ⟨.refl _, h, rfl⟩
    · simp only [Proc.run_bind, Proc.run_perform, step, exec, Op.draws, Proc.run_pure]
      exact ⟨htouch _, h.forget (htouch _) fun _ _ href => href, trivial⟩
  · simp only [Proc.run_pure, Proc.run_bind, Proc.run_perform, step, exec, Op.draws]
    exact ⟨htouch _, h.forget (htouch _) fun _ _ href => href, trivial⟩

/-! ### The timer -/

/-- The test of the timer, for the buffer of an entry. -/
def Aged (σ : ServerState) (t : UInt64) (ref : Nat) : Prop :=
  t - (σ.heap.getD ref default).lastActivity > 60

instance (σ : ServerState) (t : UInt64) (ref : Nat) : Decidable (Aged σ t ref) :=
  inferInstanceAs (Decidable (_ > _))

/-- A pass of the timer removes the entries whose own buffer is aged, and no others. -/
theorem getElem?_evictBuffers (t : UInt64) {σ : ServerState} (h : Linked σ) (c : Choice)
    (id : UInt32) : (exec env (.evictBuffers t) c σ).2.buffers[id]? =
      (σ.buffers[id]?).filter fun ref => !decide (Aged σ t ref) := by
  have hbuffers : (exec env (.evictBuffers t) c σ).2.buffers =
      (σ.buffers.toList.filter fun it => decide (Aged σ t it.2)).foldl
        (fun m it => m.erase (σ.heap.getD it.2 default).streamId) σ.buffers := rfl
  -- the key of an entry is the id of its buffer
  have hmem : id ∈ ((σ.buffers.toList.filter fun it => decide (Aged σ t it.2)).map
      fun it => (σ.heap.getD it.2 default).streamId) ↔
      ∃ ref, σ.buffers[id]? = some ref ∧ Aged σ t ref := by
    simp only [List.mem_map, List.mem_filter, decide_eq_true_eq, Prod.exists,
      Std.TreeMap.mem_toList_iff_getElem?_eq_some]
    constructor
    · rintro ⟨id', ref, ⟨href, haged⟩, hid⟩
      rw [(h.streamId id' ref href).2] at hid
      subst hid
      exact ⟨ref, href, haged⟩
    · rintro ⟨ref, href, haged⟩
      exact ⟨id, ref, ⟨href, haged⟩, (h.streamId id ref href).2⟩
  rw [hbuffers, getElem?_foldl_erase_eq]
  simp only [hmem]
  cases σ.buffers[id]? with
  | none => simp
  | some ref => by_cases haged : Aged σ t ref <;> simp [haged, Option.filter]

end

/-! ## Along a run -/

section

variable {env : Env} {files : String → Option (List UInt8)}

/-- Every step keeps the links, and what there is. -/
theorem linked_bufferNext {σ : ServerState} (h : Linked σ) (a : BufferAct) :
    Grown σ (bufferNext env σ a) ∧ Linked (bufferNext env σ a) := by
  rw [bufferNext]
  split
  · exact ⟨.refl σ, h⟩
  obtain ⟨event, tape⟩ := a
  cases event with
  | createStreamReceiver s pkt => exact linked_createStreamReceiver env (w := ⟨σ, tape, []⟩) s pkt h
  | getStreamBuffer id => exact linked_getStreamBuffer env (w := ⟨σ, tape, []⟩) id h
  | removeStreamBuffer id =>
    show Grown σ (σ.removeStreamBuffer id).2 ∧ Linked (σ.removeStreamBuffer id).2
    rw [ServerState.removeStreamBuffer]
    split
    · have hgrown : Grown σ { σ with buffers := σ.buffers.erase id } := .of_same rfl rfl
      refine ⟨hgrown, h.forget hgrown ?_⟩
      intro id' ref href
      rw [Std.TreeMap.getElem?_erase] at href
      split at href
      · cases href
      · exact href
    · exact ⟨.refl σ, h⟩
  | timer completed =>
    have hgrown : ∀ senders buffers,
        Grown σ { σ with senders := senders, buffers := buffers } := fun _ _ => .of_same rfl rfl
    exact ⟨hgrown _ _, h.forget (hgrown _ _) fun id ref => getElem?_foldl_erase _ _ _⟩
  | write ref data =>
    have hwrite := linked_write env (w := ⟨σ, tape, []⟩) ref data h
    exact ⟨hwrite.1, hwrite.2.1⟩
  | read ref size offset =>
    have hread := linked_read env (w := ⟨σ, tape, []⟩) ref size offset h
    exact ⟨hread.1, hread.2.1⟩

theorem linked_bufferAfter (tr : List BufferAct) : Linked (bufferAfter env files tr) := by
  induction tr with
  | nil =>
    refine ⟨?_, ?_⟩
    · intro id ref href
      simp [bufferAfter] at href
    · intro id ref href
      simp [bufferAfter] at href
  | cons a tr ih => exact (linked_bufferNext ih a).2

/-- A buffer can only be made for a file that does not exist, and then the file exists. -/
theorem Begins.newFile {σ : ServerState} {a : BufferAct} {x : UInt32} (h : Begins env σ a x) :
    σ.files (tmpFile x) = none ∧
      (σ.terminated = false → ((bufferNext env σ a).files (tmpFile x)).isSome = true) := by
  obtain ⟨event, tape⟩ := a
  obtain ⟨s, pkt, rfl, htype, rfl, hmade⟩ := h
  have hcreate := run_streamBufferCreate env ⟨σ, tape, []⟩ (tmpFile pkt.streamId) pkt
  rw [Prog.runOn] at hmade
  dsimp only at hmade
  rw [hcreate] at hmade
  by_cases hfile : (σ.files (tmpFile pkt.streamId)).isSome = true
  · rw [if_pos hfile] at hmade
    cases hmade
  rw [if_neg hfile] at hmade
  by_cases hopen : (tape 0).fails = true
  · rw [if_pos hopen] at hmade
    cases hmade
  have hnone : σ.files (tmpFile pkt.streamId) = none := by simpa using hfile
  have hnew : ((World.mk σ tape []).createFile (tmpFile pkt.streamId) pkt).server.files
      (tmpFile pkt.streamId) = some [] := by simp [World.createFile, World.update]
  have hout := run_createStreamReceiver env (w := ⟨σ, tape, []⟩) s htype hnone
  dsimp only at hout
  rw [if_neg hopen] at hout
  refine ⟨hnone, fun hlive => ?_⟩
  rw [bufferNext, hlive, if_neg Bool.false_ne_true]
  show ((Proc.run (step env) (createStreamReceiver s pkt) ⟨σ, tape, []⟩).2.server.files
    (tmpFile pkt.streamId)).isSome = true
  split at hout
  · rw [hout.2, hnew]
    rfl
  · rw [hout.2.1, hnew]
    rfl

/-- In a linked state, the map takes the buffer of every receiver that is made. -/
theorem Linked.added {σ : ServerState} (h : Linked σ) (hlive : σ.terminated = false)
    {s : SessionId} {pkt : Packet} {tape : Nat → Choice} {receiver : Receiver}
    (hsome : (Prog.runOn env (createStreamReceiver s pkt) tape σ).1 = some receiver) :
    receiver.streamId = pkt.streamId ∧
      (bufferNext env σ ⟨.createStreamReceiver s pkt, tape⟩).buffers =
        σ.buffers.insert pkt.streamId receiver.buffer := by
  rw [Prog.runOn] at hsome
  dsimp only at hsome
  by_cases htype : pkt.streamType = .resource
  swap
  · rw [run_createStreamReceiver_of_other env s htype] at hsome
    cases hsome
  by_cases hfile : (σ.files (tmpFile pkt.streamId)).isSome = true
  · rw [run_createStreamReceiver_of_exists env s (w := ⟨σ, tape, []⟩) htype hfile] at hsome
    cases hsome
  have hnew : σ.files (tmpFile pkt.streamId) = none := by simpa using hfile
  have hout := run_createStreamReceiver env (w := ⟨σ, tape, []⟩) s htype hnew
  dsimp only at hout
  split at hout
  · rw [hout.1] at hsome
    cases hsome
  · split at hout
    · rw [hout.1] at hsome
      cases hsome
    · obtain ⟨hreceiver, -, -, hbuffers⟩ := hout
      rw [hreceiver, Option.some.injEq] at hsome
      rw [if_neg (h.not_mem hnew)] at hbuffers
      rw [← hsome, bufferNext, hlive, if_neg Bool.false_ne_true]
      exact ⟨rfl, hbuffers⟩

/-- `removeStreamBuffer` drops one entry, and says whether it was there. -/
theorem removeStreamBuffer_spec (σ : ServerState) (id : UInt32) :
    (σ.removeStreamBuffer id).1 = decide (id ∈ σ.buffers) ∧
      ∀ id' : UInt32, (σ.removeStreamBuffer id).2.buffers[id']? =
        if id' = id then none else σ.buffers[id']? := by
  rw [ServerState.removeStreamBuffer]
  by_cases hmem : id ∈ σ.buffers
  · rw [if_pos hmem]
    refine ⟨(decide_eq_true hmem).symm, ?_⟩
    intro id'
    rw [Std.TreeMap.getElem?_erase]
    by_cases he : id' = id
    · subst he
      rw [if_pos Std.ReflCmp.compare_self, if_pos rfl]
    · rw [if_neg fun hc => he (Std.LawfulEqCmp.eq_of_compare hc).symm, if_neg he]
  · rw [if_neg hmem]
    refine ⟨(decide_eq_false hmem).symm, ?_⟩
    intro id'
    by_cases he : id' = id
    · subst he
      rw [if_pos rfl]
      exact Std.TreeMap.getElem?_eq_none hmem
    · rw [if_neg he]

/-! ## The law -/

/-- Every step of the run that a running server takes satisfies `P`, which may look at the run
so far. -/
def EachStep (env : Env) (files : String → Option (List UInt8))
    (P : List BufferAct → BufferAct → Prop) : List BufferAct → Prop
  | [] => True
  | a :: tr => ((bufferAfter env files tr).terminated = false → P tr a) ∧ EachStep env files P tr

/-- What the linking of the map and the files means for a step after the run `tr`. -/
structure Orderly (env : Env) (files : String → Option (List UInt8)) (tr : List BufferAct)
    (a : BufferAct) : Prop where
  /-- Afterwards every key is the id of its buffer and has a file. -/
  linked : Linked (bufferNext env (bufferAfter env files tr) a)
  /-- A buffer is made for an upload only if none was begun before, and it has no entry. -/
  once : ∀ x, Begins env (bufferAfter env files tr) a x →
    ¬ Begun env files tr x ∧ x ∉ (bufferAfter env files tr).buffers
  /-- The map takes the buffer of the receiver that is made. -/
  added : ∀ s pkt receiver, a.event = .createStreamReceiver s pkt →
    (Prog.runOn env (createStreamReceiver s pkt) a.tape (bufferAfter env files tr)).1 =
      some receiver →
    receiver.streamId = pkt.streamId ∧
      (bufferNext env (bufferAfter env files tr) a).buffers =
        (bufferAfter env files tr).buffers.insert pkt.streamId receiver.buffer
  /-- A later upload of the same id changes neither entries nor files, nor anything else. -/
  again : ∀ s pkt, a.event = .createStreamReceiver s pkt → Begun env files tr pkt.streamId →
    bufferNext env (bufferAfter env files tr) a = bufferAfter env files tr
  /-- A pass of the timer drops the entries whose own buffer is aged, and no others. -/
  timer : ∀ completed, a.event = .timer completed → ∀ id : UInt32,
    (bufferNext env (bufferAfter env files tr) a).buffers[id]? =
      ((bufferAfter env files tr).buffers[id]?).filter fun ref =>
        !decide (Aged (bufferAfter env files tr) (a.tape 0).time ref)
  /-- `removeStreamBuffer` drops the entry of its id, and no other, and says whether there was
  one. -/
  remove : ∀ id, a.event = .removeStreamBuffer id →
    ((bufferAfter env files tr).removeStreamBuffer id).1 =
        decide (id ∈ (bufferAfter env files tr).buffers) ∧
      ∀ id' : UInt32, (bufferNext env (bufferAfter env files tr) a).buffers[id']? =
        if id' = id then none else (bufferAfter env files tr).buffers[id']?

/-- The step does not upload what an upload was begun of before. -/
def Fresh (env : Env) (files : String → Option (List UInt8)) (tr : List BufferAct)
    (a : BufferAct) : Prop :=
  ∀ s pkt, a.event = .createStreamReceiver s pkt → pkt.streamType = .resource →
    ¬ Begun env files tr pkt.streamId

/-- The file of an upload that was begun stays, as long as the server runs. -/
theorem Begun.file {tr : List BufferAct} {x : UInt32} (h : Begun env files tr x)
    (hlive : (bufferAfter env files tr).terminated = false) :
    ((bufferAfter env files tr).files (tmpFile x)).isSome = true := by
  induction tr with
  | nil => exact h
  | cons a tr ih =>
    have hbefore : (bufferAfter env files tr).terminated = false := by
      by_contra hended
      rw [bufferAfter, bufferNext, if_pos (by simpa using hended)] at hlive
      exact hended hlive
    rcases h with hnow | hold
    · exact hnow.newFile.2 hbefore
    · exact (linked_bufferNext (linked_bufferAfter tr) a).1.files _ (ih hold hbefore)

/-- A step of a running server is orderly exactly if it does not upload anything again. -/
theorem orderly_iff (tr : List BufferAct) (a : BufferAct)
    (hlive : (bufferAfter env files tr).terminated = false) :
    Orderly env files tr a ↔ Fresh env files tr a := by
  have hlinked : Linked (bufferAfter env files tr) := linked_bufferAfter tr
  have hfile : ∀ x, Begun env files tr x →
      ((bufferAfter env files tr).files (tmpFile x)).isSome = true := fun x h => h.file hlive
  constructor
  · rintro h s pkt he htype hbegun
    -- the process ends, so the state is not what it was
    have hsame := congrArg ServerState.terminated (h.again s pkt he hbegun)
    rw [hlive, bufferNext, hlive, if_neg Bool.false_ne_true, he] at hsame
    dsimp only [Prog.runOn] at hsame
    rw [run_createStreamReceiver_of_exists env s htype (hfile _ hbegun)] at hsame
    cases hsame
  · intro hfresh
    obtain ⟨event, tape⟩ := a
    constructor
    case linked => exact (linked_bufferNext hlinked _).2
    case once =>
      intro x hbegins
      refine ⟨fun hbegun => ?_, hlinked.not_mem hbegins.newFile.1⟩
      have hexists := hfile x hbegun
      rw [hbegins.newFile.1] at hexists
      cases hexists
    case added =>
      rintro s pkt receiver rfl hsome
      exact hlinked.added hlive hsome
    case again =>
      rintro s pkt rfl hbegun
      have htype : pkt.streamType ≠ .resource := fun htype => hfresh s pkt rfl htype hbegun
      rw [bufferNext, hlive, if_neg Bool.false_ne_true]
      dsimp only [Prog.runOn]
      rw [run_createStreamReceiver_of_other env s htype]
    case timer =>
      rintro completed rfl id
      rw [bufferNext, hlive, if_neg Bool.false_ne_true]
      have hdropped : Linked { bufferAfter env files tr with
          senders := (bufferAfter env files tr).senders.filter fun x => !completed x } :=
        ⟨hlinked.streamId, hlinked.file⟩
      exact getElem?_evictBuffers env (tape 0).time hdropped (tape 1) id
    case remove =>
      rintro id rfl
      rw [bufferNext, hlive, if_neg Bool.false_ne_true]
      exact removeStreamBuffer_spec _ id

/-- **Map and files stay linked, and no upload overwrites another**: this holds of every step of
a run exactly if the run uploads nothing again. -/
theorem orderly_iff_fresh (env : Env) (files : String → Option (List UInt8))
    (tr : List BufferAct) :
    EachStep env files (Orderly env files) tr ↔ EachStep env files (Fresh env files) tr := by
  induction tr with
  | nil => exact Iff.rfl
  | cons a tr ih => exact and_congr (imp_congr_right (orderly_iff tr a)) ih

/-- The first packet of an upload of the resource 7. -/
def sampleReceiver (s : SessionId) : BufferAct :=
  ⟨.createStreamReceiver s { streamId := 7, streamType := .resource, parts := 1 }, calm 0⟩

/-- The resource 7 is uploaded twice, by two sessions; the second upload ends the process. -/
theorem not_orderly_twice :
    ¬ EachStep sampleEnv (fun _ => none) (Orderly sampleEnv fun _ => none)
      [sampleReceiver 1, sampleReceiver 0] := by
  intro h
  have horderly := h.1 (by decide +kernel)
  have hbegun : Begun sampleEnv (fun _ => none) [sampleReceiver 0] 7 :=
    Or.inl ⟨0, _, rfl, rfl, rfl, by decide +kernel⟩
  have hsame := congrArg ServerState.terminated (horderly.again 1 _ rfl hbegun)
  revert hsame
  decide +kernel

end

end ZwayServer
