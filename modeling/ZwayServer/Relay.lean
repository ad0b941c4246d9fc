import ZwayServer.Access

/-!
# The relay of uploads

A stream is sent while it is still being uploaded.  What a receiver is shown is what the
buffer of its sender says can be read, and that buffer need not be the one the upload writes.

* `written`, `uploaded` — the bytes that a step, and a run, write to a stream.
* `Relayed` — every sender that has a buffer sees through it all that was written.
* `Whole` — the invariant: every buffer in use shows the whole of its stream.
* `Through` — a packet that is written reaches the file and every buffer in use.
* `relayLaw_of_through` — a run of such steps truncates nothing.
-/

namespace ZwayServer

open ClientSession

/-! ## What is written -/

/-- The bytes of the stream `x` that a step writes: those of a packet whose receiver can write
its buffer, if the write succeeds. -/
def written (σ : ServerState) (a : Act) (x : UInt32) : Nat :=
  match a.event with
  | .receive s id body =>
    match (σ.sessions s).receivers.find? (·.streamId == id) with
    | some receiver =>
      if id = x ∧ (σ.heap.getD receiver.buffer default).append = true ∧
        (a.tape 0).fails = false then body.length else 0
    | none => 0
  | _ => 0

/-- The bytes of the stream `x` that a run has written. -/
def uploaded (env : Env) : List Act → UInt32 → Nat
  | [], _ => 0
  | a :: tr, x =>
    uploaded env tr x + if a.Possible (after env tr) then written (after env tr) a x else 0

/-- Every sender that has a buffer sees through it all that was written: this is what its
`bytesReadable()` reports, a number of 32 bits. -/
def Relayed (env : Env) (tr : List Act) : Prop :=
  ∀ x ∈ (after env tr).senders, ∀ ref, x.buffer = some ref →
    ((after env tr).heap.getD ref default).bytesReadable.toUInt32.toNat =
      uploaded env tr x.streamId

/-- In every state of the run, every sender sees all that was written by then. -/
def RelayLaw (env : Env) (tr : List Act) : Prop :=
  ∀ later earlier, tr = later ++ earlier → Relayed env earlier

/-- Different streams have different files. -/
theorem tmpFile_injective : Function.Injective tmpFile := by
  intro a b h
  have hrepr : toString a.toNat = toString b.toNat := by
    have hlist := congrArg String.toList h
    simp only [tmpFile, String.toList_append] at hlist
    exact String.toList_injective (List.append_cancel_left hlist)
  exact UInt32.toNat_inj.mp (Nat.repr_inj.mp hrepr)

/-! ## Buffers -/

/-- The buffer belongs to the stream `id` and shows this many bytes. -/
def Shows (heap : List StreamBuffer) (ref : Nat) (id : UInt32) (bytes : Nat) : Prop :=
  ∃ b, heap[ref]? = some b ∧ b.streamId = id ∧ b.filename = tmpFile id ∧
    b.bytesReadable.toNat = bytes

namespace Shows

variable {heap : List StreamBuffer} {ref : Nat} {id : UInt32} {bytes : Nat}

theorem append (h : Shows heap ref id bytes) (b : StreamBuffer) :
    Shows (heap ++ [b]) ref id bytes := by
  obtain ⟨b', hb', hrest⟩ := h
  have hlt : ref < heap.length := (List.getElem?_eq_some_iff.mp hb').1
  exact ⟨b', by rw [List.getElem?_append_left hlt, hb'], hrest⟩

theorem append_self {b : StreamBuffer} (hid : b.streamId = id) (hfile : b.filename = tmpFile id)
    (hbytes : b.bytesReadable.toNat = bytes) : Shows (heap ++ [b]) heap.length id bytes :=
  ⟨b, List.getElem?_concat_length, hid, hfile, hbytes⟩

/-- Writing a buffer back with the same stream, file and size. -/
theorem set {ref' : Nat} {b : StreamBuffer} (h : Shows heap ref id bytes)
    (hid : b.streamId = (heap.getD ref' default).streamId)
    (hfile : b.filename = (heap.getD ref' default).filename)
    (hbytes : b.bytesReadable = (heap.getD ref' default).bytesReadable) :
    Shows (heap.set ref' b) ref id bytes := by
  obtain ⟨b', hb', hid', hfile', hbytes'⟩ := h
  by_cases href : ref' = ref
  · subst href
    have hlt : ref' < heap.length := (List.getElem?_eq_some_iff.mp hb').1
    have hget : heap.getD ref' default = b' := by
      rw [List.getD_eq_getElem?_getD, hb', Option.getD_some]
    refine ⟨b, List.getElem?_set_self hlt, ?_, ?_, ?_⟩
    · rw [hid, hget, hid']
    · rw [hfile, hget, hfile']
    · rw [hbytes, hget, hbytes']
  · exact ⟨b', by rw [List.getElem?_set_ne href, hb'], hid', hfile', hbytes'⟩

/-- Writing another buffer. -/
theorem set_ne {ref' : Nat} (h : Shows heap ref id bytes) (b : StreamBuffer) (hne : ref' ≠ ref) :
    Shows (heap.set ref' b) ref id bytes := by
  obtain ⟨b', hb', hrest⟩ := h
  exact ⟨b', by rw [List.getElem?_set_ne hne, hb'], hrest⟩

/-- A buffer belongs to one stream. -/
theorem streamId_eq {id' : UInt32} {bytes' : Nat} (h : Shows heap ref id bytes)
    (h' : Shows heap ref id' bytes') : id = id' := by
  obtain ⟨b, hb, hid, -⟩ := h
  obtain ⟨b', hb', hid', -⟩ := h'
  obtain rfl : b = b' := Option.some.inj (hb.symm.trans hb')
  rw [← hid, ← hid']

theorem getD (h : Shows heap ref id bytes) :
    (heap.getD ref default).streamId = id ∧ (heap.getD ref default).filename = tmpFile id ∧
      (heap.getD ref default).bytesReadable.toNat = bytes := by
  obtain ⟨b, hb, hrest⟩ := h
  rwa [List.getD_eq_getElem?_getD, hb, Option.getD_some]

theorem lt (h : Shows heap ref id bytes) : ref < heap.length := by
  obtain ⟨b, hb, -⟩ := h
  exact (List.getElem?_eq_some_iff.mp hb).1

end Shows

/-! ## The invariant -/

/-- With `n` the bytes written to each stream: every buffer that a receiver, a sender or the
server holds shows the whole of its stream, the receivers of a stream share one buffer, and
the file of a stream has its length. -/
structure Whole (n : UInt32 → Nat) (σ : ServerState) : Prop where
  receivers : ∀ s, ∀ r ∈ (σ.sessions s).receivers, Shows σ.heap r.buffer r.streamId (n r.streamId)
  shared : ∀ s t, ∀ r ∈ (σ.sessions s).receivers, ∀ r' ∈ (σ.sessions t).receivers,
    r.streamId = r'.streamId → r.buffer = r'.buffer
  created : ∀ s, ∀ r ∈ (σ.sessions s).receivers, (σ.files (tmpFile r.streamId)).isSome = true
  senders : ∀ x ∈ σ.senders, ∀ ref, x.buffer = some ref →
    Shows σ.heap ref x.streamId (n x.streamId)
  listed : ∀ id ref, σ.buffers[id]? = some ref → Shows σ.heap ref id (n id)
  files : ∀ id, ((σ.files (tmpFile id)).getD []).length = n id
  small : ∀ id, n id < 2 ^ 32

/-- Nothing that concerns streams has changed. -/
structure SameStreams (σ σ' : ServerState) : Prop where
  receivers : ∀ s, (σ'.sessions s).receivers = (σ.sessions s).receivers
  senders : σ'.senders = σ.senders
  buffers : σ'.buffers = σ.buffers
  heap : σ'.heap = σ.heap
  files : σ'.files = σ.files

theorem SameStreams.refl (σ : ServerState) : SameStreams σ σ := ⟨fun _ => rfl, rfl, rfl, rfl, rfl⟩

theorem SameStreams.trans {σ₁ σ₂ σ₃ : ServerState} (h : SameStreams σ₁ σ₂)
    (h' : SameStreams σ₂ σ₃) : SameStreams σ₁ σ₃ :=
  ⟨fun s => (h'.receivers s).trans (h.receivers s), h'.senders.trans h.senders,
    h'.buffers.trans h.buffers, h'.heap.trans h.heap, h'.files.trans h.files⟩

/-- The operations that leave streams alone. -/
@[simp] def Op.KeepsStreams : Op → Prop
  | .addReceiver .. | .fopenAppend _ | .fwrite .. | .newBuffer _ | .addReadable .. | .touchBuffer _
  | .putBuffer .. | .addSender _ | .setSender .. | .dropSenders _ | .evictBuffers _ => False
  | _ => True

theorem sameStreams_modify (σ : ServerState) (s : SessionId) {f : Session → Session}
    (hf : ∀ x, (f x).receivers = x.receivers) : SameStreams σ (σ.modify s f) := by
  refine ⟨fun t => ?_, rfl, rfl, rfl, rfl⟩
  rw [ServerState.sessions_modify]
  split
  · next ht => rw [ht, hf]
  · rfl

theorem sameStreams_exec (env : Env) {o : Op} (h : o.KeepsStreams) (c : Choice)
    (σ : ServerState) : SameStreams σ (exec env o c σ).2 := by
  have hsame : ∀ {σ' : ServerState}, σ'.sessions = σ.sessions → σ'.senders = σ.senders →
      σ'.buffers = σ.buffers → σ'.heap = σ.heap → σ'.files = σ.files → SameStreams σ σ' :=
    fun hs hx hb hh hf => ⟨fun s => by rw [hs], hx, hb, hh, hf⟩
  by_cases hreads : o.Reads
  · rw [exec_of_reads env hreads]
    exact .refl σ
  cases o with
  | addReceiver | fopenAppend | fwrite | newBuffer | addReadable | touchBuffer | putBuffer
  | addSender | setSender | dropSenders | evictBuffers => exact h.elim
  | insertAccount | setFcmToken | insertRequest | removeRequest =>
    exact dbCall_cases (P := SameStreams σ) (.refl σ) fun _ => hsame rfl rfl rfl rfl rfl
  | setStatus s | setAccountId s | clearContacts s | putContact s | setConfig s | respond s
  | takePosted s | addUbjSender s =>
    dsimp only [exec]
    apply sameStreams_modify
    intro x
    rfl
  | postRequest s p =>
    dsimp only [exec]
    rw [ServerState.send, ServerState.modify_modify]
    apply sameStreams_modify
    intro x
    rfl
  | addEngineSender s =>
    rw [exec]
    split
    · exact .refl σ
    · dsimp only
      apply sameStreams_modify
      intro x
      rfl
  | removeSession s =>
    rw [exec, ServerState.removeSession_eq]
    exact hsame rfl rfl rfl rfl rfl
  | _ => first | exact hsame rfl rfl rfl rfl rfl | exact absurd trivial hreads

/-! ## What keeps the invariant -/

namespace Whole

variable {n : UInt32 → Nat} {σ σ' : ServerState}

theorem init : Whole (fun _ => 0) {} where
  receivers _ _ hr := absurd hr List.not_mem_nil
  shared _ _ _ hr := absurd hr List.not_mem_nil
  created _ _ hr := absurd hr List.not_mem_nil
  senders _ hx := absurd hx List.not_mem_nil
  listed id ref h := by
    rw [Std.TreeMap.getElem?_emptyc] at h
    cases h
  files _ := rfl
  small _ := by norm_num

theorem congr (h : Whole n σ) (hs : SameStreams σ σ') : Whole n σ' where
  receivers s r hr := by
    rw [hs.receivers] at hr
    rw [hs.heap]
    exact h.receivers s r hr
  shared s t r hr r' hr' := by
    rw [hs.receivers] at hr hr'
    exact h.shared s t r hr r' hr'
  created s r hr := by
    rw [hs.receivers] at hr
    rw [hs.files]
    exact h.created s r hr
  senders x hx ref href := by
    rw [hs.senders] at hx
    rw [hs.heap]
    exact h.senders x hx ref href
  listed id ref hlisted := by
    rw [hs.buffers] at hlisted
    rw [hs.heap]
    exact h.listed id ref hlisted
  files id := by rw [hs.files, h.files]
  small := h.small

/-- A buffer is made. -/
theorem append (h : Whole n σ) (b : StreamBuffer) : Whole n { σ with heap := σ.heap ++ [b] } where
  receivers s r hr := (h.receivers s r hr).append b
  shared := h.shared
  created := h.created
  senders x hx ref href := (h.senders x hx ref href).append b
  listed id ref hlisted := (h.listed id ref hlisted).append b
  files := h.files
  small := h.small

/-- A buffer is listed under its stream. -/
theorem list (h : Whole n σ) {id : UInt32} {ref : Nat} (hshows : Shows σ.heap ref id (n id)) :
    Whole n { σ with buffers := σ.buffers.insert id ref } where
  receivers := h.receivers
  shared := h.shared
  created := h.created
  senders := h.senders
  listed id' ref' hlisted := by
    rw [Std.TreeMap.getElem?_insert] at hlisted
    split at hlisted
    · next he =>
      obtain rfl : id = id' := Std.LawfulEqCmp.eq_of_compare he
      cases hlisted
      exact hshows
    · exact h.listed id' ref' hlisted
  files := h.files
  small := h.small

/-- The senders become others, each with a buffer that shows the whole of its stream. -/
theorem setSenders (h : Whole n σ) {xs : List Sender}
    (hxs : ∀ x ∈ xs, ∀ ref, x.buffer = some ref → Shows σ.heap ref x.streamId (n x.streamId)) :
    Whole n { σ with senders := xs } :=
  { h with senders := hxs }

/-- Buffers are forgotten. -/
theorem forget (h : Whole n σ) {buffers : Std.TreeMap UInt32 Nat}
    (hsub : ∀ (id : UInt32) (ref : Nat), buffers[id]? = some ref → σ.buffers[id]? = some ref) :
    Whole n { σ with buffers := buffers } :=
  { h with listed := fun id ref hlisted => h.listed id ref (hsub id ref hlisted) }

/-- A buffer is written back with the same stream, file and size. -/
theorem touch (h : Whole n σ) {ref : Nat} {b : StreamBuffer}
    (hid : b.streamId = (σ.heap.getD ref default).streamId)
    (hfile : b.filename = (σ.heap.getD ref default).filename)
    (hbytes : b.bytesReadable = (σ.heap.getD ref default).bytesReadable) :
    Whole n { σ with heap := σ.heap.set ref b } where
  receivers s r hr := (h.receivers s r hr).set hid hfile hbytes
  shared := h.shared
  created := h.created
  senders x hx ref' href := (h.senders x hx ref' href).set hid hfile hbytes
  listed id ref' hlisted := (h.listed id ref' hlisted).set hid hfile hbytes
  files := h.files
  small := h.small

/-- A file is replaced by one of the same length. -/
theorem setFile (h : Whole n σ) {name : String} {bytes : List UInt8}
    (hlength : bytes.length = ((σ.files name).getD []).length) :
    Whole n { σ with files := Function.update σ.files name (some bytes) } where
  receivers := h.receivers
  shared := h.shared
  created s r hr := by
    show (Function.update σ.files name (some bytes) (tmpFile r.streamId)).isSome = true
    rw [Function.update_apply]
    split
    · rfl
    · exact h.created s r hr
  senders := h.senders
  listed := h.listed
  files id := by
    show ((Function.update σ.files name (some bytes) (tmpFile id)).getD []).length = n id
    rw [Function.update_apply]
    split
    · next he =>
      rw [Option.getD_some, hlength, ← he]
      exact h.files id
    · exact h.files id
  small := h.small

/-- A session begins to receive a stream that nobody received before. -/
theorem addReceiver (h : Whole n σ) (s : SessionId) {r : Receiver}
    (hshows : Shows σ.heap r.buffer r.streamId (n r.streamId))
    (hfile : (σ.files (tmpFile r.streamId)).isSome = true)
    (hnew : ∀ t, ∀ r' ∈ (σ.sessions t).receivers, r'.streamId ≠ r.streamId) :
    Whole n (σ.modify s fun x => { x with receivers := x.receivers ++ [r] }) := by
  have hcases : ∀ t, ∀ r' ∈ ((σ.modify s fun x =>
      { x with receivers := x.receivers ++ [r] }).sessions t).receivers,
      r' ∈ (σ.sessions t).receivers ∨ r' = r := by
    intro t r' hr'
    rw [ServerState.sessions_modify] at hr'
    split at hr'
    · next ht =>
      subst ht
      simpa using hr'
    · exact Or.inl hr'
  constructor
  case receivers =>
    intro t r' hr'
    rcases hcases t r' hr' with hold | rfl
    · exact h.receivers t r' hold
    · exact hshows
  case shared =>
    intro t u r₁ hr₁ r₂ hr₂ he
    rcases hcases t r₁ hr₁ with hold | rfl <;> rcases hcases u r₂ hr₂ with hold' | rfl
    · exact h.shared t u r₁ hold r₂ hold' he
    · exact absurd he (hnew t r₁ hold)
    · exact absurd he.symm (hnew u r₂ hold')
    · rfl
  case created =>
    intro t r' hr'
    rcases hcases t r' hr' with hold | rfl
    · exact h.created t r' hold
    · exact hfile
  case senders => exact h.senders
  case listed => exact h.listed
  case files => exact h.files
  case small => exact h.small

/-- A receiver writes its buffer, and every other holder of a buffer of the stream holds that
one. -/
theorem write (h : Whole n σ) {s : SessionId} {r : Receiver}
    (hr : r ∈ (σ.sessions s).receivers) {data : List UInt8} {t : UInt64}
    (hsmall : n r.streamId + data.length < 2 ^ 32)
    (hsenders : ∀ x ∈ σ.senders, x.streamId = r.streamId →
      x.buffer = none ∨ x.buffer = some r.buffer)
    (hlisted : σ.buffers[r.streamId]? = none ∨ σ.buffers[r.streamId]? = some r.buffer) :
    let b := σ.heap.getD r.buffer default
    Whole (fun x => n x + if r.streamId = x then data.length else 0)
      { σ with
        files := Function.update σ.files b.filename
          (some ((σ.files b.filename).getD [] ++ data))
        heap := σ.heap.set r.buffer
          { b with
            bytesReadable := b.bytesReadable + UInt64.ofNat data.length
            lastActivity := t } } := by
  have hshows := h.receivers s r hr
  obtain ⟨hid, hname, hbytes⟩ := hshows.getD
  have hgrown : (σ.heap.getD r.buffer default).bytesReadable.toNat + data.length < 2 ^ 32 := by
    omega
  -- whoever holds a buffer of the stream holds the one that grows, the others hold another one
  have hheap : ∀ b' ref id, b' = { σ.heap.getD r.buffer default with
        bytesReadable := (σ.heap.getD r.buffer default).bytesReadable + UInt64.ofNat data.length
        lastActivity := t } →
      Shows σ.heap ref id (n id) → (id = r.streamId → ref = r.buffer) →
      Shows (σ.heap.set r.buffer b') ref id
        (n id + if r.streamId = id then data.length else 0) := by
    intro b' ref id hb' hold hsame
    by_cases he : r.streamId = id
    · subst he
      rw [if_pos rfl, hsame rfl]
      refine ⟨b', List.getElem?_set_self hshows.lt, ?_, ?_, ?_⟩
      · rw [hb', ← hid]
      · rw [hb', ← hname]
      · rw [hb', ← hbytes]
        simp only [UInt64.toNat_add, UInt64.toNat_ofNat']
        omega
    · rw [if_neg he, Nat.add_zero]
      refine hold.set_ne b' fun href => he ?_
      subst href
      exact hshows.streamId_eq hold
  constructor
  case receivers =>
    intro t' r' hr'
    exact hheap _ _ _ rfl (h.receivers t' r' hr') fun he => h.shared t' s r' hr' r hr he
  case shared => exact h.shared
  case created =>
    intro t' r' hr'
    dsimp only
    rw [Function.update_apply]
    split
    · rfl
    · exact h.created t' r' hr'
  case senders =>
    intro x hx ref href
    refine hheap _ _ _ rfl (h.senders x hx ref href) fun he => ?_
    rcases hsenders x hx he with hnone | hsome
    · rw [hnone] at href
      cases href
    · rw [hsome] at href
      exact (Option.some.inj href).symm
  case listed =>
    intro id ref hid'
    refine hheap _ _ _ rfl (h.listed id ref hid') fun he => ?_
    subst he
    rcases hlisted with hnone | hsome
    · rw [hnone] at hid'
      cases hid'
    · rw [hsome] at hid'
      exact (Option.some.inj hid').symm
  case files =>
    intro id
    dsimp only
    rw [hname, Function.update_apply]
    by_cases he : r.streamId = id
    · subst he
      rw [if_pos rfl, if_pos rfl, Option.getD_some, List.length_append, h.files]
    · rw [if_neg fun hf => he (tmpFile_injective hf).symm, if_neg he]
      exact h.files id
  case small =>
    intro id
    split
    · next he =>
      subst he
      exact hsmall
    · exact h.small id

end Whole

/-! ## Opening, sending and forgetting -/

section

variable (env : Env) {n : UInt32 → Nat}

/-- A buffer that is looked up or opened shows the whole of its stream. -/
theorem whole_getStreamBuffer (id : UInt32) {w : World} (h : Whole n w.server) :
    let out := Proc.run (step env) (Server.getStreamBuffer env id) w
    Whole n out.2.server ∧ ∀ ref, out.1 = some ref → Shows out.2.server.heap ref id (n id) := by
  cases hbuffer : w.server.buffers[id]? with
  | some ref =>
    rw [run_getStreamBuffer_of_some env hbuffer]
    refine ⟨h, ?_⟩
    rintro _ ⟨rfl⟩
    exact h.listed id ref hbuffer
  | none =>
    cases hfile : w.server.files (tmpFile id) with
    | none =>
      rw [run_getStreamBuffer_of_none env hbuffer hfile]
      refine ⟨h, ?_⟩
      rintro _ ⟨⟩
    | some bytes =>
      have hlength := h.files id
      rw [hfile, Option.getD_some] at hlength
      have hsize : (UInt64.ofNat bytes.length).toNat = n id := by
        have hsmall := h.small id
        rw [UInt64.toNat_ofNat']
        omega
      rw [run_getStreamBuffer_of_file env hbuffer hfile]
      have hnew : ∀ parts, Shows (w.server.heap ++ [{
          streamId := id, streamType := .resource, streamParts := parts,
          bytesReadable := UInt64.ofNat bytes.length, lastActivity := 0, filename := tmpFile id,
          append := false }]) w.server.heap.length id (n id) :=
        fun _ => .append_self rfl rfl hsize
      refine ⟨(h.append _).list (hnew _), ?_⟩
      rintro _ ⟨rfl⟩
      exact hnew _

/-- A named resource makes at most a sender that sees the whole of its stream. -/
theorem whole_sendResource (s : SessionId) (it : UBJ.Value) {w : World} (h : Whole n w.server) :
    Whole n (Proc.run (step env) (sendResource env s it) w).2.server := by
  have hnext : Whole n w.next.server := h
  obtain ⟨hwhole, hshows⟩ := whole_getStreamBuffer env it.toInt hnext
  rw [run_sendResource]
  dsimp only
  split
  · exact h
  split
  · exact h
  split
  · exact hwhole
  · refine Whole.setSenders (hwhole.congr (sameStreams_modify _ s ?_)) fun x hx ref href => ?_
    · exact fun _ => rfl
    rcases List.mem_append.mp hx with hold | hnew
    · exact hwhole.senders x hold ref href
    · rw [List.mem_singleton] at hnew
      subst hnew
      exact hshows ref href

theorem whole_forM_sendResource (s : SessionId) (items : List UBJ.Value) {w : World}
    (h : Whole n w.server) :
    Whole n (Proc.run (step env) (forM items (sendResource env s)) w).2.server := by
  induction items generalizing w with
  | nil => exact h
  | cons it items ih =>
    rw [Proc.run_forM_cons]
    exact ih (whole_sendResource env s it h)

/-- Reading changes nothing of a buffer but when it was last used. -/
theorem whole_read (ref size offset : Nat) {w : World} (h : Whole n w.server) :
    Whole n (Proc.run (step env) (StreamBuffer.read ref size offset) w).2.server := by
  have htouch : ∀ t, Whole n { w.server with
      heap := w.server.heap.set ref { w.server.heap.getD ref default with lastActivity := t } } :=
    fun t => h.touch rfl rfl rfl
  have hread : step env (.readBuffer ref) w = (w.server.heap.getD ref default, w) := rfl
  rw [StreamBuffer.read, Proc.run_bind, Proc.run_perform, hread]
  dsimp only
  generalize (if offset < _ then _ else 0) = bytesToRead
  rw [Proc.run_ite]
  split
  · rw [Proc.run_bind, Proc.run_perform]
    dsimp only [step, exec, Op.draws]
    split
    · exact h
    · simp only [Proc.run_bind, Proc.run_perform, step, exec, Op.draws]
      exact htouch _
  · simp only [Proc.run_pure, Proc.run_bind, Proc.run_perform, step, exec, Op.draws]
    exact htouch _

theorem whole_preparePacket (k size offset : Nat) {w : World} (h : Whole n w.server) :
    Whole n
      (Proc.run (step env) (StreamBufferSender.preparePacket env k size offset) w).2.server := by
  simp only [StreamBufferSender.preparePacket, Proc.run_bind, Proc.run_perform, step, exec,
    Op.draws, Bool.false_eq_true, if_false]
  cases hsender : w.server.senders[k]? with
  | none => exact h
  | some x =>
    have hbuffer : let out := Proc.run (step env) (StreamBufferSender.getBuffer env x) w
        Whole n out.2.server ∧
          ∀ ref, out.1 = some ref → Shows out.2.server.heap ref x.streamId (n x.streamId) := by
      cases hx : x.buffer with
      | some ref =>
        simp only [StreamBufferSender.getBuffer, hx, Proc.run_pure, Option.some.injEq, forall_eq']
        exact ⟨h, h.senders x (List.mem_of_getElem? hsender) ref hx⟩
      | none =>
        simp only [StreamBufferSender.getBuffer, hx]
        exact whole_getStreamBuffer env x.streamId h
    obtain ⟨hwhole, hshows⟩ := hbuffer
    simp only [Proc.run_bind, Proc.run_perform, step, exec, Op.draws, Bool.false_eq_true, if_false]
    have hset : Whole n { (Proc.run (step env) (StreamBufferSender.getBuffer env x) w).2.server with
        senders :=
          (Proc.run (step env) (StreamBufferSender.getBuffer env x) w).2.server.senders.set k
            { x with
              buffer := (Proc.run (step env) (StreamBufferSender.getBuffer env x) w).1 } } := by
      refine hwhole.setSenders fun y hy ref href => ?_
      rcases List.mem_or_eq_of_mem_set hy with hold | rfl
      · exact hwhole.senders y hold ref href
      · exact hshows ref href
    cases hout : (Proc.run (step env) (StreamBufferSender.getBuffer env x) w).1 with
    | none =>
      rw [hout] at hset
      exact hset
    | some ref =>
      rw [hout] at hset
      simp only [Proc.run_bind, Proc.run_pure]
      exact whole_read env ref size offset hset

/-- Erasing keys one after the other. -/
theorem getElem?_foldl_erase_eq {α : Type} (f : α → UInt32) (xs : List α)
    (buffers : Std.TreeMap UInt32 Nat) (id : UInt32) :
    (xs.foldl (fun m x => m.erase (f x)) buffers)[id]? =
      if id ∈ xs.map f then none else buffers[id]? := by
  induction xs generalizing buffers with
  | nil => simp
  | cons x xs ih =>
    rw [List.foldl_cons, ih, Std.TreeMap.getElem?_erase, List.map_cons]
    by_cases hmem : id ∈ xs.map f
    · rw [if_pos hmem, if_pos (List.mem_cons_of_mem _ hmem)]
    · rw [if_neg hmem]
      by_cases hx : id = f x
      · subst hx
        rw [if_pos Std.ReflCmp.compare_self, if_pos (List.mem_cons_self ..)]
      · have hne : ¬ compare (f x) id = .eq :=
          fun hc => hx (Std.LawfulEqCmp.eq_of_compare hc).symm
        rw [if_neg hne, if_neg (List.not_mem_cons_of_ne_of_not_mem hx hmem)]

/-- What is still there was there before. -/
theorem getElem?_foldl_erase {α : Type} (f : α → UInt32) (xs : List α)
    (buffers : Std.TreeMap UInt32 Nat) {id : UInt32} {ref : Nat}
    (h : (xs.foldl (fun m x => m.erase (f x)) buffers)[id]? = some ref) :
    buffers[id]? = some ref := by
  rw [getElem?_foldl_erase_eq] at h
  split at h
  · cases h
  · exact h

theorem whole_onTimer (completed : Sender → Bool) {w : World} (h : Whole n w.server) :
    Whole n (Proc.run (step env) (Server.onTimer completed) w).2.server := by
  simp only [Server.onTimer, Proc.run_bind, Proc.run_perform, step, exec, Op.draws]
  have hdrop : Whole n { w.server with senders := w.server.senders.filter fun x => !completed x } :=
    h.setSenders fun x hx => h.senders x (List.mem_of_mem_filter hx)
  exact hdrop.forget fun id ref => getElem?_foldl_erase _ _ _

theorem whole_addStreamBuffer (id : UInt32) (ref : Nat) {w : World} (h : Whole n w.server)
    (hshows : Shows w.server.heap ref id (n id)) :
    Whole n (Proc.run (step env) (Server.addStreamBuffer id ref) w).2.server := by
  have hfind : step env (.findBuffer id) w = (w.server.buffers[id]?, w) := rfl
  rw [Server.addStreamBuffer, Proc.run_bind, Proc.run_perform, hfind, Proc.run_ite]
  split
  · exact h
  · exact h.list hshows

theorem whole_createStreamReceiver (s : SessionId) (pkt : Packet) {w : World}
    (h : Whole n w.server) :
    Whole n (Proc.run (step env) (createStreamReceiver s pkt) w).2.server := by
  by_cases htype : pkt.streamType = .resource
  swap
  · simpa [createStreamReceiver, htype] using h
  simp only [createStreamReceiver, htype, ne_eq, not_true_eq_false, if_false, Proc.run_bind,
    run_streamBufferCreate]
  by_cases hfile : (w.server.files (tmpFile pkt.streamId)).isSome = true
  · rw [if_pos hfile]
    exact h.congr ⟨fun _ => rfl, rfl, rfl, rfl, rfl⟩
  by_cases hopen : (w.tape 0).fails = true
  · rw [if_neg hfile, if_pos hopen]
    exact h
  rw [if_neg hfile, if_neg hopen]
  have hnone : w.server.files (tmpFile pkt.streamId) = none := by simpa using hfile
  -- nothing has been written to the stream, and nobody receives it
  have hzero : n pkt.streamId = 0 := by
    rw [← h.files, hnone]
    rfl
  have hnew : ∀ t, ∀ r ∈ (w.server.sessions t).receivers, r.streamId ≠ pkt.streamId := by
    intro t r hr he
    have hcreated := h.created t r hr
    rw [he, hnone] at hcreated
    cases hcreated
  have hcreate : Whole n (w.createFile (tmpFile pkt.streamId) pkt).server := by
    refine (h.setFile ?_).append _
    rw [hnone]
    rfl
  have hshows : Shows (w.createFile (tmpFile pkt.streamId) pkt).server.heap w.server.heap.length
      pkt.streamId (n pkt.streamId) :=
    .append_self rfl rfl (by rw [hzero]; rfl)
  simp only [Proc.run_bind, Proc.run_perform, step, exec, Op.draws]
  split
  · exact hcreate
  · have hadd := hcreate.addReceiver s (r := { streamId := pkt.streamId, buffer := _ }) hshows
      (by simp [World.createFile, World.update]) hnew
    simp only [if_true, Proc.run_bind, Proc.run_pure]
    exact whole_addStreamBuffer env pkt.streamId _ hadd hshows

end

/-! ## The law -/

/-- A packet that is written reaches the file and every buffer in use: it is flushed, the stream
stays below 4 GiB, and its senders and the server have no other buffer for it than the one
written.  A write that fails leaves nothing in the file. -/
def Through (n : UInt32 → Nat) (σ : ServerState) (a : Act) : Prop :=
  match a.event with
  | .receive s id body =>
    match (σ.sessions s).receivers.find? (·.streamId == id) with
    | some receiver =>
      (σ.heap.getD receiver.buffer default).append = true →
        if (a.tape 0).fails then (a.tape 0).put body = []
        else (a.tape 0).unflushed = false ∧ n id + body.length < 2 ^ 32 ∧
          (∀ x ∈ σ.senders, x.streamId = id →
            x.buffer = none ∨ x.buffer = some receiver.buffer) ∧
          (σ.buffers[id]? = none ∨ σ.buffers[id]? = some receiver.buffer)
    | none => True
  | _ => True

instance (n : UInt32 → Nat) (σ : ServerState) : (a : Act) → Decidable (Through n σ a)
  | ⟨.receive _ _ _, _⟩ => by
    unfold Through
    dsimp only
    generalize List.find? _ _ = found
    exact match found with
    | some _ => by infer_instance
    | none => instDecidableTrue
  | ⟨.connect _, _⟩ | ⟨.handshake .., _⟩ | ⟨.request .., _⟩ | ⟨.response .., _⟩
  | ⟨.createReceiver .., _⟩ | ⟨.received .., _⟩ | ⟨.userRequests _, _⟩ | ⟨.send .., _⟩
  | ⟨.timer _, _⟩ | ⟨.disconnect _, _⟩ | ⟨.removeSessions, _⟩ => instDecidableTrue

theorem written_of_ne_receive {σ : ServerState} {a : Act}
    (h : ∀ s id body, a.event ≠ .receive s id body) (x : UInt32) : written σ a x = 0 := by
  rw [written]
  split
  · next s id body he => exact absurd he (h s id body)
  · rfl

/-- The requests and tasks leave streams alone. -/
theorem RequestType.Footprint.keepsStreams {s : SessionId} {t : RequestType} {o : Op}
    (h : t.Footprint s o) : o.KeepsStreams := by
  cases o with
  | addReceiver | fopenAppend | fwrite | newBuffer | addReadable | touchBuffer | putBuffer
  | addSender | setSender | dropSenders | evictBuffers => cases t <;> simp at h
  | _ => exact trivial

theorem Op.OfDelivery.keepsStreams {s : SessionId} {o : Op} (h : o.OfDelivery s) :
    o.KeepsStreams := by
  cases o <;> first | exact trivial | exact h.elim

theorem Op.OfUserRequests.keepsStreams {o : Op} (h : o.OfUserRequests) : o.KeepsStreams := by
  cases o <;> first | exact trivial | exact h.elim fun _ hs => hs.elim

theorem sameStreams_note (σ : ServerState) (e : Event) : SameStreams σ (e.note σ) := by
  cases e with
  | connect s | handshake s =>
    dsimp only [Event.note]
    apply sameStreams_modify
    intro x
    rfl
  | _ => exact ⟨fun _ => rfl, rfl, rfl, rfl, rfl⟩

/-- A packet that arrives. -/
theorem whole_receive {env : Env} {n : UInt32 → Nat} {σ : ServerState} {s : SessionId}
    {id : UInt32} {body : List UInt8} {tape : Nat → Choice} (h : Whole n σ)
    (hp : (Act.mk (.receive s id body) tape).Possible σ)
    (hthrough : Through n σ ⟨.receive s id body, tape⟩) :
    Whole (fun x => n x + written σ ⟨.receive s id body, tape⟩ x)
      (next env σ ⟨.receive s id body, tape⟩) := by
  rw [next_of_possible env hp]
  simp only [Event.handler, Act.world, Event.note, receivePacket, Proc.run_bind, Proc.run_perform,
    step_findReceiver, written]
  simp only [Through] at hthrough
  cases hr : (σ.sessions s).receivers.find? (·.streamId == id) with
  | none => exact h
  | some receiver =>
    rw [hr] at hthrough
    have hmem : receiver ∈ (σ.sessions s).receivers := List.mem_of_find?_eq_some hr
    obtain rfl : receiver.streamId = id := by
      have hid := List.find?_some hr
      exact beq_iff_eq.mp hid
    simp only [Proc.run_bind, Proc.run_pure]
    have hbody : body ≠ [] := hp.2.2.2
    rw [run_streamBufferWrite]
    simp only [hbody, or_false]
    cases happend : (σ.heap.getD receiver.buffer default).append with
    | false => simpa using h
    | true =>
      have hthrough' := hthrough happend
      cases hf : (tape 0).fails with
      | true =>
        rw [hf, if_pos rfl] at hthrough'
        rw [hthrough', List.append_nil]
        simpa using h.setFile rfl
      | false =>
        rw [hf, if_neg Bool.noConfusion] at hthrough'
        obtain ⟨hflushed, hsmall, hsenders, hlisted⟩ := hthrough'
        have hput : (tape 0).put body = body := by
          rw [Choice.put, hf, hflushed]
          rfl
        rw [hput]
        have hwrite := h.write (t := (tape 1).time) hmem hsmall hsenders hlisted
        simp only [happend] at hwrite
        simpa using hwrite

/-- One step keeps the invariant. -/
theorem whole_next {env : Env} {n : UInt32 → Nat} {σ : ServerState} {a : Act} (h : Whole n σ)
    (hp : a.Possible σ) (hthrough : Through n σ a) :
    Whole (fun x => n x + written σ a x) (next env σ a) := by
  -- a step that performs only operations that leave streams alone
  have hframe : (∀ s id body, a.event ≠ .receive s id body) →
      (∀ o, a.event.Footprint env o → o.KeepsStreams) →
      Whole (fun x => n x + written σ a x) (next env σ a) := by
    intro hne hkeeps
    simp only [written_of_ne_receive hne, Nat.add_zero]
    refine h.congr (footprint_next (P := SameStreams σ) hp (sameStreams_note σ a.event) ?_)
    intro o c σ' ho hsame
    exact hsame.trans (sameStreams_exec env (hkeeps o ho) c σ')
  obtain ⟨event, tape⟩ := a
  cases event with
  | connect s =>
    refine hframe (fun _ _ _ => Event.noConfusion) ?_
    intro o ho
    cases o <;> first | exact trivial | exact ho.elim
  | handshake s error =>
    refine hframe (fun _ _ _ => Event.noConfusion) ?_
    intro o ho
    cases o <;> first | exact trivial | exact ho.elim
  | request s head =>
    refine hframe (fun _ _ _ => Event.noConfusion) ?_
    rintro o ⟨t, -, ho⟩
    exact ho.keepsStreams
  | response s k head =>
    obtain ⟨p, -, hnext⟩ := next_response_eq env hp
    have htake : Whole n (σ.takePosted s k) := by
      refine h.congr (sameStreams_modify σ s ?_)
      exact fun _ => rfl
    have hremove : Whole n ((World.mk (σ.takePosted s k) tape []).removeRequest
        (ackQuery p ((σ.takePosted s k).sessions s).accountId)).server := by
      refine htake.congr ?_
      rw [World.removeRequest]
      split <;> exact ⟨fun _ => rfl, rfl, rfl, rfl, rfl⟩
    rw [hnext, run_processResponse]
    show Whole n _
    split
    · split
      · exact whole_forM_sendResource env s _ hremove
      · exact hremove
    · exact htake
  | createReceiver s pkt =>
    rw [next_of_possible env hp]
    show Whole n _
    simp only [Event.handler, Proc.run_bind, Proc.run_pure]
    exact whole_createStreamReceiver env s pkt h
  | receive s id body => exact whole_receive h hp hthrough
  | received s id =>
    refine hframe (fun _ _ _ => Event.noConfusion) ?_
    intro o ho
    cases o <;> first | exact trivial | exact ho.elim
  | userRequests k =>
    refine hframe (fun _ _ _ => Event.noConfusion) ?_
    intro o ho
    exact ho.keepsStreams
  | send k size offset =>
    rw [next_of_possible env hp]
    show Whole n _
    exact whole_preparePacket env k size offset h
  | timer completed =>
    rw [next_of_possible env hp]
    show Whole n _
    exact whole_onTimer env completed h
  | disconnect s =>
    refine hframe (fun _ _ _ => Event.noConfusion) ?_
    intro o ho
    cases o <;> first | exact trivial | exact ho.elim
  | removeSessions =>
    refine hframe (fun _ _ _ => Event.noConfusion) ?_
    intro o ho
    cases o <;> first | exact trivial | exact ho.elim

/-- In a run of steps whose packets reach every buffer in use, every buffer in use shows the
whole of its stream. -/
theorem whole_after {env : Env} {tr : List Act}
    (h : EveryStep env (fun tr a => Through (uploaded env tr) (after env tr) a) tr) :
    Whole (uploaded env tr) (after env tr) := by
  refine invariant_everyStep (I := fun tr => Whole (uploaded env tr) (after env tr)) .init ?_ ?_ h
  · intro tr a hp ih
    have hsame : uploaded env (a :: tr) = uploaded env tr := by
      funext x
      rw [uploaded, if_neg hp, Nat.add_zero]
    rw [after_cons, next_of_not_possible hp, hsame]
    exact ih
  · intro tr a hp hthrough ih
    have hgrown : uploaded env (a :: tr) =
        fun x => uploaded env tr x + written (after env tr) a x := by
      funext x
      rw [uploaded, if_pos hp]
    rw [hgrown]
    exact whole_next ih hp hthrough

/-- **The relay truncates nothing**, as long as every packet that is written reaches the file and
every buffer in use. -/
theorem relayLaw_of_through (env : Env) (tr : List Act)
    (h : EveryStep env (fun tr a => Through (uploaded env tr) (after env tr) a) tr) :
    RelayLaw env tr := by
  rintro later earlier rfl x hx ref href
  have hwhole := whole_after h.earlier
  obtain ⟨-, -, hbytes⟩ := (hwhole.senders x hx ref href).getD
  have hsmall := hwhole.small x.streamId
  rw [UInt64.toNat_toUInt32, hbytes]
  omega

/-- Two accounts join, the session 0 begins to upload the stream 7 and sends its first three
bytes, and a push is delivered to the session 1. -/
def uploadRun : List Act :=
  ⟨.receive 0 7 [1, 2, 3], calm 0⟩ :: sampleUpload 0 7 :: ⟨.userRequests 0, calm 0⟩ ::
    samplePush 0 7 2 :: (sampleJoin 1 "b" 2 ++ sampleJoin 0 "a" 1)

/-- The session 1 acknowledges the push and asks for the stream 7. -/
def sampleFetch : Act :=
  ⟨.response 1 0 [("status", .int32 1), ("resources", .array [.int32 7])], calm 0⟩

/-- The stream is asked for, and the upload goes on. -/
def relayedRun : List Act := ⟨.receive 0 7 [4, 5], calm 0⟩ :: sampleFetch :: uploadRun

/-- The same, but the upload has paused for more than a minute before. -/
def resumedRun : List Act :=
  ⟨.receive 0 7 [4, 5], calm 0⟩ :: sampleFetch ::
    ⟨.timer fun _ => false, fun _ => { time := 61 }⟩ :: uploadRun

theorem relayLaw_relayed : RelayLaw sampleEnv relayedRun :=
  relayLaw_of_through sampleEnv relayedRun (by decide +kernel)

/-- After the pause the sender has a buffer of its own, and misses what is uploaded then. -/
theorem not_relayLaw_resumed : ¬ RelayLaw sampleEnv resumedRun := by
  intro h
  have huploaded : uploaded sampleEnv resumedRun 7 = 5 := by decide +kernel
  have hsender : (after sampleEnv resumedRun).senders.any (fun x =>
      x.streamId == 7 && x.buffer.any fun ref => ((after sampleEnv resumedRun).heap.getD ref
        default).bytesReadable.toUInt32.toNat == 3) = true := by
    decide +kernel
  obtain ⟨x, hx, hstale⟩ := List.any_eq_true.mp hsender
  simp only [Bool.and_eq_true, beq_iff_eq, Option.any_eq_true] at hstale
  obtain ⟨hid, ref, href, hbytes⟩ := hstale
  have hrelayed := h [] resumedRun rfl x hx ref href
  rw [hid, huploaded, hbytes] at hrelayed
  exact absurd hrelayed (by decide)

end ZwayServer
