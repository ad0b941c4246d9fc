import ZwayServer.Proc.Stdio
import ZwayServer.System

/-!
# File-backed stream buffers

A stream is kept in a `StreamBuffer` over a `FileBuffer` over a file.  The upper class counts
the bytes that were written and hands offsets down; the lower one seeks to them in a file
that was opened for appending or for reading.  Both have a size of their own.

* `FileBuffer`, `StreamBuffer` — the two classes, member function by member function.
* `Call`, `perform`, `afterCalls` — writes and reads on one buffer.
* `Kept` — the counter counts what writes reported; the file holds what landed in it.
* `exec_fwrite`, `exec_fread` — the operations of the server do to the file what the classes do.
* `readsBack_iff` — the buffer reads as what was written exactly if every flush succeeds.
* `getBuffer` — what a sender takes over from a buffer, found or opened again.
* `not_sameToSender` — the two differ, and in nothing but the size if every flush succeeds.
-/

namespace ZwayServer
namespace Files

open Stdio

/-! ## `FileBuffer` -/

/-- A `FileBuffer`. -/
structure FileBuffer where
  /-- `m_fh`. -/
  fh : Handle
  /-- `m_size` of `Zway::Buffer`, which the default constructor sets to 0. -/
  size : UInt64 := 0

namespace FileBuffer

/-- `FileBuffer::create`, with `init`.  For a file that exists, `init` closes the handle that the
destructor closes again, and the process is aborted: the result is `none`. -/
def create (filename : String) (c : Choice) (d : Disk) : Option (Option FileBuffer × Disk) :=
  match (fopen .read filename c.fails d).1 with
  | some _ => none
  | none =>
    match fopen .append filename c.fails d with
    | (none, d) => some (none, d)
    | (some fh, d) => some (some { fh := fh }, d)

/-- `FileBuffer::open`, with `load`. -/
def «open» (filename : String) (c : Choice) (d : Disk) : Option FileBuffer :=
  match (fopen .read filename c.fails d).1 with
  | none => none
  | some fh =>
    let size := UInt64.ofNat (fseekEnd fh d).pos
    some { fh := { fh with pos := 0 }, size := size }

/-- `FileBuffer::read`: the bytes read, or `none` if it fails, and the buffer. -/
def read (size offset : ℕ) (c : Choice) (b : FileBuffer) (d : Disk) :
    Option (List UInt8) × FileBuffer :=
  match fseek offset b.fh with
  | none => (none, b)
  | some fh =>
    let (bytes, fh) := fread size c.fails fh d
    (bytes, { b with fh := fh })

/-- `FileBuffer::write`: whether the data was written, the buffer, and the files. -/
def write (data : List UInt8) (offset : ℕ) (c : Choice) (b : FileBuffer) (d : Disk) :
    Bool × FileBuffer × Disk :=
  match fseek offset b.fh with
  | none => (false, b, d)
  | some fh =>
    match fwrite c.room data c.fails c.written fh d with
    | (none, fh, d) => (false, { b with fh := fh }, d)
    | (some waiting, fh, d) =>
      -- the result of `fflush` is not looked at
      let (fh, d) := fflush waiting c.unflushed c.written fh d
      (true, { b with fh := fh }, d)

end FileBuffer

/-! ## `StreamBuffer` -/

/-- A `StreamBuffer` over a `FileBuffer`. -/
structure StreamBuffer where
  buffer : FileBuffer
  streamId : UInt32
  streamType : StreamType
  streamParts : UInt32
  /-- `m_bytesReadable`. -/
  readable : UInt64 := 0
  lastActivity : UInt64 := 0

namespace StreamBuffer

/-- `StreamBuffer::create`, with `init`, for a file; `none` if the process is aborted. -/
def create (filename : String) (pkt : Packet) (c : Choice) (d : Disk) :
    Option (Option StreamBuffer × Disk) :=
  match FileBuffer.create filename c d with
  | none => none
  | some (none, d) => some (none, d)
  | some (some buffer, d) =>
    some (some { buffer := buffer, streamId := pkt.streamId, streamType := pkt.streamType,
                 streamParts := pkt.parts }, d)

/-- `StreamBuffer::open`, with `load`. -/
def «open» (env : Env) (filename : String) (id : UInt32) (c : Choice) (d : Disk) :
    Option StreamBuffer :=
  match FileBuffer.open filename c d with
  | none => none
  | some buf =>
    let parts := buf.size / env.maxPacketBody
    let parts := if buf.size % env.maxPacketBody ≠ 0 then parts + 1 else parts
    some { buffer := buf, streamId := id, streamType := .resource, streamParts := parts.toUInt32,
           readable := buf.size }

/-- `StreamBuffer::bytesReadable`, the low half of the counter. -/
def bytesReadable (b : StreamBuffer) : UInt32 := b.readable.toUInt32

/-- `StreamBuffer::size`. -/
def size (b : StreamBuffer) : UInt64 := b.buffer.size

/-- `bytesToRead` in `StreamBuffer::read`. -/
def bytesToRead (size offset : ℕ) (b : StreamBuffer) : ℕ :=
  let br := b.bytesReadable.toNat
  if offset < br then (if br - offset > size then size else br - offset) else 0

/-- `StreamBuffer::read`. -/
def read (size offset : ℕ) (c : Choice) (b : StreamBuffer) (d : Disk) :
    Option (List UInt8) × StreamBuffer :=
  let bytesToRead := b.bytesToRead size offset
  let (bytes, buffer) :=
    if bytesToRead ≠ 0 then b.buffer.read bytesToRead offset c d else (some [], b.buffer)
  match bytes with
  | none => (none, { b with buffer := buffer })
  | some bytes => (some bytes, { b with buffer := buffer, lastActivity := c.time })

/-- `StreamBuffer::write`; the offset of the caller is not looked at. -/
def write (data : List UInt8) (_offset : ℕ) (c : Choice) (b : StreamBuffer) (d : Disk) :
    Bool × StreamBuffer × Disk :=
  let br := b.bytesReadable.toNat
  match b.buffer.write data br c d with
  | (false, buffer, d) => (false, { b with buffer := buffer }, d)
  | (true, buffer, d) =>
    (true, { b with
      buffer := buffer
      readable := b.readable + UInt64.ofNat data.length
      lastActivity := c.time }, d)

end StreamBuffer

/-! ## Calls on one buffer -/

/-- A call of a member function. -/
inductive Call where
  | write (data : List UInt8) (offset : ℕ)
  | read (size offset : ℕ)

/-- A buffer and the files. -/
structure Opened where
  buffer : StreamBuffer
  disk : Disk

/-- One call, and whether it returns true. -/
def perform (x : Call) (c : Choice) (o : Opened) : Bool × Opened :=
  match x with
  | .write data offset =>
    let (r, b, d) := o.buffer.write data offset c o.disk
    (r, ⟨b, d⟩)
  | .read size offset =>
    let (bytes, b) := o.buffer.read size offset c o.disk
    (bytes.isSome, ⟨b, o.disk⟩)

/-- The state after calls, the first of them first. -/
def afterCalls (o : Opened) : List (Call × Choice) → Opened
  | [] => o
  | x :: xs => afterCalls (perform x.1 x.2 o).2 xs

/-- What a call was given to write. -/
def Call.data : Call → List UInt8
  | .write data _ => data
  | .read .. => []

/-- The concatenation of the chunks. -/
def chunks (xs : List (Call × Choice)) : List UInt8 := xs.flatMap fun x => x.1.data

/-- All writes return true. -/
def AllWritten (o : Opened) : List (Call × Choice) → Prop
  | [] => True
  | x :: xs => ((∃ size offset, x.1 = .read size offset) ∨ (perform x.1 x.2 o).1 = true) ∧
      AllWritten (perform x.1 x.2 o).2 xs

/-- The concatenation of the chunks whose writes return true. -/
def written (o : Opened) : List (Call × Choice) → List UInt8
  | [] => []
  | x :: xs =>
    (if (perform x.1 x.2 o).1 then x.1.data else []) ++ written (perform x.1 x.2 o).2 xs

/-- The length of the file. -/
def Opened.length (o : Opened) : ℕ := (contents o.buffer.buffer.fh o.disk).length

/-- The `fwrite` of a call reports its chunk. -/
def Reported (x : Call) (c : Choice) (o : Opened) : Prop :=
  match x with
  | .write data _ => Reports c.room data c.fails c.written o.length
  | .read .. => False

instance : (x : Call) → (c : Choice) → (o : Opened) → Decidable (Reported x c o)
  | .write _ _, _, _ => inferInstanceAs (Decidable (Reports ..))
  | .read _ _, _, _ => instDecidableFalse

/-- What a call puts into the file. -/
def landed (x : Call) (c : Choice) (o : Opened) : List UInt8 :=
  match x with
  | .write data _ => lands c.room data c.fails c.unflushed c.written o.length
  | .read .. => []

/-- What a run puts into the file. -/
def landedBy (o : Opened) : List (Call × Choice) → List UInt8
  | [] => []
  | x :: xs => landed x.1 x.2 o ++ landedBy (perform x.1 x.2 o).2 xs

/-! ## The counter and the file -/

/-- The file holds `put`, and the counter is the length of `bytes`; the size of the lower class is
still what its constructor set. -/
structure Kept (name : String) (bytes put : List UInt8) (o : Opened) : Prop where
  handle : o.buffer.buffer.fh.name = name
  mode : o.buffer.buffer.fh.mode = .append
  file : o.disk name = some put
  short : put.length ≤ maxLength
  counter : o.buffer.readable = UInt64.ofNat bytes.length
  size : o.buffer.size = 0

theorem kept_create {name : String} {pkt : Packet} {c : Choice} {d d' : Disk} {b : StreamBuffer}
    (hcreate : StreamBuffer.create name pkt c d = some (some b, d')) : Kept name [] [] ⟨b, d'⟩ := by
  unfold StreamBuffer.create FileBuffer.create at hcreate
  cases hnew : d name with
  | some bytes => simp [fopen, hnew] at hcreate
  | none =>
    cases hf : c.fails with
    | true => simp [fopen, hnew, hf] at hcreate
    | false =>
      simp only [fopen, hnew, hf, Option.isSome_none, Bool.false_eq_true, if_false,
        Option.some.injEq, Prod.mk.injEq] at hcreate
      obtain ⟨rfl, rfl⟩ := hcreate
      exact ⟨rfl, rfl, by simp, Nat.zero_le _, rfl, rfl⟩

/-- A read moves the position of the handle and nothing else. -/
theorem FileBuffer.read_snd (size offset : ℕ) (c : Choice) (b : FileBuffer) (d : Disk) :
    ∃ pos, (b.read size offset c d).2 = { b with fh := { b.fh with pos := pos } } := by
  unfold FileBuffer.read fseek
  by_cases hlt : offset < 2 ^ 63
  · rw [if_pos hlt]
    exact ⟨_, rfl⟩
  · rw [if_neg hlt]
    exact ⟨b.fh.pos, rfl⟩

theorem StreamBuffer.bytesToRead_eq (size offset : ℕ) (b : StreamBuffer) :
    b.bytesToRead size offset = min size (b.bytesReadable.toNat - offset) := by
  unfold bytesToRead
  dsimp only
  split
  · split <;> omega
  · omega

/-- A read either asks the lower class for nothing or passes its answer on. -/
theorem StreamBuffer.read_eq (size offset : ℕ) (c : Choice) (b : StreamBuffer) (d : Disk) :
    b.read size offset c d =
      if b.bytesToRead size offset = 0 then (some [], { b with lastActivity := c.time })
      else
        let out := b.buffer.read (b.bytesToRead size offset) offset c d
        (out.1, { b with
          buffer := out.2
          lastActivity := if out.1.isSome then c.time else b.lastActivity }) := by
  unfold StreamBuffer.read
  by_cases hn : b.bytesToRead size offset = 0
  · simp only [hn, ne_eq, not_true_eq_false, if_false, if_true]
  · simp only [hn, ne_eq, not_false_eq_true, if_true, if_false]
    cases (b.buffer.read (b.bytesToRead size offset) offset c d).1 <;> rfl

/-- What a read returns is decided by the file and by the counter. -/
theorem StreamBuffer.read_of_counter {b : StreamBuffer} {d : Disk} {put : List UInt8}
    (hfile : ∀ pos, contents { b.buffer.fh with pos := pos } d = put)
    (hle : b.bytesReadable.toNat ≤ put.length) (size offset : ℕ) {c : Choice}
    (hok : c.fails = false) :
    (b.read size offset c d).1 =
      some ((put.drop offset).take (min size (b.bytesReadable.toNat - offset))) := by
  have hbr : b.bytesReadable.toNat < 2 ^ 32 := UInt32.toNat_lt _
  rw [StreamBuffer.read_eq, StreamBuffer.bytesToRead_eq]
  by_cases hzero : min size (b.bytesReadable.toNat - offset) = 0
  · rw [if_pos hzero, hzero, List.take_zero]
  · -- what is asked for is in the file
    have hseek : fseek offset b.buffer.fh = some { b.buffer.fh with pos := offset } :=
      fseek_of_lt (by omega)
    have hread := @fread_of_le { b.buffer.fh with pos := offset } d _
      (Nat.pos_of_ne_zero hzero) (by rw [hfile]; dsimp only; omega)
    rw [hfile] at hread
    rw [if_neg hzero]
    simp only [FileBuffer.read, hseek, hok, hread]

/-- If the counter is the length of the file, a read returns what is there. -/
theorem StreamBuffer.read_of_length {b : StreamBuffer} {d : Disk} {bytes : List UInt8}
    (hfile : ∀ pos, contents { b.buffer.fh with pos := pos } d = bytes)
    (hlength : b.bytesReadable.toNat = bytes.length) (size offset : ℕ) {c : Choice}
    (hok : c.fails = false) :
    (b.read size offset c d).1 = some ((bytes.drop offset).take size) := by
  rw [read_of_counter hfile hlength.le size offset hok, hlength, ← List.length_drop,
    ← List.take_eq_take_min]

/-- What a read returns is in the file. -/
theorem StreamBuffer.read_some {b : StreamBuffer} {d : Disk} {put out : List UInt8}
    (hfile : ∀ pos, contents { b.buffer.fh with pos := pos } d = put) {size offset : ℕ} {c : Choice}
    (hread : (b.read size offset c d).1 = some out) :
    out = (put.drop offset).take (min size (b.bytesReadable.toNat - offset)) := by
  have hbr : b.bytesReadable.toNat < 2 ^ 32 := UInt32.toNat_lt _
  rw [StreamBuffer.read_eq, StreamBuffer.bytesToRead_eq] at hread
  by_cases hzero : min size (b.bytesReadable.toNat - offset) = 0
  · rw [if_pos hzero] at hread
    rw [hzero, List.take_zero]
    exact (Option.some.inj hread).symm
  · have hseek : fseek offset b.buffer.fh = some { b.buffer.fh with pos := offset } :=
      fseek_of_lt (by omega)
    rw [if_neg hzero] at hread
    simp only [FileBuffer.read, hseek] at hread
    rw [fread_some hread, hfile]

/-- A write: what it reports, and what it puts at the end of the file. -/
theorem FileBuffer.write_eq {b : FileBuffer} {d : Disk} {put : List UInt8}
    (hmode : b.fh.mode = .append) (hfile : d b.fh.name = some put) (data : List UInt8) {offset : ℕ}
    (hlt : offset < 2 ^ 63) (c : Choice) : ∃ pos, b.write data offset c d =
      (decide (Reports c.room data c.fails c.written put.length),
        { b with fh := { b.fh with pos := pos } },
        Function.update d b.fh.name
          (some (put ++ lands c.room data c.fails c.unflushed c.written put.length))) := by
  obtain ⟨⟨name, mode, pos⟩, size⟩ := b
  obtain rfl : mode = .append := hmode
  have hcontents : ∀ pos, contents ⟨name, .append, pos⟩ d = put := fun pos => by
    rw [contents, hfile, Option.getD_some]
  simp only [write, fseek_of_lt hlt, fwrite, hcontents]
  by_cases hnil : data = []
  · subst hnil
    refine ⟨offset, ?_⟩
    simp [Reports, lands, blocks, waiting, ← hfile]
  rw [if_neg hnil]
  by_cases hput : accepted put.length (blocks c.room data) c.fails c.written = blocks c.room data
  · have hreports : Reports c.room data c.fails c.written put.length := ⟨hnil, hput⟩
    simp [hput, hreports, lands, fflush, append, contents, hfile]
  · have hreports : ¬ Reports c.room data c.fails c.written put.length := fun h => hput h.2
    simp [hput, hreports, lands, append, hcontents]

namespace Kept

variable {name : String} {bytes put : List UInt8} {o : Opened}

/-- What the file of the handle holds, at any position. -/
theorem contents (h : Kept name bytes put o) (pos : ℕ) :
    Stdio.contents { o.buffer.buffer.fh with pos := pos } o.disk = put := by
  rw [Stdio.contents, h.handle, h.file, Option.getD_some]

theorem length (h : Kept name bytes put o) : o.length = put.length :=
  congrArg List.length (h.contents _)

/-- A write, through both classes. -/
theorem write_eq (h : Kept name bytes put o) (data : List UInt8) (offset : ℕ) (c : Choice) :
    ∃ pos, o.buffer.write data offset c o.disk =
      let r := decide (Reported (.write data offset) c o)
      (r, { o.buffer with
          buffer := { o.buffer.buffer with fh := { o.buffer.buffer.fh with pos := pos } }
          readable := if r then o.buffer.readable + UInt64.ofNat data.length else o.buffer.readable
          lastActivity := if r then c.time else o.buffer.lastActivity },
        Function.update o.disk name (some (put ++ landed (.write data offset) c o))) := by
  have hbr : o.buffer.bytesReadable.toNat < 2 ^ 32 := UInt32.toNat_lt _
  obtain ⟨pos, hwrite⟩ := FileBuffer.write_eq h.mode (h.handle ▸ h.file) data
    (show o.buffer.bytesReadable.toNat < 2 ^ 63 by omega) c
  refine ⟨pos, ?_⟩
  simp only [StreamBuffer.write, hwrite, Reported, landed, h.length, h.handle]
  by_cases hreports : Reports c.room data c.fails c.written put.length <;> simp [hreports]

/-- A write returns true if `fwrite` reports its chunk. -/
theorem perform_fst (h : Kept name bytes put o) (data : List UInt8) (offset : ℕ) (c : Choice) :
    (perform (.write data offset) c o).1 = true ↔ Reported (.write data offset) c o := by
  obtain ⟨pos, hwrite⟩ := h.write_eq data offset c
  simp only [perform, hwrite, decide_eq_true_iff]

/-- One call: what it reports is counted, and what it has put into the file is there. -/
theorem perform (h : Kept name bytes put o) (x : Call) (c : Choice) :
    Kept name (bytes ++ if (perform x c o).1 then x.data else []) (put ++ landed x c o)
      (perform x c o).2 := by
  cases x with
  | write data offset =>
    obtain ⟨pos, hwrite⟩ := h.write_eq data offset c
    have hshort : put.length + (landed (.write data offset) c o).length ≤ maxLength := by
      rw [landed, h.length]
      exact lands_length h.short
    rw [← List.length_append] at hshort
    simp only [Files.perform, hwrite]
    by_cases hreports : Reported (.write data offset) c o
    · simp only [hreports, decide_true, if_true]
      refine ⟨h.handle, h.mode, Function.update_self .., hshort, ?_, h.size⟩
      rw [h.counter, Call.data, List.length_append, UInt64.ofNat_add]
    · simp only [hreports, decide_false, Bool.false_eq_true, if_false, List.append_nil]
      exact ⟨h.handle, h.mode, Function.update_self .., hshort, h.counter, h.size⟩
  | read size offset =>
    simp only [Call.data, ite_self, landed, List.append_nil]
    dsimp only [Files.perform]
    rw [StreamBuffer.read_eq]
    split
    · exact ⟨h.handle, h.mode, h.file, h.short, h.counter, h.size⟩
    · obtain ⟨pos, hread⟩ :=
        FileBuffer.read_snd (o.buffer.bytesToRead size offset) offset c o.buffer.buffer o.disk
      simp only [hread]
      exact ⟨h.handle, h.mode, h.file, h.short, h.counter, h.size⟩

/-- A run. -/
theorem afterCalls (xs : List (Call × Choice)) (h : Kept name bytes put o) :
    Kept name (bytes ++ written o xs) (put ++ landedBy o xs) (afterCalls o xs) := by
  induction xs generalizing bytes put o with
  | nil =>
    rw [written, landedBy, List.append_nil, List.append_nil]
    exact h
  | cons x xs ih =>
    rw [written, landedBy, ← List.append_assoc, ← List.append_assoc]
    exact ih (h.perform x.1 x.2)

end Kept

/-! ## The operations of the server -/

section

variable {name : String} {bytes put : List UInt8} {o : Opened} {σ : ServerState}

/-- The server performs a write and its flush as one operation: with some choice, it answers and
puts into the file what they do. -/
theorem exec_fwrite (hfile : σ.files name = some put) (env : Env) (o : Opened) (data : List UInt8)
    (offset : ℕ) (c : Choice) :
    ∃ c', exec env (.fwrite name data) c' σ = (decide (Reported (.write data offset) c o),
      { σ with files := Function.update σ.files name
                          (some (put ++ landed (.write data offset) c o)) }) := by
  have hpre : landed (.write data offset) c o <+: data := lands_isPrefix
  have hreported : Reported (.write data offset) c o → data ≠ [] := fun hr => hr.1
  have hall : landed (.write data offset) c o = data →
      data = [] ∨ Reported (.write data offset) c o := reports_of_lands_eq
  refine ⟨{ fails := !decide (Reported (.write data offset) c o),
            unflushed := decide (landed (.write data offset) c o ≠ data),
            written := (landed (.write data offset) c o).length }, ?_⟩
  generalize landed (.write data offset) c o = there at hpre hall ⊢
  have hput : (if (!decide (Reported (.write data offset) c o)) = true ∨
      decide (there ≠ data) = true then data.take (min there.length (data.length - 1)) else data) =
      there := by
    by_cases he : there = data
    · subst he
      rcases hall rfl with rfl | hr <;> simp_all
    · have hlt : there.length < data.length :=
        lt_of_le_of_ne hpre.length_le fun hl => he (hpre.eq_of_length hl)
      rw [if_pos (Or.inr (decide_eq_true he)), Nat.min_eq_left (by omega)]
      exact (List.prefix_iff_eq_take.mp hpre).symm
  simp only [exec, hput, hfile, Option.getD_some, Bool.not_not]
  refine Prod.ext ?_ rfl
  by_cases hr : Reported (.write data offset) c o
  · simp [hr, hreported hr]
  · simp [hr]

/-- A read is answered as the server does. -/
theorem exec_fread (h : Kept name bytes put o) (hfile : σ.files name = some put) (env : Env)
    {size offset : ℕ} (hpos : 0 < size) (hlt : offset < 2 ^ 63) (c : Choice) :
    (exec env (.fread name size offset) c σ).1 = (o.buffer.buffer.read size offset c o.disk).1 := by
  have hsize : size ≠ 0 := Nat.pos_iff_ne_zero.mp hpos
  simp only [exec, FileBuffer.read, fseek_of_lt hlt, fread, h.contents, hfile, Option.getD_some,
    hsize, false_or]

end

/-- The buffer reads as these bytes. -/
structure ReadsAs (bytes : List UInt8) (o : Opened) : Prop where
  readable : o.buffer.bytesReadable.toNat = bytes.length
  read : ∀ size offset, ∀ c : Choice, c.fails = false →
    (o.buffer.read size offset c o.disk).1 = some ((bytes.drop offset).take size)

/-- It does if and only if the file begins with them. -/
theorem Kept.readsAs_iff {name : String} {bytes put : List UInt8} {o : Opened}
    (h : Kept name bytes put o) : ReadsAs bytes o ↔ bytes.length < 2 ^ 32 ∧ bytes <+: put := by
  have hbr : o.buffer.bytesReadable.toNat = bytes.length % 2 ^ 32 := by
    rw [StreamBuffer.bytesReadable, h.counter, UInt64.toNat_toUInt32, UInt64.toNat_ofNat']
    omega
  constructor
  · rintro ⟨hcount, hreads⟩
    refine ⟨by omega, ?_⟩
    -- one read of everything
    have hall := StreamBuffer.read_some h.contents (hreads bytes.length 0 {} rfl)
    rw [hcount, List.drop_zero, List.drop_zero, List.take_length, Nat.sub_zero,
      Nat.min_self] at hall
    exact List.prefix_iff_eq_take.mpr hall
  · rintro ⟨hlt, hpre⟩
    have hcount : o.buffer.bytesReadable.toNat = bytes.length := by omega
    refine ⟨hcount, fun size offset c hok => ?_⟩
    obtain ⟨rest, rfl⟩ := hpre
    have hle : o.buffer.bytesReadable.toNat ≤ (bytes ++ rest).length := by
      rw [hcount, List.length_append]
      exact Nat.le_add_right ..
    rw [StreamBuffer.read_of_counter h.contents hle size offset hok, hcount, Option.some.injEq,
      List.drop_append, List.take_append_of_le_length (by rw [List.length_drop]; omega),
      ← List.length_drop, ← List.take_eq_take_min]

/-! ## Flushes -/

/-- Every flush of the run that has anything to put into the file succeeds. -/
def AllFlushed (xs : List (Call × Choice)) : Prop :=
  ∀ x ∈ xs, x.2.unflushed = false ∨ x.1.data.length % x.2.room = 0

instance (xs : List (Call × Choice)) : Decidable (AllFlushed xs) :=
  inferInstanceAs (Decidable (∀ x ∈ xs, _))

/-- A call of a run whose writes all return true. -/
theorem landed_eq_iff {name : String} {bytes put : List UInt8} {o : Opened}
    (h : Kept name bytes put o) {x : Call} {c : Choice}
    (htrue : (∃ size offset, x = .read size offset) ∨ (perform x c o).1 = true)
    (hle : put.length + x.data.length ≤ maxLength) :
    landed x c o = x.data ↔ c.unflushed = false ∨ x.data.length % c.room = 0 := by
  cases x with
  | write data offset =>
    rcases htrue with ⟨size, offset', hread⟩ | htrue
    · cases hread
    · have hreports : Reported (.write data offset) c o := (h.perform_fst data offset c).mp htrue
      refine lands_eq_iff hreports ?_
      rw [h.length]
      exact hle
  | read size offset => simp [landed, Call.data]

theorem landed_isPrefix (x : Call) (c : Choice) (o : Opened) : landed x c o <+: x.data := by
  cases x with
  | write => exact lands_isPrefix
  | read => exact List.prefix_rfl

theorem landedBy_length (xs : List (Call × Choice)) (o : Opened) :
    (landedBy o xs).length ≤ (chunks xs).length := by
  induction xs generalizing o with
  | nil => exact le_rfl
  | cons x xs ih =>
    have hfirst := (landed_isPrefix x.1 x.2 o).length_le
    have hrest := ih (perform x.1 x.2 o).2
    rw [landedBy, chunks, List.flatMap_cons, ← chunks, List.length_append, List.length_append]
    omega

/-- What was written is in the file if and only if every flush succeeds. -/
theorem landedBy_eq_iff {name : String} (xs : List (Call × Choice)) {bytes put : List UInt8}
    {o : Opened} (h : Kept name bytes put o) (hwritten : AllWritten o xs)
    (hle : put.length + (chunks xs).length ≤ maxLength) :
    landedBy o xs = chunks xs ↔ AllFlushed xs := by
  induction xs generalizing bytes put o with
  | nil => simp [landedBy, chunks, AllFlushed]
  | cons x xs ih =>
    obtain ⟨hcall, hrest⟩ := hwritten
    have hchunks : chunks (x :: xs) = x.1.data ++ chunks xs := List.flatMap_cons
    have hfirst := (landed_isPrefix x.1 x.2 o).length_le
    have hlater := landedBy_length xs (perform x.1 x.2 o).2
    rw [hchunks, List.length_append] at hle
    have hflushed : AllFlushed (x :: xs) ↔
        (x.2.unflushed = false ∨ x.1.data.length % x.2.room = 0) ∧ AllFlushed xs :=
      List.forall_mem_cons
    rw [hflushed, ← landed_eq_iff h hcall (by omega),
      ← ih (h.perform x.1 x.2) hrest (by rw [List.length_append]; omega), landedBy, hchunks]
    constructor
    · intro heq
      have hlength := congrArg List.length heq
      rw [List.length_append, List.length_append] at hlength
      exact List.append_inj heq (by omega)
    · rintro ⟨hnow, hthen⟩
      rw [hnow, hthen]

/-- Along such a run, what was written are the chunks. -/
theorem written_eq_chunks (xs : List (Call × Choice)) {o : Opened} (hwritten : AllWritten o xs) :
    written o xs = chunks xs := by
  induction xs generalizing o with
  | nil => rfl
  | cons x xs ih =>
    obtain ⟨hcall, hrest⟩ := hwritten
    have hchunks : chunks (x :: xs) = x.1.data ++ chunks xs := List.flatMap_cons
    rw [written, ih hrest, hchunks]
    refine congrArg (· ++ _) ?_
    rcases hcall with ⟨size, offset, hread⟩ | htrue
    · rw [hread]
      exact ite_self _
    · rw [if_pos htrue]

theorem AllWritten.of_prefix {ys zs : List (Call × Choice)} {o : Opened}
    (h : AllWritten o (ys ++ zs)) : AllWritten o ys := by
  induction ys generalizing o with
  | nil => exact trivial
  | cons y ys ih => exact ⟨h.1, ih h.2⟩

/-- The buffer has as many bytes as were written, the file holds them, and a read returns the
bytes at its place in what was written, as many as there are. -/
structure ReadsBack (name : String) (bytes : List UInt8) (o : Opened) : Prop where
  readable : o.buffer.bytesReadable.toNat = bytes.length
  file : o.disk name = some bytes
  read : ∀ size offset, ∀ c : Choice, c.fails = false →
    ∃ out, (o.buffer.read size offset c o.disk).1 = some out ∧
      out = (bytes.drop offset).take size ∧ out.length = min size (bytes.length - offset)

theorem Kept.readsBack {name : String} {bytes : List UInt8} {o : Opened}
    (h : Kept name bytes bytes o) (hlt : bytes.length < 2 ^ 32) : ReadsBack name bytes o := by
  have hreads : ReadsAs bytes o := h.readsAs_iff.mpr ⟨hlt, List.prefix_rfl⟩
  refine ⟨hreads.readable, h.file, fun size offset c hok =>
    ⟨_, hreads.read size offset c hok, rfl, ?_⟩⟩
  rw [List.length_take, List.length_drop]

/-- **A stream buffer reads back what was written** if and only if every flush succeeds.  In any
run of calls on a buffer that was created whose writes all return true, the buffer reads back what
has been written so far after every call, unless some `fflush` puts less into the file than waits
for it, which `write` does not look at. -/
theorem readsBack_iff {name : String} {pkt : Packet} {c : Choice} {d d' : Disk} {b : StreamBuffer}
    (hcreate : StreamBuffer.create name pkt c d = some (some b, d'))
    (xs : List (Call × Choice)) (hwritten : AllWritten ⟨b, d'⟩ xs)
    (hlt : (chunks xs).length < 2 ^ 32) :
    (∀ ys, ys <+: xs → ReadsBack name (chunks ys) (afterCalls ⟨b, d'⟩ ys)) ↔ AllFlushed xs := by
  have hcreated := kept_create hcreate
  have hle : ∀ ys, (chunks ys).length < 2 ^ 32 →
      ([] : List UInt8).length + (chunks ys).length ≤ maxLength := by
    intro ys hys
    rw [List.length_nil, maxLength]
    omega
  constructor
  · intro hall
    have hafter := hcreated.afterCalls xs
    have hfile := (hall xs List.prefix_rfl).file
    rw [hafter.file, List.nil_append] at hfile
    exact (landedBy_eq_iff xs hcreated hwritten (hle xs hlt)).mp (Option.some.inj hfile)
  · rintro hflushed ys ⟨zs, rfl⟩
    have hchunks : chunks (ys ++ zs) = chunks ys ++ chunks zs := List.flatMap_append
    have hys : AllFlushed ys := fun x hx => hflushed x (List.mem_append_left _ hx)
    have hlt' : (chunks ys).length < 2 ^ 32 := by
      rw [hchunks, List.length_append] at hlt
      omega
    have hafter := hcreated.afterCalls ys
    rw [List.nil_append, List.nil_append, written_eq_chunks ys hwritten.of_prefix,
      (landedBy_eq_iff ys hcreated hwritten.of_prefix (hle ys hlt')).mpr hys] at hafter
    exact hafter.readsBack hlt'

/-- Two writes with odd offsets, and a read between them that fails. -/
def sampleCalls : List (Call × Choice) :=
  [(.write [1, 2] 7, {}), (.read 1 1, { fails := true }), (.write [3] 0, {})]

/-- The head of a resource stream of one part. -/
def samplePacket : Packet := { streamId := 4, streamType := .resource, parts := 1 }

/-- A buffer that was created on a new file. -/
def sampleOpened : Opened :=
  ⟨{ buffer := { fh := { name := "tmp/4", mode := .append } }, streamId := 4,
     streamType := .resource, streamParts := 1 },
    Function.update (fun _ => none) "tmp/4" (some [])⟩

theorem create_sample : StreamBuffer.create "tmp/4" samplePacket {} (fun _ => none) =
    some (some sampleOpened.buffer, sampleOpened.disk) := rfl

theorem readsBack_sample : ReadsBack "tmp/4" [1, 2, 3] (afterCalls sampleOpened sampleCalls) := by
  have hwritten : AllWritten sampleOpened sampleCalls :=
    ⟨Or.inr (by decide +kernel), Or.inl ⟨1, 1, rfl⟩, Or.inr (by decide +kernel), trivial⟩
  exact (readsBack_iff create_sample sampleCalls hwritten (by decide)).mpr (by decide) _
    List.prefix_rfl

/-- A write when the disk is full: `fwrite` takes the bytes, and `fflush` puts none of them into
the file. -/
def fullCalls : List (Call × Choice) := [(.write [1, 2] 0, { unflushed := true })]

/-- It returns true, and the two bytes cannot be read. -/
theorem not_readsBack : StreamBuffer.create "tmp/4" samplePacket {} (fun _ => none) =
      some (some sampleOpened.buffer, sampleOpened.disk) ∧
    AllWritten sampleOpened fullCalls ∧ chunks fullCalls = [1, 2] ∧
    (afterCalls sampleOpened fullCalls).buffer.bytesReadable = 2 ∧
    ((afterCalls sampleOpened fullCalls).buffer.read 2 0 {}
      (afterCalls sampleOpened fullCalls).disk).1 = none ∧
    ¬ ReadsBack "tmp/4" (chunks fullCalls) (afterCalls sampleOpened fullCalls) := by
  have hread : ((afterCalls sampleOpened fullCalls).buffer.read 2 0 {}
      (afterCalls sampleOpened fullCalls).disk).1 = none := by decide +kernel
  refine ⟨rfl, ⟨Or.inr (by decide +kernel), trivial⟩, rfl, by decide +kernel, hread, fun h => ?_⟩
  obtain ⟨out, hout, -⟩ := h.read 2 0 {} rfl
  rw [hread] at hout
  cases hout

/-! ## What a sender gets -/

/-- What `StreamBufferSender::getBuffer` takes over from the buffer. -/
structure Attached where
  type : StreamType
  size : UInt64
  parts : UInt32
  buffer : StreamBuffer

/-- `Server::getStreamBuffer`: the buffer in `m_buffers`, or else the file opened again. -/
def getStreamBuffer (env : Env) (buffers : UInt32 → Option StreamBuffer) (id : UInt32) (c : Choice)
    (d : Disk) : Option StreamBuffer :=
  match buffers id with
  | some buffer => some buffer
  | none => StreamBuffer.open env (tmpFile id) id c d

/-- `StreamBufferSender::getBuffer`, for a sender that has no buffer yet. -/
def getBuffer (env : Env) (buffers : UInt32 → Option StreamBuffer) (id : UInt32) (c : Choice)
    (d : Disk) : Option Attached :=
  (getStreamBuffer env buffers id c d).map fun buffer =>
    { type := buffer.streamType, size := buffer.size, parts := buffer.streamParts,
      buffer := buffer }

/-- A sender cannot tell the two apart. -/
structure SameToSender (d : Disk) (x y : Attached) : Prop where
  type : x.type = y.type
  size : x.size = y.size
  parts : x.parts = y.parts
  bytes : ∀ size offset c, (x.buffer.read size offset c d).1 = (y.buffer.read size offset c d).1

/-- The bodies that were written. -/
def bodies (xs : List (Call × Choice)) : List (List UInt8) :=
  xs.filterMap fun x =>
    match x.1 with
    | .write data _ => some data
    | .read .. => none

/-- A completed upload: as many bodies as the first packet announced, all full but the last. -/
structure Completed (env : Env) (pkt : Packet) (xs : List (Call × Choice)) : Prop where
  parts : (bodies xs).length = pkt.parts.toNat
  full : ∀ body ∈ (bodies xs).dropLast, body.length = env.maxPacketBody.toNat
  last : ∃ body, (bodies xs).getLast? = some body ∧ 1 ≤ body.length ∧
    body.length ≤ env.maxPacketBody.toNat

theorem chunks_eq_flatten (xs : List (Call × Choice)) : chunks xs = (bodies xs).flatten := by
  induction xs with
  | nil => rfl
  | cons x xs ih =>
    obtain ⟨call, c⟩ := x
    rw [chunks, List.flatMap_cons, ← chunks, ih]
    cases call <;> rfl

theorem length_flatten_of_full {n : ℕ} (bs : List (List UInt8)) (h : ∀ body ∈ bs, body.length = n) :
    bs.flatten.length = bs.length * n := by
  induction bs with
  | nil => simp
  | cons body bs ih =>
    have hbody := h body (List.mem_cons_self ..)
    have hrest := ih fun b hb => h b (List.mem_cons_of_mem _ hb)
    rw [List.flatten_cons, List.length_append, hrest, hbody, List.length_cons, Nat.succ_mul,
      Nat.add_comm]

/-- The length of an upload, in full bodies and the last one. -/
theorem Completed.length {env : Env} {pkt : Packet} {xs : List (Call × Choice)}
    (h : Completed env pkt xs) : ∃ m r, pkt.parts.toNat = m + 1 ∧ 1 ≤ r ∧
      r ≤ env.maxPacketBody.toNat ∧ (chunks xs).length = m * env.maxPacketBody.toNat + r := by
  obtain ⟨body, hlast, hpos, hle⟩ := h.last
  obtain ⟨init, hinit⟩ := List.getLast?_eq_some_iff.mp hlast
  have hparts := h.parts
  have hfull := h.full
  rw [hinit, List.dropLast_concat] at hfull
  rw [hinit, List.length_append, List.length_singleton] at hparts
  refine ⟨init.length, body.length, hparts.symm, hpos, hle, ?_⟩
  rw [chunks_eq_flatten, hinit, List.flatten_concat, List.length_append,
    length_flatten_of_full init hfull]

/-- How many parts a file of a given length has, as `load` computes it. -/
theorem parts_eq {m r n : ℕ} (hpos : 1 ≤ r) (hle : r ≤ n) :
    (if (m * n + r) % n ≠ 0 then (m * n + r) / n + 1 else (m * n + r) / n) = m + 1 := by
  rcases Nat.lt_or_eq_of_le hle with hlt | rfl
  · have hmod : (m * n + r) % n = r := by
      rw [Nat.add_comm, Nat.add_mul_mod_self_right, Nat.mod_eq_of_lt hlt]
    have hdiv : (m * n + r) / n = m := by
      rw [Nat.add_comm, Nat.add_mul_div_right _ _ (by omega), Nat.div_eq_of_lt hlt, Nat.zero_add]
    rw [hmod, hdiv, if_pos (by omega)]
  · have hmul : m * r + r = (m + 1) * r := by rw [Nat.succ_mul]
    rw [hmul, Nat.mul_mod_left, Nat.mul_div_cancel _ (by omega), if_neg (by simp)]

/-- The parts that `load` computes for a file of whole uploads are the parts of the upload. -/
theorem parts_load {env : Env} {pkt : Packet} {xs : List (Call × Choice)} (h : Completed env pkt xs)
    (hshort : (chunks xs).length < 2 ^ 63) :
    let size := UInt64.ofNat (chunks xs).length
    let parts := size / env.maxPacketBody
    (if size % env.maxPacketBody ≠ 0 then parts + 1 else parts).toUInt32 = pkt.parts := by
  obtain ⟨m, r, hparts, hpos, hle, hlen⟩ := h.length
  have hsize : (UInt64.ofNat (chunks xs).length).toNat = m * env.maxPacketBody.toNat + r := by
    rw [UInt64.toNat_ofNat', ← hlen]
    omega
  have hm : m + 1 < 2 ^ 32 := by
    rw [← hparts]
    exact UInt32.toNat_lt _
  have hload := parts_eq (m := m) hpos hle
  have hzero : UInt64.ofNat (chunks xs).length % env.maxPacketBody ≠ 0 ↔
      (m * env.maxPacketBody.toNat + r) % env.maxPacketBody.toNat ≠ 0 := by
    rw [ne_eq, ← UInt64.toNat_inj, UInt64.toNat_mod, hsize, UInt64.toNat_zero]
  dsimp only
  rw [← UInt32.toNat_inj, UInt64.toNat_toUInt32, hparts]
  by_cases hmod : (m * env.maxPacketBody.toNat + r) % env.maxPacketBody.toNat ≠ 0
  · rw [if_pos hmod] at hload
    rw [if_pos (hzero.mpr hmod), UInt64.toNat_add, UInt64.toNat_div, hsize]
    simp only [UInt64.reduceToNat]
    omega
  · rw [if_neg hmod] at hload
    rw [if_neg (fun hne => hmod (hzero.mp hne)), UInt64.toNat_div, hsize]
    omega

/-- The file opened again. -/
theorem open_of_file (env : Env) {name : String} {d : Disk} {bytes : List UInt8}
    (hfile : d name = some bytes) (id : UInt32) (c : Choice) :
    StreamBuffer.open env name id c d =
      let size := UInt64.ofNat bytes.length
      let parts := size / env.maxPacketBody
      some { buffer := { fh := ⟨name, .read, 0⟩, size := size }, streamId := id,
             streamType := .resource,
             streamParts := (if size % env.maxPacketBody ≠ 0 then parts + 1 else parts).toUInt32,
             readable := size } := by
  simp [StreamBuffer.open, FileBuffer.open, fopen, hfile, fseekEnd, contents]

/-- What a read returns depends on the file and the counter, not on how the file was opened. -/
theorem read_fst_congr {b b' : StreamBuffer} {d : Disk}
    (hname : b.buffer.fh.name = b'.buffer.fh.name)
    (hcounter : b.readable = b'.readable) (size offset : ℕ) (c : Choice) :
    (b.read size offset c d).1 = (b'.read size offset c d).1 := by
  have hn : b.bytesToRead size offset = b'.bytesToRead size offset := by
    rw [StreamBuffer.bytesToRead, StreamBuffer.bytesToRead, StreamBuffer.bytesReadable,
      StreamBuffer.bytesReadable, hcounter]
  rw [StreamBuffer.read_eq, StreamBuffer.read_eq, hn]
  by_cases hzero : b'.bytesToRead size offset = 0
  · rw [if_pos hzero, if_pos hzero]
  · rw [if_neg hzero, if_neg hzero]
    unfold FileBuffer.read fseek
    by_cases hlt : offset < 2 ^ 63
    · simp only [if_pos hlt, fread, contents, hname]
      rfl
    · simp only [if_neg hlt]

/-- No call changes what the buffer took from the packet. -/
theorem perform_fixed (x : Call) (c : Choice) (o : Opened) :
    (perform x c o).2.buffer.streamType = o.buffer.streamType ∧
      (perform x c o).2.buffer.streamParts = o.buffer.streamParts := by
  cases x with
  | write data offset =>
    dsimp only [perform, StreamBuffer.write]
    generalize o.buffer.buffer.write data o.buffer.bytesReadable.toNat c o.disk = out
    obtain ⟨r, buffer, disk⟩ := out
    cases r <;> exact ⟨rfl, rfl⟩
  | read size offset =>
    dsimp only [perform]
    rw [StreamBuffer.read_eq]
    split <;> exact ⟨rfl, rfl⟩

theorem afterCalls_fixed (xs : List (Call × Choice)) (o : Opened) :
    (afterCalls o xs).buffer.streamType = o.buffer.streamType ∧
      (afterCalls o xs).buffer.streamParts = o.buffer.streamParts := by
  induction xs generalizing o with
  | nil => exact ⟨rfl, rfl⟩
  | cons x xs ih =>
    obtain ⟨htype, hparts⟩ := perform_fixed x.1 x.2 o
    obtain ⟨htype', hparts'⟩ := ih (perform x.1 x.2 o).2
    exact ⟨htype'.trans htype, hparts'.trans hparts⟩

/-- A new buffer is of the type and the parts of its packet. -/
theorem create_fixed {name : String} {pkt : Packet} {c : Choice} {d d' : Disk} {b : StreamBuffer}
    (hcreate : StreamBuffer.create name pkt c d = some (some b, d')) :
    b.streamType = pkt.streamType ∧ b.streamParts = pkt.parts := by
  unfold StreamBuffer.create at hcreate
  split at hcreate
  · cases hcreate
  · simp at hcreate
  · simp only [Option.some.injEq, Prod.mk.injEq] at hcreate
    obtain ⟨rfl, -⟩ := hcreate
    exact ⟨rfl, rfl⟩

/-- **A buffer from `m_buffers` never looks like the file to a sender.**  After a completed upload,
a sender that finds the buffer gets the size 0.  One that has the file opened again gets the length
of the file; and if that is 0, since no flush has put anything there, it gets no parts.  If every
flush succeeds, the parts and the bytes are the same, and so is the type of a resource. -/
theorem not_sameToSender {env : Env} {pkt : Packet} {c : Choice} {d d' : Disk} {b : StreamBuffer}
    (hcreate : StreamBuffer.create (tmpFile pkt.streamId) pkt c d = some (some b, d'))
    (xs : List (Call × Choice)) (hwritten : AllWritten ⟨b, d'⟩ xs) (hdone : Completed env pkt xs)
    (buffers : UInt32 → Option StreamBuffer) (c' : Choice) :
    let o := afterCalls ⟨b, d'⟩ xs
    let found := Function.update buffers pkt.streamId (some o.buffer)
    let evicted := Function.update buffers pkt.streamId none
    ∃ x y, getBuffer env found pkt.streamId c' o.disk = some x ∧
      getBuffer env evicted pkt.streamId c' o.disk = some y ∧ ¬ SameToSender o.disk x y ∧
      x.type = pkt.streamType ∧ y.type = .resource ∧ x.size = 0 ∧
      (AllFlushed xs → (chunks xs).length ≤ maxLength →
        y.size.toNat = (chunks xs).length ∧ x.parts = y.parts ∧
          ∀ size offset c, (x.buffer.read size offset c o.disk).1 =
            (y.buffer.read size offset c o.disk).1) := by
  intro o found evicted
  have hcreated := kept_create hcreate
  have hafter := hcreated.afterCalls xs
  rw [List.nil_append, List.nil_append, written_eq_chunks xs hwritten] at hafter
  obtain ⟨htype, hparts⟩ :
      o.buffer.streamType = pkt.streamType ∧ o.buffer.streamParts = pkt.parts :=
    ⟨(afterCalls_fixed xs ⟨b, d'⟩).1.trans (create_fixed hcreate).1,
      (afterCalls_fixed xs ⟨b, d'⟩).2.trans (create_fixed hcreate).2⟩
  have hflushed : AllFlushed xs → (chunks xs).length ≤ maxLength →
      landedBy ⟨b, d'⟩ xs = chunks xs := fun hall hle =>
    (landedBy_eq_iff xs hcreated hwritten (by simpa using hle)).mpr hall
  generalize landedBy ⟨b, d'⟩ xs = put at hafter hflushed
  have hshort : put.length ≤ 2 ^ 63 - 1 := hafter.short
  have hlen : (UInt64.ofNat put.length).toNat = put.length := by
    rw [UInt64.toNat_ofNat']
    omega
  have hopen := open_of_file env hafter.file pkt.streamId c'
  have hfound : getStreamBuffer env found pkt.streamId c' o.disk = some o.buffer := by
    simp [getStreamBuffer, found]
  have hevicted : getStreamBuffer env evicted pkt.streamId c' o.disk =
      StreamBuffer.open env (tmpFile pkt.streamId) pkt.streamId c' o.disk := by
    simp [getStreamBuffer, evicted]
  refine ⟨_, _, by rw [getBuffer, hfound, Option.map_some],
    by rw [getBuffer, hevicted, hopen, Option.map_some], ?_, htype, rfl, hafter.size, ?_⟩
  · intro hsame
    have hsize : (0 : UInt64) = UInt64.ofNat put.length := hafter.size.symm.trans hsame.size
    -- an empty file has no parts
    have hnone : pkt.parts = 0 := by
      have hsameParts := hparts.symm.trans hsame.parts
      rw [← hsize] at hsameParts
      simpa using hsameParts
    obtain ⟨m, r, hm, -⟩ := hdone.length
    rw [hnone] at hm
    cases hm
  · intro hall hle
    obtain rfl := hflushed hall hle
    have hload := parts_load hdone (by omega)
    exact ⟨hlen, hparts.trans hload.symm, read_fst_congr hafter.handle hafter.counter⟩

/-- An upload of one byte. -/
def sampleUpload : List (Call × Choice) := [(.write [7] 0, {})]

theorem not_sameToSender_sample : ∃ x y : Attached, x.size = 0 ∧ y.size.toNat = 1 ∧
    ¬ SameToSender (afterCalls sampleOpened sampleUpload).disk x y := by
  have hcreate : StreamBuffer.create (tmpFile samplePacket.streamId) samplePacket {}
      (fun _ => none) = some (some sampleOpened.buffer, sampleOpened.disk) := rfl
  have hdone : Completed sampleEnv samplePacket sampleUpload :=
    ⟨rfl, by simp [bodies, sampleUpload], [7], rfl, by decide, by decide⟩
  obtain ⟨x, y, -, -, hne, -, -, hx, hflushed⟩ := not_sameToSender hcreate
    sampleUpload ⟨Or.inr (by decide +kernel), trivial⟩ hdone (fun _ => none) {}
  exact ⟨x, y, hx, (hflushed (by decide) (by decide)).1, hne⟩

/-- The sender of a stream of one byte gets the size 0 from `m_buffers` and 1 from the file. -/
theorem size_differs :
    let o := afterCalls sampleOpened sampleUpload
    ∃ x y, getBuffer sampleEnv (fun _ => some o.buffer) 4 {} o.disk = some x ∧
      getBuffer sampleEnv (fun _ => none) 4 {} o.disk = some y ∧ x.size = 0 ∧ y.size = 1 ∧
      ¬ SameToSender o.disk x y :=
  ⟨_, _, rfl, rfl, rfl, rfl, fun h => absurd h.size (by decide +kernel)⟩

end Files
end ZwayServer
