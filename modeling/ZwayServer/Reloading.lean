import ZwayServer.FileBuffer

/-!
# Files that are opened again

A stream buffer that was dropped is opened again from its file.  `load` counts the bytes and
the parts in 64 bits; what `bytesReadable` returns, and every read is bounded by, are the low 32
bits of the counter.

* `readParts` — what a sender reads, part after part.
* `Exposes` — the buffer has the parts and the bytes of the file, and the parts that are read
  make up the file.
* `exposes_iff` — so it is exactly for files of less than 2^32 bytes.
* `not_exposes` — of a file of 2^32 bytes nothing can be read.
-/

namespace ZwayServer
namespace Files

open Stdio

/-! ## Parts -/

/-- Reads `n` parts from the `k`-th on, each at its offset and of the size `body`. -/
def readParts (body : ℕ) (cs : ℕ → Choice) : ℕ → ℕ → Opened → List (Option (List UInt8))
  | 0, _, _ => []
  | n + 1, k, o =>
    (o.buffer.read body (k * body) (cs k) o.disk).1 ::
      readParts body cs n (k + 1) (perform (.read body (k * body)) (cs k) o).2

/-- A buffer shows the whole of a file: `streamParts` is its length divided by the size of a
packet's body, rounded up, `bytesReadable` is its length, and the parts are not empty and make
up the file, if no read fails. -/
structure Exposes (env : Env) (bytes : List UInt8) (o : Opened) : Prop where
  parts : o.buffer.streamParts.toNat = bytes.length ⌈/⌉ env.maxPacketBody.toNat
  readable : o.buffer.bytesReadable.toNat = bytes.length
  pieces : ∀ cs, NoFaults cs → ∃ pieces : List (List UInt8),
    readParts env.maxPacketBody.toNat cs o.buffer.streamParts.toNat 0 o = pieces.map some ∧
      (∀ piece ∈ pieces, piece ≠ []) ∧ pieces.flatten = bytes

/-- The handle is on the file, and the counter is its length. -/
structure Shows (bytes : List UInt8) (o : Opened) : Prop where
  contents : ∀ pos, contents { o.buffer.buffer.fh with pos := pos } o.disk = bytes
  readable : o.buffer.bytesReadable.toNat = bytes.length

/-- Reading does not change that. -/
theorem Shows.read {bytes : List UInt8} {o : Opened} (h : Shows bytes o) (size offset : ℕ)
    (c : Choice) : Shows bytes (perform (.read size offset) c o).2 := by
  dsimp only [perform]
  rw [StreamBuffer.read_eq]
  split
  · exact ⟨h.contents, h.readable⟩
  · refine ⟨?_, h.readable⟩
    intro pos
    obtain ⟨pos', hread⟩ :=
      FileBuffer.read_snd (o.buffer.bytesToRead size offset) offset c o.buffer.buffer o.disk
    simp only [hread]
    exact h.contents pos

/-- The `k`-th part of a file. -/
def part (body : ℕ) (bytes : List UInt8) (k : ℕ) : List UInt8 := (bytes.drop (k * body)).take body

theorem readParts_eq {body : ℕ} {cs : ℕ → Choice} (hok : NoFaults cs) {bytes : List UInt8}
    (n k : ℕ) {o : Opened} (h : Shows bytes o) :
    readParts body cs n k o = (List.range' k n).map fun k => some (part body bytes k) := by
  induction n generalizing k o with
  | zero => rfl
  | succ n ih =>
    rw [readParts, ih (k + 1) (h.read body (k * body) (cs k)), List.range'_succ, List.map_cons,
      StreamBuffer.read_of_length h.contents h.readable body (k * body) (hok k)]
    rfl

/-- Parts that follow each other make up what they are cut from. -/
theorem flatten_parts (body : ℕ) (bytes : List UInt8) (n k : ℕ) :
    ((List.range' k n).map (part body bytes)).flatten =
      (bytes.drop (k * body)).take (n * body) := by
  induction n generalizing k with
  | zero => simp
  | succ n ih =>
    rw [List.range'_succ, List.map_cons, List.flatten_cons, ih (k + 1), part, Nat.succ_mul,
      Nat.succ_mul, Nat.add_comm (n * body), List.take_add, List.drop_drop]

/-- As many parts as the division rounded up says cover the file. -/
theorem flatten_allParts {body : ℕ} (hbody : 0 < body) (bytes : List UInt8) :
    ((List.range (bytes.length ⌈/⌉ body)).map (part body bytes)).flatten = bytes := by
  have hcover : bytes.length ≤ bytes.length ⌈/⌉ body * body := by
    rw [Nat.mul_comm]
    exact le_smul_ceilDiv hbody
  rw [List.range_eq_range', flatten_parts, Nat.zero_mul, List.drop_zero,
    List.take_of_length_le hcover]

/-- None of them is empty. -/
theorem part_ne_nil {body : ℕ} (hbody : 0 < body) {bytes : List UInt8} {k : ℕ}
    (hk : k < bytes.length ⌈/⌉ body) : part body bytes k ≠ [] := by
  have hlt : k * body < bytes.length := by
    by_contra hle
    have hceil : bytes.length ⌈/⌉ body ≤ k := by
      rw [ceilDiv_le_iff_le_mul hbody, Nat.mul_comm]
      omega
    omega
  intro hnil
  rw [part, List.take_eq_nil_iff, List.drop_eq_nil_iff] at hnil
  omega

/-! ## `load` -/

/-- The division with the remainder looked at is the division rounded up. -/
theorem ceilDiv_eq_ite (n : ℕ) {body : ℕ} (hbody : 0 < body) :
    n ⌈/⌉ body = if n % body ≠ 0 then n / body + 1 else n / body := by
  have hn := Nat.div_add_mod n body
  have hmod := Nat.mod_lt n hbody
  rw [Nat.ceilDiv_eq_add_pred_div]
  split
  · rw [Nat.div_eq_iff hbody, Nat.add_mul, Nat.mul_comm (n / body)]
    omega
  · rw [Nat.div_eq_iff hbody, Nat.mul_comm (n / body)]
    omega

/-- `load` computes the number of parts in 64 bits. -/
theorem parts_toNat {n : ℕ} {body : UInt64} (hbody : body ≠ 0) (hlen : n < 2 ^ 64)
    (hparts : n ⌈/⌉ body.toNat < 2 ^ 32) :
    let size := UInt64.ofNat n
    let parts := size / body
    (if size % body ≠ 0 then parts + 1 else parts).toUInt32.toNat = n ⌈/⌉ body.toNat := by
  have hpos : 0 < body.toNat := by
    rw [Nat.pos_iff_ne_zero, ne_eq, ← UInt64.toNat_zero, UInt64.toNat_inj]
    exact hbody
  have hsize : (UInt64.ofNat n).toNat = n := by
    rw [UInt64.toNat_ofNat']
    omega
  have hzero : UInt64.ofNat n % body ≠ 0 ↔ n % body.toNat ≠ 0 := by
    rw [ne_eq, ← UInt64.toNat_inj, UInt64.toNat_mod, hsize, UInt64.toNat_zero]
  have hdiv : (UInt64.ofNat n / body).toNat = n / body.toNat := by rw [UInt64.toNat_div, hsize]
  rw [ceilDiv_eq_ite n hpos] at hparts ⊢
  dsimp only
  rw [UInt64.toNat_toUInt32]
  generalize n / body.toNat = q at hdiv hparts ⊢
  by_cases hmod : n % body.toNat ≠ 0
  · rw [if_pos hmod] at hparts ⊢
    rw [if_pos (hzero.mpr hmod), UInt64.toNat_add, hdiv]
    simp only [UInt64.reduceToNat]
    omega
  · rw [if_neg hmod] at hparts ⊢
    rw [if_neg (fun hne => hmod (hzero.mp hne)), hdiv]
    omega

/-- What `load` sets. -/
theorem open_fields (env : Env) {name : String} {d : Disk} {bytes : List UInt8}
    (hfile : d name = some bytes) (hlen : bytes.length < 2 ^ 64) (id : UInt32) (c : Choice) :
    ∃ b, StreamBuffer.open env name id c d = some b ∧
      (∀ pos, contents { b.buffer.fh with pos := pos } d = bytes) ∧
      b.bytesReadable.toNat = bytes.length % 2 ^ 32 ∧
      (env.maxPacketBody ≠ 0 → bytes.length ⌈/⌉ env.maxPacketBody.toNat < 2 ^ 32 →
        b.streamParts.toNat = bytes.length ⌈/⌉ env.maxPacketBody.toNat) := by
  refine ⟨_, open_of_file env hfile id c, ?_, ?_, ?_⟩
  · intro pos
    rw [contents, hfile, Option.getD_some]
  · rw [StreamBuffer.bytesReadable, UInt64.toNat_toUInt32, UInt64.toNat_ofNat']
    omega
  · intro hbody hparts
    exact parts_toNat hbody hlen hparts

/-- **Reloading a file exposes all of it** exactly if the file is shorter than 2^32 bytes; the
number of parts is right for every file. -/
theorem exposes_iff {env : Env} (hbody : env.maxPacketBody ≠ 0) {name : String} {d : Disk}
    {bytes : List UInt8} (hfile : d name = some bytes) (hlen : bytes.length < 2 ^ 64)
    (hparts : bytes.length ⌈/⌉ env.maxPacketBody.toNat < 2 ^ 32) (id : UInt32) (c : Choice) :
    ∃ b, StreamBuffer.open env name id c d = some b ∧
      b.streamParts.toNat = bytes.length ⌈/⌉ env.maxPacketBody.toNat ∧
      (Exposes env bytes ⟨b, d⟩ ↔ bytes.length < 2 ^ 32) := by
  have hpos : 0 < env.maxPacketBody.toNat := by
    rw [Nat.pos_iff_ne_zero, ne_eq, ← UInt64.toNat_zero, UInt64.toNat_inj]
    exact hbody
  obtain ⟨b, hopen, hcontents, hreadable, hcount⟩ := open_fields env hfile hlen id c
  refine ⟨b, hopen, hcount hbody hparts, ?_⟩
  constructor
  · intro h
    have heq : b.bytesReadable.toNat = bytes.length := h.readable
    omega
  · intro hlt
    have hshows : Shows bytes ⟨b, d⟩ := ⟨hcontents, hreadable.trans (Nat.mod_eq_of_lt hlt)⟩
    refine ⟨hcount hbody hparts, hshows.readable, ?_⟩
    intro cs hok
    refine ⟨(List.range (bytes.length ⌈/⌉ env.maxPacketBody.toNat)).map
      (part env.maxPacketBody.toNat bytes), ?_, ?_, flatten_allParts hpos bytes⟩
    · rw [readParts_eq hok _ _ hshows, hcount hbody hparts, ← List.range_eq_range', List.map_map]
      rfl
    · intro piece hpiece
      obtain ⟨k, hk, rfl⟩ := List.mem_map.mp hpiece
      exact part_ne_nil hpos (List.mem_range.mp hk)

/-- A file of three bytes. -/
def shortDisk : Disk := fun _ => some [7, 8, 9]

theorem exposes_shortDisk : ∃ b, StreamBuffer.open sampleEnv "tmp/4" 4 {} shortDisk = some b ∧
    Exposes sampleEnv [7, 8, 9] ⟨b, shortDisk⟩ := by
  have hfile : shortDisk "tmp/4" = some [7, 8, 9] := rfl
  have hbody : sampleEnv.maxPacketBody ≠ 0 := by decide +kernel
  have hparts : [7, 8, 9].length ⌈/⌉ sampleEnv.maxPacketBody.toNat < 2 ^ 32 := by decide +kernel
  obtain ⟨b, hopen, -, hiff⟩ := exposes_iff hbody hfile (by decide) hparts 4 {}
  exact ⟨b, hopen, hiff.mpr (by decide)⟩

/-- The smallest file whose length does not fit into 32 bits. -/
def largeFile : List UInt8 := List.replicate (2 ^ 32) 0

def largeDisk : Disk := fun _ => some largeFile

/-- No byte of it is readable once it is opened again. -/
theorem not_exposes : ∃ b, StreamBuffer.open sampleEnv "tmp/4" 4 {} largeDisk = some b ∧
    b.bytesReadable.toNat = 0 ∧ ¬ Exposes sampleEnv largeFile ⟨b, largeDisk⟩ := by
  have hfile : largeDisk "tmp/4" = some largeFile := rfl
  have hlen : largeFile.length = 2 ^ 32 := List.length_replicate
  have hshort : largeFile.length < 2 ^ 64 := by
    rw [hlen]
    norm_num
  obtain ⟨b, hopen, -, hreadable, -⟩ := open_fields sampleEnv hfile hshort 4 {}
  rw [hlen, Nat.mod_self] at hreadable
  refine ⟨b, hopen, hreadable, ?_⟩
  intro h
  have heq : b.bytesReadable.toNat = largeFile.length := h.readable
  rw [hreadable, hlen] at heq
  exact absurd heq (by norm_num)

end Files
end ZwayServer
