import ZwayServer.FileBuffer

/-!
# Writes that fail

A `fwrite` of a chunk that is longer than the buffer of the stream may fail after it has put a part
of the chunk into the file.  The counter of the stream buffer does not see that part, but the file
was opened for appending, so the next chunk goes behind it, while reads still count from the start.
A `fflush` that fails does the opposite: the counter sees bytes that are not in the file.

* `NoTrace` — the counter and the reads are those of what was written.
* `leftover` — what the file holds behind the bytes that the counter counts.
* `Unmixed` — each chunk that is written reads as it should behind the leftover.
* `noTrace_iff` — exactly then the buffer reads as what was written after every call.
* `not_noTrace` — a write that fails after one byte shifts all that follow.
-/

namespace ZwayServer
namespace Files

open Stdio

/-! ## What was written, and what is in the file -/

/-- After the calls, the buffer has as many bytes as were written, and reads return them. -/
def NoTrace (o : Opened) (xs : List (Call × Choice)) : Prop :=
  ReadsAs (written o xs) (afterCalls o xs)

/-- What the file holds behind the bytes that `m_bytesReadable` counts. -/
def leftover (o : Opened) : List UInt8 :=
  (contents o.buffer.buffer.fh o.disk).drop o.buffer.readable.toNat

/-- Every chunk that `fwrite` reports is where the counter expects it: it begins what the file then
holds from there on, the leftover of failed writes and what lands of the chunk.  And the counter
stays in 32 bits. -/
def Unmixed (o : Opened) : List (Call × Choice) → Prop
  | [] => True
  | x :: xs =>
    (Reported x.1 x.2 o → x.1.data <+: leftover o ++ landed x.1 x.2 o ∧
      o.buffer.readable.toNat + x.1.data.length < 2 ^ 32) ∧
    Unmixed (perform x.1 x.2 o).2 xs

instance Unmixed.decidable : (o : Opened) → (xs : List (Call × Choice)) → Decidable (Unmixed o xs)
  | _, [] => instDecidableTrue
  | o, x :: xs =>
    have : Decidable (Unmixed (perform x.1 x.2 o).2 xs) := Unmixed.decidable _ xs
    inferInstanceAs (Decidable ((Reported x.1 x.2 o → _ ∧ _) ∧ Unmixed (perform x.1 x.2 o).2 xs))

/-! ## One call -/

section

variable {name : String} {bytes put : List UInt8} {o : Opened}

theorem Kept.leftover_eq (h : Kept name bytes put o) (hlt : bytes.length < 2 ^ 32) :
    o.buffer.readable.toNat = bytes.length ∧ leftover o = put.drop bytes.length := by
  have hcount : o.buffer.readable.toNat = bytes.length := by
    rw [h.counter, UInt64.toNat_ofNat']
    omega
  refine ⟨hcount, ?_⟩
  rw [leftover, hcount]
  exact congrArg _ (h.contents _)

/-- A chunk behind a leftover is where it belongs if it begins what is there. -/
theorem append_prefix_iff {data rest : List UInt8} (h : bytes <+: put) :
    bytes ++ data <+: put ++ rest ↔ data <+: put.drop bytes.length ++ rest := by
  obtain ⟨left, rfl⟩ := h
  rw [List.drop_left, List.append_assoc, List.prefix_append_right_inj]

/-- The condition on one call is that the buffer reads as what was written after it. -/
theorem readsAs_perform_iff (h : Kept name bytes put o) (hreads : ReadsAs bytes o) (x : Call)
    (c : Choice) :
    ReadsAs (bytes ++ if (perform x c o).1 then x.data else []) (perform x c o).2 ↔
      (Reported x c o → x.data <+: leftover o ++ landed x c o ∧
        o.buffer.readable.toNat + x.data.length < 2 ^ 32) := by
  obtain ⟨hlt, hin⟩ := h.readsAs_iff.mp hreads
  obtain ⟨hcount, hleft⟩ := h.leftover_eq hlt
  rw [(h.perform x c).readsAs_iff]
  cases x with
  | write data offset =>
    by_cases hreported : Reported (.write data offset) c o
    · rw [if_pos ((h.perform_fst data offset c).mpr hreported), append_prefix_iff hin,
        List.length_append, hleft, hcount]
      exact ⟨fun hboth _ => hboth.symm, fun hboth => (hboth hreported).symm⟩
    · -- what a failed write leaves is behind what was written
      rw [if_neg (mt (h.perform_fst data offset c).mp hreported), List.append_nil]
      exact ⟨fun _ hr => absurd hr hreported, fun _ => ⟨hlt, hin.trans (List.prefix_append ..)⟩⟩
  | read size offset =>
    simp only [Call.data, ite_self, List.append_nil, landed]
    exact ⟨fun _ hr => hr.elim, fun _ => ⟨hlt, hin⟩⟩

end

/-! ## Along a run -/

/-- The property of all beginnings of a run is that of the first call and of those that follow. -/
theorem forall_prefix_cons {α : Type} {P : List α → Prop} {x : α} {xs : List α} :
    (∀ ys, ys <+: x :: xs → P ys) ↔ P [] ∧ ∀ ys, ys <+: xs → P (x :: ys) := by
  constructor
  · exact fun h => ⟨h [] List.nil_prefix, fun ys hys => h _ ((List.prefix_cons_inj x).mpr hys)⟩
  · rintro ⟨hnil, hcons⟩ ys hys
    cases ys with
    | nil => exact hnil
    | cons y ys =>
      obtain ⟨rfl, htail⟩ := List.cons_prefix_cons.mp hys
      exact hcons ys htail

/-- From a buffer that reads as what was written before. -/
theorem unmixed_iff {name : String} (xs : List (Call × Choice)) {bytes put : List UInt8}
    {o : Opened} (h : Kept name bytes put o) (hreads : ReadsAs bytes o) :
    (∀ ys, ys <+: xs → ReadsAs (bytes ++ written o ys) (afterCalls o ys)) ↔ Unmixed o xs := by
  induction xs generalizing bytes put o with
  | nil =>
    refine ⟨fun _ => trivial, fun _ ys hys => ?_⟩
    rw [List.prefix_nil.mp hys, written, List.append_nil]
    exact hreads
  | cons x xs ih =>
    have hstep := h.perform x.1 x.2
    rw [forall_prefix_cons, Unmixed, ← readsAs_perform_iff h hreads]
    simp only [written, afterCalls, List.append_nil, ← List.append_assoc]
    constructor
    · rintro ⟨-, hall⟩
      have hnow := hall [] List.nil_prefix
      rw [written, List.append_nil] at hnow
      exact ⟨hnow, (ih hstep hnow).mp hall⟩
    · rintro ⟨hnow, hunmixed⟩
      exact ⟨hreads, (ih hstep hnow).mpr hunmixed⟩

/-- **A failed write leaves no trace, unless a later one succeeds.**  In every run of calls on a
buffer that was created, the counter and the reads are at all times those of the chunks whose
writes have returned true, exactly if every such chunk begins what the file holds from where the
counter stood, and the counter stays in 32 bits. -/
theorem noTrace_iff {name : String} {pkt : Packet} {c : Choice} {d d' : Disk} {b : StreamBuffer}
    (hcreate : StreamBuffer.create name pkt c d = some (some b, d')) (xs : List (Call × Choice)) :
    (∀ ys, ys <+: xs → NoTrace ⟨b, d'⟩ ys) ↔ Unmixed ⟨b, d'⟩ xs := by
  have h := kept_create hcreate
  have hreads : ReadsAs [] ⟨b, d'⟩ := h.readsAs_iff.mpr ⟨by simp, List.prefix_rfl⟩
  exact unmixed_iff xs h hreads

/-- A chunk that is longer than the buffer of a stream. -/
def longChunk : List UInt8 := List.replicate 4097 1

/-- Nothing of a long chunk gets into the file, and then one of a single byte does. -/
def cleanCalls : List (Call × Choice) :=
  [(.write longChunk 0, { fails := true }), (.write [3] 0, {})]

theorem noTrace_cleanCalls : written sampleOpened cleanCalls = [3] ∧
    NoTrace sampleOpened cleanCalls := by
  have hunmixed : Unmixed sampleOpened cleanCalls := by decide +kernel
  refine ⟨by decide +kernel, ?_⟩
  exact (noTrace_iff create_sample cleanCalls).mpr hunmixed cleanCalls List.prefix_rfl

/-- The same, but the first byte of the long chunk got into the file. -/
def tornCalls : List (Call × Choice) :=
  [(.write longChunk 0, { fails := true, written := 1 }), (.write [3] 0, {})]

/-- The byte that was written is behind the one that was not, so a read returns the wrong one. -/
theorem not_noTrace : StreamBuffer.create "tmp/4" samplePacket {} (fun _ => none) =
      some (some sampleOpened.buffer, sampleOpened.disk) ∧
    written sampleOpened tornCalls = [3] ∧
    ((afterCalls sampleOpened tornCalls).buffer.read 1 0 {}
      (afterCalls sampleOpened tornCalls).disk).1 = some [1] ∧
    ¬ NoTrace sampleOpened tornCalls := by
  have hread : ((afterCalls sampleOpened tornCalls).buffer.read 1 0 {}
      (afterCalls sampleOpened tornCalls).disk).1 = some [1] := by decide +kernel
  have hwritten : written sampleOpened tornCalls = [3] := by decide +kernel
  refine ⟨rfl, hwritten, hread, ?_⟩
  intro h
  have hone := h.read 1 0 {} rfl
  rw [hread, hwritten] at hone
  exact absurd hone (by decide)

end Files
end ZwayServer
