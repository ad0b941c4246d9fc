import Mathlib

/-!
# Binary files under standard I/O

The part of C's standard I/O that a program needs which writes a file at its end and reads
it anywhere: files opened with `"rb"` or `"ab+"`, positioned by `fseek`, and read and written
one item at a time, so that a call transfers all of its bytes or reports none.  Every write is
followed by `fflush`, so the buffer of the stream is empty when it begins.

* `Disk`, `Handle` — the files by name, and an open file with its position.
* `fopen`, `fseek`, `fseekEnd`, `fread`, `fwrite`, `fflush` — the calls; what the operating
  system does is an argument.
* `fread_of_le` — an item that is there is read.
* `Reports`, `lands` — whether `fwrite` reports its item, and what of it is in the file once the
  stream is flushed.
* `lands_eq_iff` — an item that is reported is in the file if nothing of it had to wait, or the
  flush succeeds.
-/

namespace Stdio

/-- The files that exist, with what they hold. -/
abbrev Disk := String → Option (List UInt8)

/-- `"rb"` and `"ab+"`. -/
inductive Mode where
  | read | append
  deriving DecidableEq, Repr, Inhabited

/-- An open file. -/
structure Handle where
  name : String
  mode : Mode
  pos : ℕ := 0
  deriving DecidableEq, Repr, Inhabited

/-- What the file of a handle holds. -/
def contents (h : Handle) (d : Disk) : List UInt8 := (d h.name).getD []

/-- `fopen(name, mode)`: a file that is to be read must exist, and one that is to be appended
to is created. -/
def fopen (mode : Mode) (name : String) (fails : Bool) (d : Disk) : Option Handle × Disk :=
  match mode with
  | .read => (if (d name).isSome then some ⟨name, .read, 0⟩ else none, d)
  | .append =>
    if fails then (none, d)
    else (some ⟨name, .append, 0⟩, Function.update d name (some ((d name).getD [])))

/-- `fseek(h, offset, SEEK_SET)`, where the offset is converted to a signed number, which must
not be negative. -/
def fseek (offset : ℕ) (h : Handle) : Option Handle :=
  if offset < 2 ^ 63 then some { h with pos := offset } else none

/-- `fseek(h, 0, SEEK_END)`. -/
def fseekEnd (h : Handle) (d : Disk) : Handle := { h with pos := (contents h d).length }

/-- `fread(data, size, 1, h)`: the item, if there is one. -/
def fread (size : ℕ) (fails : Bool) (h : Handle) (d : Disk) : Option (List UInt8) × Handle :=
  let bytes := ((contents h d).drop h.pos).take size
  (if fails ∨ size = 0 ∨ bytes.length < size then none else some bytes,
    { h with pos := h.pos + bytes.length })

/-- No file grows beyond what a signed offset can name. -/
def maxLength : ℕ := 2 ^ 63 - 1

/-- What of some bytes the operating system puts at the end of a file of the length `size`: all of
them or, if it fails, the first `part`, short of all. -/
def accepted (size : ℕ) (bytes : List UInt8) (fails : Bool) (part : ℕ) : List UInt8 :=
  if fails = true ∨ maxLength < size + bytes.length then
    bytes.take (min part (min (bytes.length - 1) (maxLength - size)))
  else bytes

/-- Bytes at the end of a file, wherever the position is. -/
def append (bytes : List UInt8) (h : Handle) (d : Disk) : Handle × Disk :=
  let all := contents h d ++ bytes
  ({ h with pos := all.length }, Function.update d h.name (some all))

/-- What of an item goes straight to the file: as much as fills the buffer of `room` bytes. -/
def blocks (room : ℕ) (data : List UInt8) : List UInt8 :=
  data.take (data.length - data.length % room)

/-- What of it waits in the buffer. -/
def waiting (room : ℕ) (data : List UInt8) : List UInt8 :=
  data.drop (data.length - data.length % room)

/-- `fwrite(data, size, 1, h)`: what waits for `fflush` or, if the item was not written, `none`;
then the first bytes of it may be in the file. -/
def fwrite (room : ℕ) (data : List UInt8) (fails : Bool) (part : ℕ) (h : Handle) (d : Disk) :
    Option (List UInt8) × Handle × Disk :=
  match h.mode with
  | .read => (none, h, d)
  | .append =>
    if data = [] then (none, h, d)
    else
      let put := accepted (contents h d).length (blocks room data) fails part
      (if put = blocks room data then some (waiting room data) else none, append put h d)

/-- `fflush(h)`; what cannot be written is dropped. -/
def fflush (bytes : List UInt8) (fails : Bool) (part : ℕ) (h : Handle) (d : Disk) : Handle × Disk :=
  append (accepted (contents h d).length bytes fails part) h d

/-! ## What the calls do -/

variable {h : Handle} {d : Disk}

/-- An item that is there is read. -/
theorem fread_of_le {size : ℕ} (hpos : 0 < size) (hle : h.pos + size ≤ (contents h d).length) :
    (fread size false h d).1 = some (((contents h d).drop h.pos).take size) := by
  have hlen : (((contents h d).drop h.pos).take size).length = size := by
    rw [List.length_take, List.length_drop]
    omega
  have hnone : ¬ (false = true ∨ size = 0 ∨
      (((contents h d).drop h.pos).take size).length < size) := by
    rintro (hf | hz | hl)
    · cases hf
    · omega
    · omega
  rw [fread, if_neg hnone]

/-- What is read is in the file. -/
theorem fread_some {size : ℕ} {fails : Bool} {bytes : List UInt8}
    (hread : (fread size fails h d).1 = some bytes) :
    bytes = ((contents h d).drop h.pos).take size := by
  simp only [fread] at hread
  split at hread
  · cases hread
  · exact (Option.some.inj hread).symm

theorem fseek_of_lt {offset : ℕ} (hlt : offset < 2 ^ 63) :
    fseek offset h = some { h with pos := offset } := if_pos hlt

/-! ## What is accepted -/

section

variable {size part : ℕ} {bytes : List UInt8} {fails : Bool}

theorem accepted_isPrefix : accepted size bytes fails part <+: bytes := by
  rw [accepted]
  split
  · exact List.take_prefix ..
  · exact List.prefix_rfl

@[simp] theorem accepted_nil : accepted size [] fails part = [] :=
  List.prefix_nil.mp accepted_isPrefix

theorem accepted_eq_iff : accepted size bytes fails part = bytes ↔
    bytes = [] ∨ fails = false ∧ size + bytes.length ≤ maxLength := by
  by_cases hnil : bytes = []
  · simp [hnil]
  have hpos := List.length_pos_iff.mpr hnil
  rw [accepted]
  split
  · next hfail =>
    have hne : bytes.take (min part (min (bytes.length - 1) (maxLength - size))) ≠ bytes := by
      intro he
      have hlength := congrArg List.length he
      rw [List.length_take] at hlength
      omega
    refine ⟨fun he => absurd he hne, ?_⟩
    rintro (h | ⟨hok, hle⟩)
    · exact absurd h hnil
    · rcases hfail with hf | hlt
      · rw [hok] at hf
        cases hf
      · omega
  · next hok =>
    obtain ⟨hf, hle⟩ := not_or.mp hok
    exact ⟨fun _ => Or.inr ⟨Bool.eq_false_of_not_eq_true hf, not_lt.mp hle⟩, fun _ => rfl⟩

/-- The file stays below its limit. -/
theorem accepted_length (hsize : size ≤ maxLength) :
    size + (accepted size bytes fails part).length ≤ maxLength := by
  rw [accepted]
  split
  · rw [List.length_take]
    omega
  · next hok => exact not_lt.mp (not_or.mp hok).2

end

/-! ## What a write leaves in the file -/

section

variable {room size part : ℕ} {data : List UInt8} {fails unflushed : Bool}

theorem blocks_append_waiting (room : ℕ) (data : List UInt8) :
    blocks room data ++ waiting room data = data := List.take_append_drop ..

/-- Nothing waits if the item is made of whole blocks. -/
theorem waiting_eq_nil : waiting room data = [] ↔ data.length % room = 0 := by
  have hle := Nat.mod_le data.length room
  rw [waiting, List.drop_eq_nil_iff]
  omega

/-- `fwrite` reports the item. -/
def Reports (room : ℕ) (data : List UInt8) (fails : Bool) (part size : ℕ) : Prop :=
  data ≠ [] ∧ accepted size (blocks room data) fails part = blocks room data

instance : Decidable (Reports room data fails part size) :=
  inferInstanceAs (Decidable (_ ∧ _))

/-- What of an item is in a file of the length `size` after `fwrite`, and `fflush` if that has
reported it. -/
def lands (room : ℕ) (data : List UInt8) (fails unflushed : Bool) (part size : ℕ) : List UInt8 :=
  let put := accepted size (blocks room data) fails part
  if put = blocks room data then
    put ++ accepted (size + put.length) (waiting room data) unflushed part
  else put

theorem lands_isPrefix : lands room data fails unflushed part size <+: data := by
  rw [lands]
  split
  · next hput =>
    have hpre : ∀ size, blocks room data ++ accepted size (waiting room data) unflushed part <+:
        blocks room data ++ waiting room data := fun size =>
      (List.prefix_append_right_inj _).mpr accepted_isPrefix
    rw [hput]
    rw [blocks_append_waiting] at hpre
    exact hpre _
  · exact accepted_isPrefix.trans (List.take_prefix ..)

theorem lands_length (hsize : size ≤ maxLength) :
    size + (lands room data fails unflushed part size).length ≤ maxLength := by
  have hput : size + (accepted size (blocks room data) fails part).length ≤ maxLength :=
    accepted_length hsize
  rw [lands]
  split
  · rw [List.length_append, ← Nat.add_assoc]
    exact accepted_length hput
  · exact hput

/-- All of an item that is reported is in the file if nothing of it had to wait, or the flush
succeeds. -/
theorem lands_eq_iff (hreports : Reports room data fails part size)
    (hle : size + data.length ≤ maxLength) :
    lands room data fails unflushed part size = data ↔
      unflushed = false ∨ data.length % room = 0 := by
  have hall := blocks_append_waiting room data
  have hlength : (blocks room data).length + (waiting room data).length = data.length := by
    rw [← List.length_append, hall]
  have hlands : lands room data fails unflushed part size = data ↔
      accepted (size + (blocks room data).length) (waiting room data) unflushed part =
        waiting room data := by
    rw [lands, hreports.2, if_pos rfl,
      ← @List.append_right_inj _ _ (waiting room data) (blocks room data), hall]
  rw [hlands, accepted_eq_iff, waiting_eq_nil, or_comm]
  exact or_congr_left ⟨fun h => h.1, fun h => ⟨h, by omega⟩⟩

/-- An item that is in the file has been reported. -/
theorem reports_of_lands_eq (h : lands room data fails unflushed part size = data) :
    data = [] ∨ Reports room data fails part size := by
  by_cases hput : accepted size (blocks room data) fails part = blocks room data
  · by_cases hnil : data = []
    · exact Or.inl hnil
    · exact Or.inr ⟨hnil, hput⟩
  · have hlength := (@accepted_isPrefix size part (blocks room data) fails).length_le
    have hblocks : (blocks room data).length ≤ data.length := (List.take_prefix ..).length_le
    rw [lands, if_neg hput] at h
    rw [h] at hlength
    have hdata : blocks room data = data :=
      (List.take_prefix ..).eq_of_length (Nat.le_antisymm hblocks hlength)
    rw [hdata] at hput h
    exact absurd h hput

end

end Stdio
