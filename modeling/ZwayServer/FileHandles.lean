import ZwayServer.Proc.Logic
import ZwayServer.Proc.Stdio

/-!
# The file handles of a buffer

A `FileBuffer` opens its file in `init` or in `load`, and closes it in `release`, which its
destructor calls.  Here its member functions are programs over the calls of C's standard I/O,
whatever the operating system answers, and an automaton reads along which handles are open.

* `init`, `load`, `release`, `read`, `write`, `flush` — the member functions.
* `life` — construction, use and destruction of one `FileBuffer`.
* `watch`, `Protocol` — every call is on an open handle, and in the end none is open.
* `protocol_iff` — so it is unless `create` is called for a file that can be opened.
* `not_protocol` — then `init` closes the handle, and the destructor closes it again.
-/

namespace ZwayServer
namespace FileHandles

open Stdio (Mode)

/-! ## Standard I/O -/

/-- A `FILE*`; null is `none`. -/
abbrev FilePtr := Option ℕ

/-- The calls that `FileBuffer` makes. -/
inductive FileOp where
  | fopen (filename : String) (mode : Mode)
  | fclose (fh : FilePtr)
  | fseek (fh : FilePtr) (offset : ℕ)
  | fseekEnd (fh : FilePtr)
  | ftell (fh : FilePtr)
  | fread (fh : FilePtr) (size : ℕ)
  | fwrite (fh : FilePtr) (data : List UInt8)
  | fflush (fh : FilePtr)

/-- What they return; the calls whose result is not looked at return nothing. -/
@[reducible] def FileOp.Res : FileOp → Type
  | .fopen .. => FilePtr
  | .fseek .. => Int
  | .ftell _ => UInt64
  | .fread .. => ℕ
  | .fwrite .. => ℕ
  | _ => Unit

/-- A program that uses standard I/O. -/
abbrev FileProg := Proc FileOp FileOp.Res

/-! ## `FileBuffer` -/

/-- `FileBuffer::init`: its result, and `m_fh`. -/
def init (filename : String) : FileProg (Bool × FilePtr) := do
  let m_fh ← Proc.perform (FileOp.fopen filename .read)
  if m_fh.isSome then
    Proc.perform (FileOp.fclose m_fh)
    return (false, m_fh)
  let m_fh ← Proc.perform (FileOp.fopen filename .append)
  if m_fh.isNone then
    return (false, m_fh)
  return (true, m_fh)

/-- `FileBuffer::load`: its result, and `m_fh`. -/
def load (filename : String) : FileProg (Bool × FilePtr) := do
  let m_fh ← Proc.perform (FileOp.fopen filename .read)
  if m_fh.isNone then
    return (false, m_fh)
  Proc.perform (FileOp.fseekEnd m_fh)
  let _size ← Proc.perform (FileOp.ftell m_fh)
  let _ ← Proc.perform (FileOp.fseek m_fh 0)
  return (true, m_fh)

/-- `FileBuffer::release`, and with it the destructor. -/
def release (m_fh : FilePtr) : FileProg Unit := do
  if m_fh.isSome then
    Proc.perform (FileOp.fclose m_fh)

/-- `FileBuffer::read`. -/
def read (m_fh : FilePtr) (size offset : ℕ) : FileProg Bool := do
  if (← Proc.perform (FileOp.fseek m_fh offset)) ≠ 0 then
    return false
  let r ← Proc.perform (FileOp.fread m_fh size)
  if r = 0 then
    return false
  return true

/-- `FileBuffer::write`. -/
def write (m_fh : FilePtr) (data : List UInt8) (offset : ℕ) : FileProg Bool := do
  if (← Proc.perform (FileOp.fseek m_fh offset)) ≠ 0 then
    return false
  let r ← Proc.perform (FileOp.fwrite m_fh data)
  if r = 0 then
    return false
  Proc.perform (FileOp.fflush m_fh)
  return true

/-- `FileBuffer::flush`. -/
def flush (m_fh : FilePtr) : FileProg Unit := do
  if m_fh.isSome then
    Proc.perform (FileOp.fflush m_fh)

/-- `FileBuffer::create` and `FileBuffer::open` differ in the function that they call; a buffer
that is not handed out is destroyed. -/
def make (construct : String → FileProg (Bool × FilePtr)) (filename : String) :
    FileProg (Option FilePtr) := do
  let (ok, m_fh) ← construct filename
  if !ok then
    release m_fh
    return none
  return some m_fh

/-- `FileBuffer::create`. -/
def create : String → FileProg (Option FilePtr) := make init

/-- `FileBuffer::open`. -/
def «open» : String → FileProg (Option FilePtr) := make load

/-! ## A life -/

/-- How a buffer is made. -/
inductive Origin where
  | create | «open»
  deriving DecidableEq

/-- A call on a buffer that was handed out. -/
inductive Use where
  | read (size offset : ℕ)
  | write (data : List UInt8) (offset : ℕ)
  | flush

/-- The call, whatever it returns. -/
def use (m_fh : FilePtr) : Use → FileProg Unit
  | .read size offset => do
    let _ ← read m_fh size offset
  | .write data offset => do
    let _ ← write m_fh data offset
  | .flush => flush m_fh

/-- A buffer is made, used if it was handed out, and destroyed. -/
def life (origin : Origin) (filename : String) (uses : List Use) : FileProg Unit := do
  let buf ←
    match origin with
    | .create => create filename
    | .open => «open» filename
  match buf with
  | none => return
  | some m_fh =>
    forM uses (use m_fh)
    release m_fh

/-! ## The protocol -/

/-- A call on an open handle. -/
def on (fh : FilePtr) (opened : Multiset ℕ) : Option (Multiset ℕ) :=
  match fh with
  | none => none
  | some h => if h ∈ opened then some opened else none

/-- The handles that are open after a call; `none` if it was applied to null or to a handle that
is not open. -/
def watch : (o : FileOp) → o.Res → Multiset ℕ → Option (Multiset ℕ)
  | .fopen .., none, opened => some opened
  | .fopen .., some h, opened => some (h ::ₘ opened)
  | .fclose none, _, _ => none
  | .fclose (some h), _, opened => if h ∈ opened then some (opened.erase h) else none
  | .fseek fh _, _, opened => on fh opened
  | .fseekEnd fh, _, opened => on fh opened
  | .ftell fh, _, opened => on fh opened
  | .fread fh _, _, opened => on fh opened
  | .fwrite fh _, _, opened => on fh opened
  | .fflush fh, _, opened => on fh opened

/-- The operating system may answer anything, but `readable` says which files it opens for
reading. -/
def Answers (readable : String → Bool) : (o : FileOp) → o.Res → Prop
  | .fopen filename .read, r => r.isSome = readable filename
  | _, _ => True

/-- No call is applied to null or to a handle that is not open, and every handle that `fopen`
has returned is closed in the end, and so exactly once. -/
def Protocol (readable : String → Bool) (p : FileProg Unit) : Prop :=
  Proc.Tracks (Answers readable) watch p 0 fun _ opened => opened = 0

section

variable {readable : String → Bool} {h : ℕ}

@[simp] theorem on_singleton : on (some h) {h} = some {h} := by simp [on]

/-- The calls on a buffer that was handed out leave its handle open. -/
theorem tracks_use (x : Use) :
    Proc.Tracks (Answers readable) watch (use (some h) x) {h} fun _ opened => opened = {h} := by
  cases x with
  | read size offset =>
    simp only [use, read, bind_assoc, Proc.tracks_bind, Proc.tracks_perform, watch, on_singleton]
    intro r _
    refine ⟨{h}, rfl, ?_⟩
    split
    · exact rfl
    · rw [Proc.tracks_bind, Proc.tracks_perform]
      intro n _
      refine ⟨{h}, on_singleton, ?_⟩
      split <;> exact rfl
  | write data offset =>
    simp only [use, write, bind_assoc, Proc.tracks_bind, Proc.tracks_perform, watch, on_singleton]
    intro r _
    refine ⟨{h}, rfl, ?_⟩
    split
    · exact rfl
    · rw [Proc.tracks_bind, Proc.tracks_perform]
      intro n _
      refine ⟨{h}, on_singleton, ?_⟩
      split
      · exact rfl
      · rw [Proc.tracks_bind, Proc.tracks_perform]
        exact fun _ _ => ⟨{h}, on_singleton, rfl⟩
  | flush =>
    exact fun _ _ => ⟨{h}, on_singleton, rfl⟩

/-- The destructor closes the handle of a buffer. -/
theorem tracks_release :
    Proc.Tracks (Answers readable) watch (release (some h)) {h} fun _ opened => opened = 0 := by
  intro _ _
  exact ⟨({h} : Multiset ℕ).erase h, by simp [watch], by simp⟩

/-- A buffer that was handed out, with its handle open, is used and destroyed. -/
theorem tracks_rest (uses : List Use) :
    Proc.Tracks (Answers readable) watch
      (do
        forM uses (use (some h))
        release (some h)) {h} fun _ opened => opened = 0 := by
  rw [Proc.tracks_bind]
  refine (Proc.Tracks.forM fun x _ => tracks_use x).weaken ?_
  rintro _ m' rfl
  exact tracks_release

/-- `load` opens one handle, or none. -/
theorem protocol_open (filename : String) (uses : List Use) :
    Protocol readable (life .open filename uses) := by
  intro r _
  cases r with
  | none => exact ⟨0, rfl, rfl⟩
  | some h =>
    refine ⟨{h}, rfl, ?_⟩
    -- to the end, to where it stands, and back
    intro _ _
    refine ⟨{h}, on_singleton, ?_⟩
    intro _ _
    refine ⟨{h}, on_singleton, ?_⟩
    intro _ _
    refine ⟨{h}, on_singleton, ?_⟩
    exact tracks_rest uses

/-- If the probe of `init` fails, the second `fopen` opens one handle, or none. -/
theorem protocol_create {filename : String} (hnew : readable filename = false) (uses : List Use) :
    Protocol readable (life .create filename uses) := by
  intro r hr
  cases r with
  | some h =>
    have hsome : true = readable filename := hr
    rw [hnew] at hsome
    cases hsome
  | none =>
    refine ⟨0, rfl, ?_⟩
    intro r _
    cases r with
    | none => exact ⟨0, rfl, rfl⟩
    | some h => exact ⟨{h}, rfl, tracks_rest uses⟩

/-- If it succeeds, `init` closes the handle, and the destructor once more. -/
theorem not_protocol_create {filename : String} (hold : readable filename = true)
    (uses : List Use) : ¬ Protocol readable (life .create filename uses) := by
  intro h
  obtain ⟨opened, hopened, hclose⟩ := h (some 0) hold.symm
  cases hopened
  obtain ⟨closed, hclosed, hrelease⟩ := hclose () trivial
  have hempty : closed = 0 := by simpa [watch] using hclosed.symm
  obtain ⟨again, hagain, -⟩ := hrelease () trivial
  rw [hempty] at hagain
  cases hagain

end

/-- **The protocol of file handles.**  For every way to make a buffer, every file name, every
sequence of calls and all answers of the operating system, each call is on an open handle and
each handle is closed exactly once, unless `create` is called for a file that `fopen` opens for
reading. -/
theorem protocol_iff (readable : String → Bool) (origin : Origin) (filename : String)
    (uses : List Use) : Protocol readable (life origin filename uses) ↔
      ¬ (origin = .create ∧ readable filename = true) := by
  cases origin with
  | «open» =>
    refine ⟨?_, fun _ => protocol_open filename uses⟩
    rintro _ ⟨hcreate, -⟩
    cases hcreate
  | create =>
    cases hr : readable filename with
    | true => exact ⟨fun h => absurd h (not_protocol_create hr uses), fun h => absurd ⟨rfl, rfl⟩ h⟩
    | false =>
      refine ⟨?_, fun _ => protocol_create hr uses⟩
      rintro _ ⟨-, hsome⟩
      cases hsome

/-- A file that exists is to be created: a second upload with the id of another. -/
theorem not_protocol : ¬ Protocol (fun _ => true) (life .create "tmp/4" []) :=
  not_protocol_create rfl []

end FileHandles
end ZwayServer
