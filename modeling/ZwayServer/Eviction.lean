import ZwayServer.Op
import ZwayServer.Proc.Threads

/-!
# Eviction of idle buffers

`onTimer` takes the time once, under the lock of `m_buffers`, and drops every buffer whose
`lastActivity` lies more than 60 seconds before it.  The stamps are taken under locks of their
own, by any thread that reads or writes a buffer; the constructors set them to 0.

* `State`, `Point`, `bufferCode` — `m_buffers` and the buffers, the points of the threads, and
  their sections.
* `aged_iff` — when the unsigned difference of the two clocks is more than 60.
* `run_pass` — a pass that nobody disturbs is the step `evictBuffers` of the server.
* `onlyIdle_of_settled` — if every buffer that a pass looks at has been in use since it was
  made, not after the pass took the time, and is not used again before the pass ends, then only
  idle buffers are dropped.
* `not_onlyIdle` — a buffer is dropped as soon as it has been made, or while it is in use.
-/

namespace ZwayServer
namespace Eviction

open Threads

/-! ## The code -/

/-- What the timer sees of a `StreamBuffer`, and what only the statements look at: when it was
made, and when it was last read or written with success. -/
structure Buffer where
  streamId : UInt32
  lastActivity : UInt64 := 0
  made : UInt64
  used : Option UInt64 := none
  deriving DecidableEq, Inhabited

/-- A buffer that was dropped, and the time of the pass that dropped it. -/
structure Dropped where
  buffer : Buffer
  tick : UInt64
  deriving DecidableEq

/-- What the threads share.  `heap` are the buffers ever made, and `buffers` is `m_buffers`,
which refers to them. -/
structure State where
  heap : List Buffer := []
  buffers : Std.TreeMap UInt32 ℕ := ∅
  /-- The lock of `m_buffers` is held by a pass of the timer. -/
  locked : Bool := false
  /-- What passes of the timer have dropped so far. -/
  dropped : List Dropped := []

/-- Where a thread can be. -/
inductive Point where
  /-- `StreamBuffer::create`, for a stream. -/
  | create (id : UInt32)
  /-- `addStreamBuffer`. -/
  | add (ref : ℕ)
  /-- `getStreamBuffer`. -/
  | get (id : UInt32)
  /-- `removeStreamBuffer`. -/
  | remove (id : UInt32)
  /-- `StreamBuffer::read` or `write`, up to the access to the file. -/
  | use (ref : ℕ)
  /-- `StreamBuffer::read` or `write`, after the access has succeeded. -/
  | stamp (ref : ℕ)
  /-- `onTimer`, before it locks `m_buffers`. -/
  | timer
  /-- `onTimer`, in the loop that fills `remove`. -/
  | scan (t : UInt64) (todo : List ℕ) (remove : List ℕ)
  /-- `onTimer`, in the loop that empties `remove`. -/
  | erase (t : UInt64) (remove : List ℕ)
  deriving DecidableEq

/-- A buffer in the heap. -/
def State.buffer (s : State) (ref : ℕ) : Buffer := s.heap.getD ref default

/-- The constructors of `StreamBuffer`. -/
def newBuffer (id : UInt32) (now : UInt64) : Buffer := { streamId := id, made := now }

/-- `m_lastActivity = time(nullptr)`. -/
def Buffer.touch (now : UInt64) (b : Buffer) : Buffer :=
  { b with lastActivity := now, used := some now }

/-- The test of `onTimer`. -/
def Buffer.aged (t : UInt64) (b : Buffer) : Prop := t - b.lastActivity > 60

instance (t : UInt64) (b : Buffer) : Decidable (b.aged t) :=
  inferInstanceAs (Decidable (t - b.lastActivity > 60))

/-- The sections.  A thread that has to wait for the lock of `m_buffers` stays where it is;
`c.time` is what the clock shows. -/
def perform : Point → Choice → State → State × Option Point
  | .create id, c, s =>
    if c.fails then (s, none)
    else ({ s with heap := s.heap ++ [newBuffer id c.time] }, some (.add s.heap.length))
  | .add ref, _, s =>
    if s.locked then (s, some (.add ref))
    else if (s.buffer ref).streamId ∈ s.buffers then (s, none)
    else ({ s with buffers := s.buffers.insert (s.buffer ref).streamId ref }, none)
  | .get id, c, s =>
    if s.locked then (s, some (.get id))
    else if id ∈ s.buffers ∨ c.fails then (s, none)
    else ({ s with heap := s.heap ++ [newBuffer id c.time],
                   buffers := s.buffers.insert id s.heap.length }, none)
  | .remove id, _, s =>
    if s.locked then (s, some (.remove id)) else ({ s with buffers := s.buffers.erase id }, none)
  | .use ref, c, s => (s, if c.fails then none else some (.stamp ref))
  | .stamp ref, c, s => ({ s with heap := s.heap.modify ref (Buffer.touch c.time) }, none)
  | .timer, c, s =>
    if s.locked then (s, some .timer)
    else ({ s with locked := true }, some (.scan c.time (s.buffers.toList.map Prod.snd) []))
  | .scan t (ref :: todo) remove, _, s =>
    (s, some (.scan t todo (if (s.buffer ref).aged t then remove ++ [ref] else remove)))
  | .scan t [] remove, _, s => (s, some (.erase t remove))
  | .erase t (ref :: remove), _, s =>
    ({ s with buffers := s.buffers.erase (s.buffer ref).streamId,
              dropped := s.dropped ++ [⟨s.buffer ref, t⟩] }, some (.erase t remove))
  | .erase _ [], _, s => ({ s with locked := false }, none)

/-- Buffers are created, looked up, removed and used at any time, and the timer fires at any
time.  Whoever uses a buffer has a pointer to it, whether it is in `m_buffers` or not. -/
def enter : Point → State → Option State
  | .create _, s => some s
  | .get _, s => some s
  | .remove _, s => some s
  | .use ref, s => if ref < s.heap.length then some s else none
  | .timer, s => some s
  | _, _ => none

/-- The code around `m_buffers`. -/
def bufferCode : Code State Point Choice where
  enter := enter
  perform := perform

/-- Where a run leads that starts with an empty map. -/
abbrev bufferAfter (ms : List (Move Point Choice)) : Config State Point := after bufferCode {} ms

/-! ## A pass that nobody disturbs -/

/-- The buffers of the server, as the timer sees them. -/
def ofServer (σ : ServerState) : State where
  heap := σ.heap.map fun b =>
    { streamId := b.streamId, lastActivity := b.lastActivity, made := 0 }
  buffers := σ.buffers

theorem buffer_ofServer (σ : ServerState) (ref : ℕ) :
    ((ofServer σ).buffer ref).streamId = (σ.heap.getD ref default).streamId ∧
      ((ofServer σ).buffer ref).lastActivity = (σ.heap.getD ref default).lastActivity := by
  simp only [State.buffer, ofServer, List.getD_eq_getElem?_getD, List.getElem?_map]
  cases σ.heap[ref]? <;> exact ⟨rfl, rfl⟩

theorem alone_erase (t : UInt64) (remove : List ℕ) (s : State) :
    ∃ s', Alone bufferCode (.erase t remove) s s' ∧ s'.heap = s.heap ∧
      s'.buffers = remove.foldl (fun m ref => m.erase (s.buffer ref).streamId) s.buffers := by
  induction remove generalizing s with
  | nil => exact ⟨_, .return (c := {}) rfl, rfl, rfl⟩
  | cons ref remove ih =>
    obtain ⟨s', hrest, hheap, hbuffers⟩ :=
      ih (perform (.erase t (ref :: remove)) {} s).1
    exact ⟨s', .go (c := {}) rfl hrest, hheap, hbuffers⟩

theorem alone_scan (t : UInt64) (todo remove : List ℕ) (s : State) :
    ∃ s', Alone bufferCode (.scan t todo remove) s s' ∧
      s'.buffers = (remove ++ todo.filter fun ref => (s.buffer ref).aged t).foldl
        (fun m ref => m.erase (s.buffer ref).streamId) s.buffers := by
  induction todo generalizing remove with
  | nil =>
    obtain ⟨s', hrest, -, hbuffers⟩ := alone_erase t remove s
    rw [List.filter_nil, List.append_nil]
    exact ⟨s', .go (c := {}) rfl hrest, hbuffers⟩
  | cons ref todo ih =>
    obtain ⟨s', hrest, hbuffers⟩ := ih (if (s.buffer ref).aged t then remove ++ [ref] else remove)
    refine ⟨s', .go (c := {}) rfl hrest, ?_⟩
    rw [hbuffers, List.filter_cons]
    by_cases haged : (s.buffer ref).aged t
    · rw [if_pos haged, if_pos (decide_eq_true haged), List.append_assoc, List.singleton_append]
    · rw [if_neg haged, if_neg (by simpa using haged)]

/-- **A pass is the step of the server.**  If no other thread moves, the sections of a pass leave
in `m_buffers` what `evictBuffers` leaves there. -/
theorem run_pass (env : Env) (σ : ServerState) (c c' : Choice) :
    ∃ s', Alone bufferCode .timer (ofServer σ) s' ∧
      s'.buffers = (exec env (.evictBuffers c.time) c' σ).2.buffers := by
  obtain ⟨s', hrest, hbuffers⟩ :=
    alone_scan c.time (σ.buffers.toList.map Prod.snd) [] { ofServer σ with locked := true }
  refine ⟨s', .go (c := c) rfl hrest, ?_⟩
  have hsame : ∀ ref,
      State.buffer { ofServer σ with locked := true } ref = (ofServer σ).buffer ref := fun _ => rfl
  rw [hbuffers, List.nil_append, List.filter_map, List.foldl_map]
  simp only [exec, hsame, buffer_ofServer, Buffer.aged, Function.comp_def]
  rfl

/-! ## Idle buffers -/

/-- The later of the making of a buffer and its last use. -/
def Buffer.since (b : Buffer) : ℕ := max b.made.toNat (b.used.elim 0 UInt64.toNat)

/-- More than 60 seconds lie between that and `t`. -/
def Buffer.Idle (t : UInt64) (b : Buffer) : Prop := b.since + 60 < t.toNat

instance (t : UInt64) (b : Buffer) : Decidable (b.Idle t) :=
  inferInstanceAs (Decidable (_ < _))

/-- Only idle buffers have been dropped. -/
def OnlyIdle (s : State) : Prop := ∀ d ∈ s.dropped, d.buffer.Idle d.tick

instance (s : State) : Decidable (OnlyIdle s) := inferInstanceAs (Decidable (∀ d ∈ s.dropped, _))

/-- The buffers that a pass has found idle, and its time. -/
def Point.marks : Point → List (ℕ × UInt64)
  | .scan t _ found => found.map fun ref => (ref, t)
  | .erase t found => found.map fun ref => (ref, t)
  | _ => []

/-- A pass that finds a buffer aged does not look at a stamp from after its own time, nor at one
from before the buffer was made less than a minute ago; and a buffer that it has found aged is
not used until the pass is over. -/
def Settled : Move Point Choice → Config State Point → Prop
  | .proceed (.scan t (ref :: _) _) _, X =>
    let b := X.shared.buffer ref
    b.aged t → b.lastActivity ≤ t ∧ (b.made ≤ b.lastActivity ∨ b.made.toNat + 60 < t.toNat)
  | .proceed (.stamp ref) c, X =>
    ∀ p ∈ X.points, ∀ m ∈ p.marks, m.1 = ref → c.time.toNat + 60 < m.2.toNat
  | _, _ => True

instance : (m : Move Point Choice) → (X : Config State Point) → Decidable (Settled m X)
  | .proceed (.scan _ (_ :: _) _) _, _ => inferInstanceAs (Decidable (_ → _ ∧ (_ ∨ _)))
  | .proceed (.stamp ref) c, X =>
    inferInstanceAs (Decidable
      (∀ p ∈ X.points, ∀ m ∈ p.marks, m.1 = ref → c.time.toNat + 60 < m.2.toNat))
  | .proceed (.scan _ [] _) _, _ => instDecidableTrue
  | .proceed (.create _) _, _ => instDecidableTrue
  | .proceed (.add _) _, _ => instDecidableTrue
  | .proceed (.get _) _, _ => instDecidableTrue
  | .proceed (.remove _) _, _ => instDecidableTrue
  | .proceed (.use _) _, _ => instDecidableTrue
  | .proceed .timer _, _ => instDecidableTrue
  | .proceed (.erase _ _) _, _ => instDecidableTrue
  | .begin _, _ => instDecidableTrue

/-! ## What holds along a run -/

/-- The stamp is the time of the last use, and 0 before the first one. -/
def Buffer.Stamped (b : Buffer) : Prop := b.lastActivity = b.used.getD 0

/-- The buffers that a thread has pointers to. -/
def Point.refs : Point → List ℕ
  | .add ref => [ref]
  | .use ref => [ref]
  | .stamp ref => [ref]
  | .scan _ todo found => todo ++ found
  | .erase _ found => found
  | _ => []

/-- What a thread has pointers to exists, and what it has found aged is idle. -/
structure Point.Fine (s : State) (p : Point) : Prop where
  refs : ∀ ref ∈ p.refs, ref < s.heap.length
  marks : ∀ m ∈ p.marks, (s.buffer m.1).Idle m.2

/-- The invariant of the shared state. -/
structure State.Fine (s : State) : Prop where
  stamped : ∀ ref, (s.buffer ref).Stamped
  buffers : ∀ (id : UInt32) (ref : ℕ), s.buffers[id]? = some ref → ref < s.heap.length
  onlyIdle : OnlyIdle s

/-- Buffers have been made, and none was changed. -/
structure Extends (s s' : State) : Prop where
  length : s.heap.length ≤ s'.heap.length
  buffer : ∀ ref < s.heap.length, s'.buffer ref = s.buffer ref

theorem Extends.of_heap {s s' : State} (h : s'.heap = s.heap) : Extends s s' := by
  refine ⟨?_, ?_⟩
  · rw [h]
  · intro ref _
    rw [State.buffer, State.buffer, h]

theorem Extends.append {s s' : State} {b : Buffer} (h : s'.heap = s.heap ++ [b]) :
    Extends s s' := by
  refine ⟨?_, ?_⟩
  · rw [h, List.length_append]
    omega
  · intro ref href
    rw [State.buffer, State.buffer, h, List.getD_append _ _ _ _ href]

theorem Point.marks_subset_refs {p : Point} {m : ℕ × UInt64} (h : m ∈ p.marks) : m.1 ∈ p.refs := by
  cases p with
  | scan t todo found =>
    obtain ⟨ref, href, rfl⟩ := List.mem_map.mp h
    exact List.mem_append_right _ href
  | erase t found =>
    obtain ⟨ref, href, rfl⟩ := List.mem_map.mp h
    exact href
  | _ => cases h

/-- Making buffers does not concern a thread. -/
theorem Point.Fine.mono {s s' : State} {p : Point} (h : p.Fine s) (hext : Extends s s') :
    p.Fine s' := by
  refine ⟨?_, ?_⟩
  · intro ref href
    exact (h.refs ref href).trans_le hext.length
  · intro m hm
    rw [hext.buffer m.1 (h.refs m.1 (marks_subset_refs hm))]
    exact h.marks m hm

/-- Only a stamp changes a buffer. -/
theorem perform_extends {p : Point} (hp : ∀ ref, p ≠ .stamp ref) (c : Choice) (s : State) :
    Extends s (perform p c s).1 := by
  cases p with
  | create id =>
    rw [perform]
    split
    · exact .of_heap rfl
    · exact .append rfl
  | get id =>
    rw [perform]
    split
    · exact .of_heap rfl
    · split
      · exact .of_heap rfl
      · exact .append rfl
  | add ref =>
    rw [perform]
    split
    · exact .of_heap rfl
    · split <;> exact .of_heap rfl
  | remove id =>
    rw [perform]
    split <;> exact .of_heap rfl
  | use ref => exact .of_heap rfl
  | stamp ref => exact absurd rfl (hp ref)
  | timer =>
    rw [perform]
    split <;> exact .of_heap rfl
  | scan t todo remove => cases todo <;> exact .of_heap rfl
  | erase t remove => cases remove <;> exact .of_heap rfl

/-! ### The stamps -/

theorem buffer_append (s : State) (b : Buffer) (ref : ℕ) :
    (s.heap ++ [b]).getD ref default = if ref = s.heap.length then b else s.buffer ref := by
  rcases Nat.lt_trichotomy ref s.heap.length with hlt | heq | hgt
  · rw [List.getD_append _ _ _ _ hlt, if_neg (by omega), State.buffer]
  · rw [if_pos heq, List.getD_append_right _ _ _ _ heq.ge, heq, Nat.sub_self, List.getD_cons_zero]
  · have hlen : (s.heap ++ [b]).length ≤ ref := by
      rw [List.length_append, List.length_singleton]
      omega
    rw [if_neg (by omega), List.getD_eq_default _ _ hlen, State.buffer,
      List.getD_eq_default _ _ hgt.le]

theorem stamped_append {s : State} (h : ∀ ref, (s.buffer ref).Stamped) (id : UInt32) (now : UInt64)
    (ref : ℕ) : ((s.heap ++ [newBuffer id now]).getD ref default).Stamped := by
  rw [buffer_append]
  split
  · rfl
  · exact h ref

theorem buffer_modify (s : State) (now : UInt64) (ref ref' : ℕ) :
    (s.heap.modify ref (Buffer.touch now)).getD ref' default =
      if ref' = ref ∧ ref < s.heap.length then (s.buffer ref').touch now else s.buffer ref' := by
  simp only [State.buffer, List.getD_eq_getElem?_getD, List.getElem?_modify]
  by_cases hlt : ref' < s.heap.length
  · rw [List.getElem?_eq_getElem hlt]
    by_cases heq : ref = ref'
    · subst heq
      simp [hlt]
    · simp [heq, Ne.symm heq]
  · rw [List.getElem?_eq_none (not_lt.mp hlt)]
    have hne : ¬ (ref' = ref ∧ ref < s.heap.length) := by
      rintro ⟨rfl, h⟩
      exact hlt h
    rw [if_neg hne]
    rfl

theorem stamped_modify {s : State} (h : ∀ ref, (s.buffer ref).Stamped) (now : UInt64)
    (ref ref' : ℕ) : ((s.heap.modify ref (Buffer.touch now)).getD ref' default).Stamped := by
  rw [buffer_modify]
  split
  · rfl
  · exact h ref'

/-! ### What a section does -/

variable {s : State} {w : Multiset Point} {p : Point} {c : Choice}

/-- The other threads do not mind a section that meets the condition. -/
theorem others_perform (hok : Settled (.proceed p c) ⟨s, p ::ₘ w⟩) (hw : ∀ q ∈ w, q.Fine s) :
    ∀ q ∈ w, q.Fine (perform p c s).1 := by
  intro q hq
  by_cases hp : ∀ ref, p ≠ .stamp ref
  · exact (hw q hq).mono (perform_extends hp c s)
  · obtain ⟨ref, rfl⟩ : ∃ ref, p = .stamp ref := by
      push Not at hp
      exact hp
    refine ⟨?_, ?_⟩
    · intro ref' href
      show ref' < (s.heap.modify ref _).length
      rw [List.length_modify]
      exact (hw q hq).refs ref' href
    · intro m hm
      show Buffer.Idle m.2 ((s.heap.modify ref _).getD m.1 default)
      rw [buffer_modify]
      split
      · next heq =>
        -- the buffer is marked, so the stamp must be an old one
        have hold : max (s.buffer m.1).made.toNat _ + 60 < m.2.toNat := (hw q hq).marks m hm
        have hnow : c.time.toNat + 60 < m.2.toNat :=
          hok q (Multiset.mem_cons_of_mem hq) m hm heq.1
        show max (s.buffer m.1).made.toNat c.time.toNat + 60 < m.2.toNat
        omega
      · exact (hw q hq).marks m hm

/-- The unsigned difference is that of the clocks, unless the stamp is the later one. -/
theorem aged_iff (t : UInt64) (b : Buffer) : b.aged t ↔ b.lastActivity.toNat + 60 < t.toNat ∨
    t.toNat < b.lastActivity.toNat ∧ b.lastActivity.toNat < t.toNat + (2 ^ 64 - 60) := by
  have ht := t.toNat_lt
  have hb := b.lastActivity.toNat_lt
  have haged : b.aged t ↔ 60 < (t - b.lastActivity).toNat := UInt64.lt_iff_toNat_lt
  rw [haged, UInt64.toNat_sub]
  omega

/-- A buffer that is found aged is idle. -/
theorem idle_of_aged {t : UInt64} {b : Buffer} (hst : b.Stamped) (haged : b.aged t)
    (hsettled : b.lastActivity ≤ t ∧ (b.made ≤ b.lastActivity ∨ b.made.toNat + 60 < t.toNat)) :
    b.Idle t := by
  obtain ⟨hle, hmade⟩ := hsettled
  have hle' : b.lastActivity.toNat ≤ t.toNat := UInt64.le_iff_toNat_le.mp hle
  have hgap : b.lastActivity.toNat + 60 < t.toNat := by
    rcases (aged_iff t b).mp haged with hgap | ⟨hlt, -⟩
    · exact hgap
    · omega
  have hold : b.made.toNat + 60 < t.toNat := by
    rcases hmade with hmade | hmade
    · have hmade' := UInt64.le_iff_toNat_le.mp hmade
      omega
    · exact hmade
  have hused : b.used.elim 0 UInt64.toNat = b.lastActivity.toNat := by
    rw [hst]
    cases b.used <;> rfl
  rw [Buffer.Idle, Buffer.since, hused]
  omega

/-- A thread without pointers. -/
theorem Point.Fine.of_nil (href : p.refs = []) : p.Fine s := by
  refine ⟨?_, ?_⟩
  · intro ref h
    rw [href] at h
    cases h
  · intro m hm
    have h := marks_subset_refs hm
    rw [href] at h
    cases h

/-- The next point of a thread is fine. -/
theorem fine_next (hs : s.Fine) (hp : p.Fine s) (hok : Settled (.proceed p c) ⟨s, p ::ₘ w⟩) :
    ∀ q ∈ (perform p c s).2, q.Fine (perform p c s).1 := by
  intro q hq
  cases p with
  | create id =>
    by_cases hf : c.fails = true
    · rw [perform, if_pos hf] at hq
      cases hq
    · rw [perform, if_neg hf] at hq ⊢
      cases hq
      refine ⟨?_, by intro m hm; cases hm⟩
      intro ref href
      rw [List.mem_singleton.mp href, List.length_append, List.length_singleton]
      omega
  | add ref =>
    by_cases hl : s.locked = true
    · rw [perform, if_pos hl] at hq ⊢
      cases hq
      exact hp
    · rw [perform, if_neg hl] at hq
      split at hq <;> cases hq
  | get id =>
    by_cases hl : s.locked = true
    · rw [perform, if_pos hl] at hq ⊢
      cases hq
      exact hp
    · rw [perform, if_neg hl] at hq
      split at hq <;> cases hq
  | remove id =>
    by_cases hl : s.locked = true
    · rw [perform, if_pos hl] at hq ⊢
      cases hq
      exact hp
    · rw [perform, if_neg hl] at hq
      cases hq
  | use ref =>
    simp only [perform] at hq ⊢
    split at hq
    · cases hq
    · cases hq
      exact ⟨hp.refs, by intro m hm; cases hm⟩
  | stamp ref => cases hq
  | timer =>
    by_cases hl : s.locked = true
    · rw [perform, if_pos hl] at hq ⊢
      cases hq
      exact hp
    · rw [perform, if_neg hl] at hq ⊢
      cases hq
      refine ⟨?_, by intro m hm; cases hm⟩
      intro ref href
      rw [Point.refs, List.append_nil] at href
      obtain ⟨it, hit, rfl⟩ := List.mem_map.mp href
      exact hs.buffers it.1 it.2 (Std.TreeMap.mem_toList_iff_getElem?_eq_some.mp hit)
  | scan t todo found =>
    cases todo with
    | nil =>
      cases hq
      exact ⟨hp.refs, hp.marks⟩
    | cons ref todo =>
      cases hq
      have href : ref < s.heap.length := hp.refs ref (by simp [Point.refs])
      refine ⟨?_, ?_⟩
      · intro ref' href'
        rw [Point.refs, List.mem_append] at href'
        rcases href' with htodo | hfound
        · exact hp.refs ref' (by simp [Point.refs, htodo])
        · split at hfound
          · rcases List.mem_append.mp hfound with hfound | hnew
            · exact hp.refs ref' (by simp [Point.refs, hfound])
            · rw [List.mem_singleton.mp hnew]
              exact href
          · exact hp.refs ref' (by simp [Point.refs, hfound])
      · intro m hm
        obtain ⟨ref', href', rfl⟩ := List.mem_map.mp hm
        split at href'
        · next haged =>
          rcases List.mem_append.mp href' with hfound | hnew
          · exact hp.marks (ref', t) (List.mem_map_of_mem hfound)
          · rw [List.mem_singleton.mp hnew]
            exact idle_of_aged (hs.stamped ref) haged (hok haged)
        · exact hp.marks (ref', t) (List.mem_map_of_mem href')
  | erase t found =>
    cases found with
    | nil => cases hq
    | cons ref found =>
      cases hq
      refine ⟨?_, ?_⟩
      · intro ref' href'
        exact hp.refs ref' (List.mem_cons_of_mem _ href')
      · intro m hm
        exact hp.marks m (List.mem_cons_of_mem _ hm)

/-- A section keeps the invariant of the shared state. -/
theorem fine_shared (hs : s.Fine) (hp : p.Fine s) : (perform p c s).1.Fine := by
  cases p with
  | create id =>
    rw [perform]
    split
    · exact hs
    · refine ⟨stamped_append hs.stamped id c.time, ?_, hs.onlyIdle⟩
      intro id' ref href
      rw [List.length_append]
      exact Nat.lt_add_right _ (hs.buffers id' ref href)
  | add ref =>
    rw [perform]
    split
    · exact hs
    · split
      · exact hs
      · refine ⟨hs.stamped, ?_, hs.onlyIdle⟩
        intro id' ref' href
        dsimp only at href
        rw [Std.TreeMap.getElem?_insert] at href
        split at href
        · cases href
          exact hp.refs ref (List.mem_singleton_self ref)
        · exact hs.buffers id' ref' href
  | get id =>
    rw [perform]
    split
    · exact hs
    · split
      · exact hs
      · refine ⟨stamped_append hs.stamped id c.time, ?_, hs.onlyIdle⟩
        intro id' ref' href
        dsimp only at href ⊢
        rw [Std.TreeMap.getElem?_insert] at href
        rw [List.length_append, List.length_singleton]
        split at href
        · cases href
          omega
        · exact Nat.lt_add_right _ (hs.buffers id' ref' href)
  | remove id =>
    rw [perform]
    split
    · exact hs
    · refine ⟨hs.stamped, ?_, hs.onlyIdle⟩
      intro id' ref' href
      dsimp only at href
      rw [Std.TreeMap.getElem?_erase] at href
      split at href
      · cases href
      · exact hs.buffers id' ref' href
  | use ref => exact hs
  | stamp ref =>
    refine ⟨stamped_modify hs.stamped c.time ref, ?_, hs.onlyIdle⟩
    intro id' ref' href
    show ref' < (s.heap.modify ref _).length
    rw [List.length_modify]
    exact hs.buffers id' ref' href
  | timer =>
    rw [perform]
    split
    · exact hs
    · exact ⟨hs.stamped, hs.buffers, hs.onlyIdle⟩
  | scan t todo found => cases todo <;> exact hs
  | erase t found =>
    cases found with
    | nil => exact ⟨hs.stamped, hs.buffers, hs.onlyIdle⟩
    | cons ref found =>
      refine ⟨hs.stamped, ?_, ?_⟩
      · intro id' ref' href
        dsimp only [perform] at href
        rw [Std.TreeMap.getElem?_erase] at href
        split at href
        · cases href
        · exact hs.buffers id' ref' href
      · intro d hd
        rcases List.mem_append.mp hd with hold | hnew
        · exact hs.onlyIdle d hold
        · rw [List.mem_singleton.mp hnew]
          exact hp.marks (ref, t) (List.mem_cons_self ..)

/-- A thread that begins has found nothing aged. -/
theorem fine_enter {s' : State} (h : enter p s = some s') : s' = s ∧ p.Fine s := by
  cases p with
  | create | get | remove | timer =>
    cases h
    exact ⟨rfl, .of_nil rfl⟩
  | use ref =>
    have hif : (if ref < s.heap.length then some s else none) = some s' := h
    obtain ⟨hlt, hs⟩ := Option.ite_none_right_eq_some.mp hif
    refine ⟨(Option.some.inj hs).symm, ?_, by intro m hm; cases hm⟩
    intro ref' href
    rw [List.mem_singleton.mp href]
    exact hlt
  | _ => cases h

/-- **Eviction only of idle buffers.**  In every run in which a pass of the timer, where it finds
a buffer aged, has not met a stamp from after its own time, nor a buffer made less than a minute
ago that has not been used since, and in which what it has found aged is not used until it is
over, only idle buffers are dropped. -/
theorem onlyIdle_of_settled (ms : List (Move Point Choice))
    (h : Meets bufferCode Settled {} ms) : OnlyIdle (bufferAfter ms).shared := by
  have hinv : State.Fine (bufferAfter ms).shared ∧
      ∀ q ∈ (bufferAfter ms).points, q.Fine (bufferAfter ms).shared := by
    refine h.invariant (I := fun s w => State.Fine s ∧ ∀ q ∈ w, q.Fine s) ?_ ?_ ?_
    · refine ⟨⟨fun ref => rfl, ?_, ?_⟩, ?_⟩
      · intro id ref href
        simp at href
      · intro d hd
        cases hd
      · intro q hq
        exact absurd hq (Multiset.notMem_zero q)
    · rintro p s s' w - ⟨hs, hw⟩ henter
      obtain ⟨rfl, hp⟩ := fine_enter henter
      refine ⟨hs, ?_⟩
      intro q hq
      rcases Multiset.mem_cons.mp hq with rfl | hq
      · exact hp
      · exact hw q hq
    · rintro p c s w hok ⟨hs, hw⟩
      have hp : p.Fine s := hw p (Multiset.mem_cons_self p w)
      have hothers := others_perform hok fun q hq => hw q (Multiset.mem_cons_of_mem hq)
      have hnext := fine_next hs hp hok
      refine ⟨fine_shared hs hp, ?_⟩
      intro q hq
      cases hgo : (perform p c s).2 with
      | none =>
        rw [show (bufferCode.perform p c s).2 = none from hgo] at hq
        exact hothers q hq
      | some p' =>
        rw [show (bufferCode.perform p c s).2 = some p' from hgo] at hq
        rcases Multiset.mem_cons.mp hq with rfl | hq
        · exact hnext q hgo
        · exact hothers q hq
  exact hinv.1.onlyIdle

/-- The sections of a thread that moves alone from the time `t` on, newest first. -/
def sections (t : UInt64) (points : List Point) : List (Move Point Choice) :=
  (points.map fun p => .proceed p { time := t }).reverse

/-- A buffer is made for the stream 4 at the time 100, and used at the time 110. -/
def sampleUse : List (Move Point Choice) :=
  sections 110 [.use 0, .stamp 0] ++ .begin (.use 0) ::
    sections 100 [.create 4, .add 0] ++ [.begin (.create 4)]

/-- The timer looks at it at the time 200. -/
def samplePass : List (Move Point Choice) :=
  sections 200 [.timer, .scan 200 [0] [], .scan 200 [] [0], .erase 200 [0], .erase 200 []] ++
    .begin .timer :: sampleUse

theorem onlyIdle_samplePass : OnlyIdle (bufferAfter samplePass).shared ∧
    (bufferAfter samplePass).shared.dropped.length = 1 :=
  ⟨onlyIdle_of_settled samplePass (by decide +kernel), by decide +kernel⟩

/-- A sender has the file of the stream 4 opened again at the time 1000, in which the timer
fires. -/
def loadedRun : List (Move Point Choice) :=
  sections 1000 [.timer, .scan 1000 [0] [], .scan 1000 [] [0], .erase 1000 [0]] ++
    .begin .timer :: sections 1000 [.get 4] ++ [.begin (.get 4)]

/-- The timer takes the time 150, and before it looks at the buffer, that is used at 151. -/
def laterRun : List (Move Point Choice) :=
  sections 150 [.scan 150 [0] [], .scan 150 [] [0], .erase 150 [0]] ++
    sections 151 [.use 0, .stamp 0] ++ .begin (.use 0) ::
    sections 150 [.timer] ++ .begin .timer :: sampleUse

/-- A buffer is loaded at the time 100; the timer has found it aged at the time 200, and before
it drops it, it is used. -/
def betweenRun : List (Move Point Choice) :=
  sections 200 [.erase 200 [0]] ++ sections 200 [.use 0, .stamp 0] ++ .begin (.use 0) ::
    sections 200 [.timer, .scan 200 [0] [], .scan 200 [] [0]] ++ .begin .timer ::
    sections 100 [.get 4] ++ [.begin (.get 4)]

/-- A buffer is dropped in the second in which it was loaded, and another while it is in use,
because its stamp is later than the time of the pass or comes after the test. -/
theorem not_onlyIdle : ¬ OnlyIdle (bufferAfter loadedRun).shared ∧
    ¬ OnlyIdle (bufferAfter laterRun).shared ∧ ¬ OnlyIdle (bufferAfter betweenRun).shared := by
  refine ⟨?_, ?_, ?_⟩
  · decide +kernel
  · decide +kernel
  · decide +kernel

end Eviction
end ZwayServer
