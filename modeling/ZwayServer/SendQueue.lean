import ZwayServer.Proc.Threads

/-!
# The send queue of a session

`sendPacket` tests the flag `m_sending` in one critical section, takes a packet off
`m_packetQueue` in another, sets the flag in a third, and starts the write after that.  It
is called by `postPacket`, by `addStreamSender`, by the timer of the server and by the
completion of every write, on all threads of the pool.

* `Sender`, `Point`, `sendCode` — the shared fields, the points, and the sections.
* `OneWrite` — one write at a time, of the packets in the order in which they came.
* `oneWrite_of_undisturbed` — so it is as long as no packet is taken while another is
  between the queue and the completion of its write; `not_oneWrite_race` is a schedule of
  two calls in which it is not.
* `never_stalls` — whatever the schedule, a queue that is not empty is being worked on.
-/

namespace ZwayServer
namespace SendQueue

open Threads

variable {Packet : Type}

/-! ## The code -/

/-- What the threads share of a session: the flag, the queue, and the writes.  A `PACKET` is
a pointer, so what is in the queue may be null. -/
structure Sender (Packet : Type) where
  /-- `m_sending`. -/
  sending : Bool := false
  /-- `m_packetQueue`. -/
  packetQueue : List (Option Packet) := []
  /-- The packets whose `async_write` has been started and whose completion is not yet being
  handled. -/
  outstanding : List Packet := []
  /-- All that has entered the queue, oldest first. -/
  entered : List (Option Packet) := []
  /-- All that has been handed to `async_write`, oldest first. -/
  written : List Packet := []

/-- Where a thread can be. -/
inductive Point (Packet : Type) where
  /-- `sendPacket`, before the flag is tested. -/
  | test
  /-- `sendPacket`, before the queue is locked. -/
  | take
  /-- `sendPacket`, with a packet in hand, before the flag is set. -/
  | set (pkt : Packet)
  /-- `sendPacket`, before `async_write` is called. -/
  | write (pkt : Packet)
  /-- `postPacket`. -/
  | push (pkt : Option Packet)
  /-- `addStreamSender`, in the call of the engine. -/
  | add
  /-- `onPacketSent`, called with or without an error, before the flag is cleared. -/
  | sent (pkt : Packet)
  deriving DecidableEq

/-- What is up to the engine. -/
structure Answer (Packet : Type) where
  /-- What `processStreamSenders` passes to its callback. -/
  made : List (Option Packet) := []
  /-- Whether `Engine::addStreamSender` takes the sender. -/
  added : Bool := true
  deriving DecidableEq

/-- An empty queue is filled by the stream senders. -/
def Sender.refill (made : List (Option Packet)) (s : Sender Packet) : Sender Packet :=
  if s.packetQueue = [] then { s with packetQueue := made, entered := s.entered ++ made } else s

/-- The packet that the second section of `sendPacket` takes off the queue, if any. -/
def Sender.front (made : List (Option Packet)) (s : Sender Packet) : Option Packet :=
  (s.refill made).packetQueue.head?.join

variable [DecidableEq Packet]

/-- Calls of `sendPacket`, `postPacket` and `addStreamSender` come at any time, and
`onPacketSent` is called once for each write. -/
def enter : Point Packet → Sender Packet → Option (Sender Packet)
  | .test, s => some s
  | .push _, s => some s
  | .add, s => some s
  | .sent pkt, s =>
    if pkt ∈ s.outstanding then some { s with outstanding := s.outstanding.erase pkt } else none
  | _, _ => none

/-- The sections of `ClientSession::sendPacket`, `postPacket`, `addStreamSender` and
`onPacketSent`. -/
def perform : Point Packet → Answer Packet → Sender Packet → Sender Packet × Option (Point Packet)
  | .test, _, s => if s.sending then (s, none) else (s, some .take)
  | .take, c, s =>
    let s' := s.refill c.made
    ({ s' with packetQueue := s'.packetQueue.tail }, (s.front c.made).map .set)
  | .set pkt, _, s => ({ s with sending := true }, some (.write pkt))
  | .write pkt, _, s =>
    ({ s with outstanding := s.outstanding ++ [pkt], written := s.written ++ [pkt] }, none)
  | .push none, _, s => (s, none)
  | .push (some pkt), _, s =>
    ({ s with packetQueue := s.packetQueue ++ [some pkt], entered := s.entered ++ [some pkt] },
      some .test)
  | .add, c, s => (s, if c.added then some .test else none)
  | .sent _, _, s => ({ s with sending := false }, some .test)

/-- The code by which one session sends. -/
def sendCode : Code (Sender Packet) (Point Packet) (Answer Packet) where
  enter := enter
  perform := perform

/-- Where a run of the code leads. -/
abbrev sendAfter (ms : List (Move (Point Packet) (Answer Packet))) :
    Config (Sender Packet) (Point Packet) :=
  after sendCode {} ms

/-! ## What the points hold -/

/-- The packet that has been taken, while the flag is not set for it. -/
@[simp] def Point.picked : Point Packet → Multiset Packet
  | .set pkt => {pkt}
  | _ => 0

/-- The packet that is about to be handed to `async_write`. -/
@[simp] def Point.handing : Point Packet → Multiset Packet
  | .write pkt => {pkt}
  | _ => 0

/-- The packet whose completion is being handled. -/
@[simp] def Point.reporting : Point Packet → Multiset Packet
  | .sent pkt => {pkt}
  | _ => 0

/-! ## One write at a time -/

/-- At most one write is outstanding, and what has been handed to `async_write` is what
entered the queue first, in that order. -/
def OneWrite (s : Sender Packet) : Prop :=
  s.outstanding.length ≤ 1 ∧ s.written <+: s.entered.reduceOption

instance (s : Sender Packet) : Decidable (OneWrite s) := by
  unfold OneWrite
  infer_instance

/-- If the move takes a packet off the queue, the flag is still clear, and no other thread has
a packet for which it has not set it yet. -/
def Undisturbed : Move (Point Packet) (Answer Packet) → Config (Sender Packet) (Point Packet) → Prop
  | .proceed .take c, X => X.shared.front c.made ≠ none →
      X.shared.sending = false ∧ X.points.bind Point.picked = 0
  | _, _ => True

instance (m : Move (Point Packet) (Answer Packet)) (X : Config (Sender Packet) (Point Packet)) :
    Decidable (Undisturbed m X) := by
  unfold Undisturbed
  split <;> infer_instance

/-- What holds as long as no move disturbs another, of the packets that are picked, about to
be handed over, and reported as sent. -/
structure Orderly (s : Sender Packet) (picked handing reporting : Multiset Packet) : Prop where
  /-- With the flag clear, nothing is written, and at most one packet is about to be. -/
  idle : s.sending = false →
    handing = 0 ∧ reporting = 0 ∧ s.outstanding = [] ∧ picked.card ≤ 1
  /-- With the flag set, it is set for one packet. -/
  busy : s.sending = true →
    handing.card + reporting.card + s.outstanding.length = 1 ∧ picked = 0
  /-- Every packet that entered was written, is in the hands of a thread or in the queue. -/
  order : ∃ l : List Packet, (l : Multiset Packet) = picked + handing ∧
    s.entered.reduceOption = s.written ++ l ++ s.packetQueue.reduceOption

/-- `Orderly` for the threads at the given points. -/
def OrderlyAt (s : Sender Packet) (w : Multiset (Point Packet)) : Prop :=
  Orderly s (w.bind Point.picked) (w.bind Point.handing) (w.bind Point.reporting)

omit [DecidableEq Packet] in
theorem orderlyAt_cons {s : Sender Packet} {p : Point Packet} {w : Multiset (Point Packet)} :
    OrderlyAt s (p ::ₘ w) ↔ Orderly s (p.picked + w.bind Point.picked)
      (p.handing + w.bind Point.handing) (p.reporting + w.bind Point.reporting) := by
  rw [OrderlyAt, Multiset.cons_bind, Multiset.cons_bind, Multiset.cons_bind]

section Steps

variable {s : Sender Packet} {picked handing reporting : Multiset Packet}

omit [DecidableEq Packet]

/-- What is in the queue after it was filled, and what has entered it. -/
theorem refill_order (made : List (Option Packet)) {l : List Packet}
    (h : s.entered.reduceOption = s.written ++ l ++ s.packetQueue.reduceOption) :
    (s.refill made).entered.reduceOption =
      s.written ++ l ++ (s.refill made).packetQueue.reduceOption := by
  unfold Sender.refill
  split
  · next hq =>
    rw [hq] at h
    simp only [List.reduceOption_append, h, List.reduceOption_nil, List.append_nil]
  · exact h

@[simp] theorem refill_sending (made : List (Option Packet)) :
    (s.refill made).sending = s.sending := by
  unfold Sender.refill
  split <;> rfl

@[simp] theorem refill_outstanding (made : List (Option Packet)) :
    (s.refill made).outstanding = s.outstanding := by
  unfold Sender.refill
  split <;> rfl

@[simp] theorem refill_written (made : List (Option Packet)) :
    (s.refill made).written = s.written := by
  unfold Sender.refill
  split <;> rfl

/-- The queue begins with the packet that is taken, if there is one. -/
theorem reduceOption_eq_front (made : List (Option Packet)) :
    (s.refill made).packetQueue.reduceOption =
      (s.front made).toList ++ (s.refill made).packetQueue.tail.reduceOption := by
  unfold Sender.front
  cases (s.refill made).packetQueue with
  | nil => rfl
  | cons x q => cases x <;> rfl

/-- A packet is taken off the queue while nothing else is under way. -/
theorem Orderly.take (h : Orderly s picked handing reporting) (made : List (Option Packet))
    (hfree : s.front made ≠ none → s.sending = false ∧ picked = 0) :
    Orderly { s.refill made with packetQueue := (s.refill made).packetQueue.tail }
      (((s.front made).toList : Multiset Packet) + picked) handing reporting := by
  obtain ⟨l, hl, horder⟩ := h.order
  have hqueue := refill_order made horder
  rw [reduceOption_eq_front made] at hqueue
  cases hfront : s.front made with
  | none =>
    rw [hfront] at hqueue
    refine ⟨?_, ?_, l, ?_, ?_⟩
    · simpa using h.idle
    · simpa using h.busy
    · simpa using hl
    · simpa using hqueue
  | some pkt =>
    obtain ⟨hflag, rfl⟩ := hfree (by rw [hfront]; exact Option.some_ne_none pkt)
    obtain ⟨rfl, hrep, hout, -⟩ := h.idle hflag
    obtain rfl : l = [] := by simpa using hl
    rw [hfront] at hqueue
    refine ⟨?_, ?_, [pkt], ?_, ?_⟩
    · intro _
      exact ⟨rfl, hrep, by simpa using hout, by simp⟩
    · intro hbusy
      simp [hflag] at hbusy
    · simp
    · simpa using hqueue

/-- The flag is set for the packet that was taken. -/
theorem Orderly.set {pkt : Packet} (h : Orderly s (pkt ::ₘ picked) handing reporting) :
    Orderly { s with sending := true } picked (pkt ::ₘ handing) reporting := by
  have hflag : s.sending = false := by
    by_contra hne
    exact Multiset.cons_ne_zero (h.busy (by simpa using hne)).2
  obtain ⟨rfl, rfl, hout, hcard⟩ := h.idle hflag
  have hnone : picked = 0 := by simpa using hcard
  obtain ⟨l, hl, horder⟩ := h.order
  refine ⟨fun hf => by simp at hf, fun _ => ?_, l, ?_, horder⟩
  · simp [hout, hnone]
  · simpa [hnone] using hl

/-- The write is started. -/
theorem Orderly.write {pkt : Packet} (h : Orderly s picked (pkt ::ₘ handing) reporting) :
    Orderly { s with outstanding := s.outstanding ++ [pkt], written := s.written ++ [pkt] }
      picked handing reporting := by
  have hflag : s.sending = true := by
    by_contra hne
    exact Multiset.cons_ne_zero (h.idle (by simpa using hne)).1
  obtain ⟨hone, rfl⟩ := h.busy hflag
  simp only [Multiset.card_cons] at hone
  have hhanding : handing = 0 := Multiset.card_eq_zero.mp (by omega)
  obtain ⟨l, hl, horder⟩ := h.order
  obtain rfl : l = [pkt] := by simpa [hhanding] using hl
  refine ⟨fun hf => ?_, fun _ => ⟨?_, rfl⟩, [], ?_, ?_⟩
  · exact absurd hf (by simp [hflag])
  · rw [List.length_append, List.length_singleton]
    omega
  · simp [hhanding]
  · simpa using horder

/-- The completion of a write is handled. -/
theorem Orderly.complete {pkt : Packet} [DecidableEq Packet]
    (h : Orderly s picked handing reporting) (hpkt : pkt ∈ s.outstanding) :
    Orderly { s with outstanding := s.outstanding.erase pkt } picked handing
      (pkt ::ₘ reporting) := by
  have hflag : s.sending = true := by
    by_contra hne
    rw [(h.idle (by simpa using hne)).2.2.1] at hpkt
    exact List.not_mem_nil hpkt
  obtain ⟨hone, hpicked⟩ := h.busy hflag
  have hpos := List.length_pos_of_mem hpkt
  refine ⟨fun hf => ?_, fun _ => ⟨?_, hpicked⟩, h.order⟩
  · exact absurd hf (by simp [hflag])
  · rw [List.length_erase_of_mem hpkt, Multiset.card_cons]
    omega

/-- The flag is cleared. -/
theorem Orderly.clear {pkt : Packet} (h : Orderly s picked handing (pkt ::ₘ reporting)) :
    Orderly { s with sending := false } picked handing reporting := by
  have hflag : s.sending = true := by
    by_contra hne
    exact Multiset.cons_ne_zero (h.idle (by simpa using hne)).2.1
  obtain ⟨hone, hpicked⟩ := h.busy hflag
  rw [Multiset.card_cons] at hone
  have hout : s.outstanding = [] := List.length_eq_zero_iff.mp (by omega)
  refine ⟨fun _ => ⟨?_, ?_, hout, ?_⟩, fun hb => ?_, h.order⟩
  · exact Multiset.card_eq_zero.mp (by omega)
  · exact Multiset.card_eq_zero.mp (by omega)
  · simp [hpicked]
  · simp at hb

/-- A packet enters the queue. -/
theorem Orderly.push (h : Orderly s picked handing reporting) (pkt : Packet) :
    Orderly { s with
      packetQueue := s.packetQueue ++ [some pkt]
      entered := s.entered ++ [some pkt] } picked handing reporting := by
  obtain ⟨l, hl, horder⟩ := h.order
  refine ⟨h.idle, h.busy, l, hl, ?_⟩
  simp only [List.reduceOption_append, horder, List.append_assoc]

end Steps

omit [DecidableEq Packet] in
theorem orderlyAt_perform (p : Point Packet) (c : Answer Packet) (s : Sender Packet)
    (w : Multiset (Point Packet)) (hok : Undisturbed (.proceed p c) ⟨s, p ::ₘ w⟩)
    (h : OrderlyAt s (p ::ₘ w)) :
    OrderlyAt (perform p c s).1 (rejoin (perform p c s).2 w) := by
  rw [orderlyAt_cons] at h
  cases p with
  | test =>
    simp only [Point.picked, Point.handing, Point.reporting, zero_add] at h
    cases hflag : s.sending with
    | true => simpa [perform, hflag, OrderlyAt] using h
    | false =>
      simpa [perform, hflag, orderlyAt_cons] using h
  | take =>
    simp only [Point.picked, Point.handing, Point.reporting, zero_add] at h
    have hok : s.front c.made ≠ none → s.sending = false ∧ w.bind Point.picked = 0 := by
      simpa [Undisturbed] using hok
    have htake := h.take c.made hok
    cases hfront : s.front c.made with
    | none => simpa [perform, hfront, OrderlyAt] using htake
    | some pkt =>
      simpa [perform, hfront, orderlyAt_cons]
        using htake
  | set pkt =>
    simp only [Point.picked, Point.handing, Point.reporting, zero_add,
      Multiset.singleton_add] at h
    simpa [perform, orderlyAt_cons] using h.set
  | write pkt =>
    simp only [Point.picked, Point.handing, Point.reporting, zero_add,
      Multiset.singleton_add] at h
    exact h.write
  | push pkt =>
    simp only [Point.picked, Point.handing, Point.reporting, zero_add] at h
    cases pkt with
    | none => exact h
    | some pkt =>
      simpa [perform, orderlyAt_cons]
        using h.push pkt
  | add =>
    simp only [Point.picked, Point.handing, Point.reporting, zero_add] at h
    cases hadded : c.added with
    | true =>
      simpa [perform, hadded, orderlyAt_cons] using h
    | false => simpa [perform, hadded, OrderlyAt] using h
  | sent pkt =>
    simp only [Point.picked, Point.handing, Point.reporting, zero_add,
      Multiset.singleton_add] at h
    simpa [perform, orderlyAt_cons] using h.clear

theorem orderlyAt_enter {p : Point Packet} {s s' : Sender Packet} {w : Multiset (Point Packet)}
    (h : OrderlyAt s w) (henter : enter p s = some s') : OrderlyAt s' (p ::ₘ w) := by
  rw [orderlyAt_cons]
  cases p with
  | test | push _ | add =>
    obtain rfl : s = s' := Option.some.inj henter
    simpa [OrderlyAt] using h
  | sent pkt =>
    simp only [enter, Option.ite_none_right_eq_some, Option.some.injEq] at henter
    obtain ⟨hpkt, rfl⟩ := henter
    simpa using Orderly.complete h hpkt
  | take | set _ | write _ => simp [enter] at henter

omit [DecidableEq Packet] in
theorem orderlyAt_init : OrderlyAt ({} : Sender Packet) 0 :=
  ⟨by simp, by simp, [], by simp⟩

/-- **One write at a time, in order, while no packet is taken out of turn.** -/
theorem oneWrite_of_undisturbed (ms : List (Move (Point Packet) (Answer Packet)))
    (h : Meets sendCode Undisturbed {} ms) : OneWrite (sendAfter ms).shared := by
  have horderly : OrderlyAt (sendAfter ms).shared (sendAfter ms).points :=
    h.invariant orderlyAt_init (fun _ _ _ _ _ hI => orderlyAt_enter hI) orderlyAt_perform
  obtain ⟨l, -, horder⟩ := horderly.order
  refine ⟨?_, ?_⟩
  · cases hflag : (sendAfter ms).shared.sending with
    | false => simp [(horderly.idle hflag).2.2.1]
    | true =>
      have hone := (horderly.busy hflag).1
      omega
  · rw [horder, List.append_assoc]
    exact List.prefix_append _ _

/-- A packet is posted and sent, its completion comes, and the next is posted and sent. -/
def quietRun : List (Move (Point ℕ) (Answer ℕ)) :=
  [.proceed (.write 2) {}, .proceed (.set 2) {}, .proceed .take {}, .proceed .test {},
    .proceed (.push (some 2)) {}, .begin (.push (some 2)), .proceed .take {}, .proceed .test {},
    .proceed (.sent 1) {}, .begin (.sent 1), .proceed (.write 1) {}, .proceed (.set 1) {},
    .proceed .take {}, .proceed .test {}, .proceed (.push (some 1)) {}, .begin (.push (some 1))]

theorem oneWrite_quietRun :
    OneWrite (sendAfter quietRun).shared ∧ (sendAfter quietRun).shared.written = [1, 2] :=
  ⟨oneWrite_of_undisturbed quietRun (by decide +kernel), by decide +kernel⟩

/-- Two threads post a packet each, and both test the flag before either sets it. -/
def raceRun : List (Move (Point ℕ) (Answer ℕ)) :=
  [.proceed (.write 1) {}, .proceed (.write 2) {}, .proceed (.set 1) {}, .proceed (.set 2) {},
    .proceed .take {}, .proceed .take {}, .proceed .test {}, .proceed .test {},
    .proceed (.push (some 2)) {}, .proceed (.push (some 1)) {}, .begin (.push (some 2)),
    .begin (.push (some 1))]

/-- Both writes are outstanding at once, and the packet that was posted last is written first. -/
theorem not_oneWrite_race : (sendAfter raceRun).shared.outstanding = [2, 1] ∧
    (sendAfter raceRun).shared.written = [2, 1] ∧
    (sendAfter raceRun).shared.entered = [some 1, some 2] ∧
    ¬ OneWrite (sendAfter raceRun).shared := by
  decide +kernel

/-! ## The queue never stalls -/

/-- Points from which a thread clears the flag, or starts a write whose completion will. -/
def Point.finishing : Point Packet → Bool
  | .write _ => true
  | .sent _ => true
  | _ => false

/-- Points from which a thread looks into the queue, or starts a write whose completion will. -/
def Point.serving : Point Packet → Bool
  | .test => true
  | .take => true
  | .set _ => true
  | .write _ => true
  | .sent _ => true
  | _ => false

/-- Points inside `sendPacket`, `postPacket` and `onPacketSent`. -/
def Point.inside (p : Point Packet) : Prop := p ≠ .add

/-- What the engine passes to the callback of `processStreamSenders` are packets. -/
def MakesPackets : Move (Point Packet) (Answer Packet) → Prop
  | .proceed _ c => none ∉ c.made
  | _ => True

instance (m : Move (Point Packet) (Answer Packet)) : Decidable (MakesPackets m) := by
  unfold MakesPackets
  split <;> infer_instance

/-- Why the queue is served: somebody will clear the flag when it is set, and will look into
the queue when it is not empty. -/
structure Served (s : Sender Packet) (w : Multiset (Point Packet)) : Prop where
  flag : s.sending = true → s.outstanding ≠ [] ∨ ∃ p ∈ w, p.finishing
  queue : s.packetQueue ≠ [] → s.outstanding ≠ [] ∨ ∃ p ∈ w, p.serving
  packets : none ∉ s.packetQueue

omit [DecidableEq Packet] in
theorem Point.serving_of_finishing {p : Point Packet} (h : p.finishing) : p.serving := by
  cases p <;> simp_all [finishing, serving]

omit [DecidableEq Packet] in
theorem none_notMem_refill {s : Sender Packet} {made : List (Option Packet)} (hmade : none ∉ made)
    (h : none ∉ s.packetQueue) : none ∉ (s.refill made).packetQueue := by
  unfold Sender.refill
  split
  · exact hmade
  · exact h

omit [DecidableEq Packet] in
/-- Without null packets, a thread goes away empty-handed only if it found the queue empty. -/
theorem queue_eq_nil_of_front {s : Sender Packet} {made : List (Option Packet)}
    (hnull : none ∉ (s.refill made).packetQueue) (h : s.front made = none) :
    (s.refill made).packetQueue = [] := by
  unfold Sender.front at h
  cases hq : (s.refill made).packetQueue with
  | nil => rfl
  | cons x q =>
    rw [hq] at h hnull
    cases x with
    | none => exact absurd (List.mem_cons_self ..) hnull
    | some pkt => simp at h

omit [DecidableEq Packet] in
theorem served_perform (p : Point Packet) (c : Answer Packet) (s : Sender Packet)
    (w : Multiset (Point Packet)) (hok : none ∉ c.made) (h : Served s (p ::ₘ w)) :
    Served (perform p c s).1 (rejoin (perform p c s).2 w) := by
  cases p with
  | test =>
    cases hflag : s.sending with
    | true =>
      simp only [perform, hflag, if_true, rejoin_none]
      have hfin : s.outstanding ≠ [] ∨ ∃ q ∈ w, q.finishing := by
        simpa [Point.finishing] using h.flag hflag
      refine ⟨fun _ => hfin, fun _ => ?_, h.packets⟩
      exact hfin.imp_right fun ⟨q, hq, hfq⟩ => ⟨q, hq, Point.serving_of_finishing hfq⟩
    | false =>
      simp only [perform, hflag]
      exact ⟨by simp [hflag], by simp [Point.serving], h.packets⟩
  | take =>
    have hflag : s.sending = true → s.outstanding ≠ [] ∨ ∃ q ∈ w, q.finishing := by
      simpa [Point.finishing] using h.flag
    have hnull := none_notMem_refill hok h.packets
    have htail : none ∉ (s.refill c.made).packetQueue.tail :=
      fun hmem => hnull (List.mem_of_mem_tail hmem)
    cases hfront : s.front c.made with
    | none =>
      have hnil := queue_eq_nil_of_front hnull hfront
      refine ⟨?_, by simp [perform, hnil], htail⟩
      simpa [perform, hfront] using hflag
    | some pkt =>
      refine ⟨?_, by simp [perform, hfront, Point.serving], htail⟩
      simpa [perform, hfront, Point.finishing] using hflag
  | set pkt =>
    exact ⟨by simp [perform, Point.finishing], by simp [perform, Point.serving], h.packets⟩
  | write pkt =>
    exact ⟨by simp [perform], by simp [perform], h.packets⟩
  | push pkt =>
    have hflag : s.sending = true → s.outstanding ≠ [] ∨ ∃ q ∈ w, q.finishing := by
      simpa [Point.finishing] using h.flag
    cases pkt with
    | none => exact ⟨hflag, by simpa [perform, Point.serving] using h.queue, h.packets⟩
    | some pkt =>
      refine ⟨?_, by simp [perform, Point.serving], by simpa [perform] using h.packets⟩
      simpa [perform, Point.finishing] using hflag
  | add =>
    have hflag : s.sending = true → s.outstanding ≠ [] ∨ ∃ q ∈ w, q.finishing := by
      simpa [Point.finishing] using h.flag
    have hqueue : s.packetQueue ≠ [] → s.outstanding ≠ [] ∨ ∃ q ∈ w, q.serving := by
      simpa [Point.serving] using h.queue
    cases hadded : c.added with
    | true =>
      refine ⟨?_, by simp [perform, hadded, Point.serving], h.packets⟩
      simpa [perform, hadded, Point.finishing] using hflag
    | false =>
      simp only [perform, hadded, Bool.false_eq_true, if_false, rejoin_none]
      exact ⟨hflag, hqueue, h.packets⟩
  | sent pkt =>
    exact ⟨by simp [perform], by simp [perform, Point.serving], h.packets⟩

theorem served_enter {p : Point Packet} {s s' : Sender Packet} {w : Multiset (Point Packet)}
    (h : Served s w) (henter : enter p s = some s') : Served s' (p ::ₘ w) := by
  have hflag := fun hs => (h.flag hs).imp_right fun ⟨q, hq, hfq⟩ =>
    (⟨q, Multiset.mem_cons_of_mem hq, hfq⟩ : ∃ q ∈ p ::ₘ w, q.finishing)
  have hqueue := fun hs => (h.queue hs).imp_right fun ⟨q, hq, hfq⟩ =>
    (⟨q, Multiset.mem_cons_of_mem hq, hfq⟩ : ∃ q ∈ p ::ₘ w, q.serving)
  cases p with
  | test | push _ | add =>
    obtain rfl : s = s' := Option.some.inj henter
    exact ⟨hflag, hqueue, h.packets⟩
  | sent pkt =>
    simp only [enter, Option.ite_none_right_eq_some, Option.some.injEq] at henter
    obtain ⟨-, rfl⟩ := henter
    exact ⟨by simp [Point.finishing], by simp [Point.serving], h.packets⟩
  | take | set _ | write _ => simp [enter] at henter

omit [DecidableEq Packet] in
theorem served_init : Served ({} : Sender Packet) 0 :=
  ⟨by simp, by simp, by simp⟩

/-- The completion of a write that is outstanding calls `sendPacket` again. -/
theorem test_mem_of_sent {X : Config (Sender Packet) (Point Packet)} {pkt : Packet}
    (hpkt : pkt ∈ X.shared.outstanding) (c : Answer Packet) :
    Point.test ∈ (next sendCode (.proceed (.sent pkt) c)
      (next sendCode (.begin (.sent pkt)) X)).points := by
  simp [next, sendCode, enter, perform, hpkt]

/-- **The send queue never stalls.**  When no thread is inside `sendPacket`, `postPacket` or
`onPacketSent`, the queue is empty, or a write is outstanding whose completion will call
`sendPacket`. -/
theorem never_stalls (ms : List (Move (Point Packet) (Answer Packet)))
    (hmakes : ∀ m ∈ ms, MakesPackets m)
    (hquiet : ∀ p ∈ (sendAfter ms).points, ¬ p.inside) :
    (sendAfter ms).shared.packetQueue = [] ∨
      ∃ pkt ∈ (sendAfter ms).shared.outstanding, ∀ c,
        Point.test ∈ (next sendCode (.proceed (.sent pkt) c)
          (next sendCode (.begin (.sent pkt)) (sendAfter ms))).points := by
  have hmeets : Meets sendCode (fun m _ => MakesPackets m) {} ms := meets_of_forall hmakes
  have hserved : Served (sendAfter ms).shared (sendAfter ms).points :=
    hmeets.invariant served_init (fun _ _ _ _ _ hI => served_enter hI) served_perform
  by_cases hqueue : (sendAfter ms).shared.packetQueue = []
  · exact Or.inl hqueue
  · refine Or.inr ?_
    rcases hserved.queue hqueue with hout | ⟨p, hp, hserving⟩
    · obtain ⟨pkt, hpkt⟩ := List.exists_mem_of_ne_nil _ hout
      exact ⟨pkt, hpkt, test_mem_of_sent hpkt⟩
    · -- a thread that serves the queue is inside
      have hadd : p = .add := not_not.mp (hquiet p hp)
      rw [hadd] at hserving
      simp [Point.serving] at hserving

/-- A packet is posted while the write of another is outstanding. -/
def waitingRun : List (Move (Point ℕ) (Answer ℕ)) :=
  [.proceed .test {}, .proceed (.push (some 2)) {}, .begin (.push (some 2)),
    .proceed (.write 1) {}, .proceed (.set 1) {}, .proceed .take {}, .proceed .test {},
    .proceed (.push (some 1)) {}, .begin (.push (some 1))]

theorem never_stalls_waitingRun : (sendAfter waitingRun).shared.packetQueue = [some 2] ∧
    ((sendAfter waitingRun).shared.packetQueue = [] ∨
      ∃ pkt ∈ (sendAfter waitingRun).shared.outstanding, ∀ c,
        Point.test ∈ (next sendCode (.proceed (.sent pkt) c)
          (next sendCode (.begin (.sent pkt)) (sendAfter waitingRun))).points) := by
  have hnone : (sendAfter waitingRun).points = 0 := by decide +kernel
  refine ⟨by decide +kernel, never_stalls waitingRun (by decide) ?_⟩
  intro p hp
  rw [hnone] at hp
  exact absurd hp (Multiset.notMem_zero p)

end SendQueue
end ZwayServer
