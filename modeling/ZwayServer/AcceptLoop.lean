import ZwayServer.Proc.Threads

/-!
# The accept loop

New clients come in through one `async_accept` at a time: `Server::start` starts the first,
and each completion starts the next.  `pause` closes the acceptor, which completes the
pending accept as aborted, and `resume` opens it again and starts another.

* `Acceptor`, `Point`, `acceptCode` — the acceptor, the points, and the sections.
* `Listening` — whenever the server is not paused and no completion is being handled, one
  accept is outstanding.
* `listening_of_rearmed` — so it is as long as no error reaches a server that is not paused,
  and the server resumes only after all earlier accepts are over; `not_listening_error` is
  the run in which one accept fails.
-/

namespace ZwayServer
namespace AcceptLoop

open Threads

/-! ## The code -/

/-- What an accept can fail with. -/
inductive AcceptError where
  | operationAborted
  /-- The acceptor was not open. -/
  | badDescriptor
  | noDescriptors
  | other (code : ℤ)
  deriving DecidableEq

/-- An `async_accept` that has been started and whose handler has not been called: it is
pending, or it has completed. -/
inductive Accept where
  | pending
  | completed (error : Option AcceptError)
  deriving DecidableEq

/-- What the server keeps about accepting. -/
structure Acceptor where
  /-- `m_paused`. -/
  paused : Bool := false
  /-- `m_acceptor` is open. -/
  isOpen : Bool := true
  accepts : List Accept := []

/-- `Server::accept`: on an acceptor that is not open, `async_accept` completes at once. -/
def Acceptor.accept (s : Acceptor) : Acceptor :=
  let a := if s.isOpen then Accept.pending else .completed (some .badDescriptor)
  { s with accepts := s.accepts ++ [a] }

/-- The last line of `Server::start`. -/
def started : Acceptor := Acceptor.accept {}

/-- What closing makes of an accept. -/
def Accept.cancel : Accept → Accept
  | .pending => .completed (some .operationAborted)
  | .completed error => .completed error

/-- `m_acceptor.close()`, which closes the descriptor even if it throws. -/
def Acceptor.close (s : Acceptor) : Acceptor :=
  { s with isOpen := false, accepts := s.accepts.map Accept.cancel }

/-- Where a thread can be. -/
inductive Point where
  /-- The operating system completes an accept. -/
  | complete (error : Option AcceptError)
  | pause
  | resume
  /-- `handleSession`, at its beginning. -/
  | handleSession (error : Option AcceptError)
  /-- `handleSession`, after `session->start()`. -/
  | rearm
  deriving DecidableEq

/-- Which call on the acceptor throws. -/
inductive Fault where
  | none | close | open | bind | listen
  deriving DecidableEq

/-- A completion is handled once; all else comes at any time. -/
def enter : Point → Acceptor → Option Acceptor
  | .handleSession error, s =>
    if .completed error ∈ s.accepts then
      some { s with accepts := s.accepts.erase (.completed error) }
    else none
  | .rearm, _ => none
  | _, s => some s

/-- `Server::pause`. -/
def pause (fault : Fault) (s : Acceptor) : Acceptor :=
  if s.paused then s
  else if fault = .close then s.close
  else { s.close with paused := true }

/-- `Server::resume`. -/
def resume (fault : Fault) (s : Acceptor) : Acceptor :=
  if !s.paused then s
  else if s.isOpen || fault = .open then s
  else if fault = .bind || fault = .listen then { s with isOpen := true }
  else { Acceptor.accept { s with isOpen := true } with paused := false }

/-- The sections of `pause`, `resume` and `Server::handleSession`, and what the operating
system does. -/
def perform : Point → Fault → Acceptor → Acceptor × Option Point
  | .complete error, _, s =>
    if .pending ∈ s.accepts then
      ({ s with accepts := s.accepts.erase .pending ++ [.completed error] }, none)
    else (s, none)
  | .pause, fault, s => (pause fault s, none)
  | .resume, fault, s => (resume fault s, none)
  | .handleSession none, _, s => (s, some .rearm)
  | .handleSession (some _), _, s => (s, none)
  | .rearm, _, s => (s.accept, none)

/-- The code by which the server accepts. -/
def acceptCode : Code Acceptor Point Fault where
  enter := enter
  perform := perform

/-- Where a run leads after `Server::start`. -/
abbrev acceptAfter (ms : List (Move Point Fault)) : Config Acceptor Point :=
  after acceptCode started ms

/-! ## One accept outstanding -/

/-- A completion is being handled. -/
def Point.handling : Point → Bool
  | .handleSession _ => true
  | .rearm => true
  | _ => false

/-- The handler of a success, which will start the next accept. -/
def Point.rearms : Point → Bool
  | .handleSession none => true
  | .rearm => true
  | _ => false

/-- When the server is not paused and no completion is being handled, exactly one accept is
outstanding. -/
def Listening (X : Config Acceptor Point) : Prop :=
  X.shared.paused = false → (∀ p ∈ X.points, p.handling = false) → X.shared.accepts.length = 1

/-- An error is handled only while the server is paused, closing does not fail, and the server
resumes only when no accept is left and no handler will start one. -/
def Rearmed : Move Point Fault → Config Acceptor Point → Prop
  | .begin (.handleSession (some _)), X => X.shared.paused = true
  | .proceed .pause fault, X => X.shared.paused = false → fault ≠ .close
  | .proceed .resume fault, X =>
    X.shared.paused = true → X.shared.isOpen = false → fault ∉ [.open, .bind, .listen] →
      X.shared.accepts = [] ∧ ∀ p ∈ X.points, p.rearms = false
  | _, _ => True

instance (m : Move Point Fault) (X : Config Acceptor Point) : Decidable (Rearmed m X) := by
  unfold Rearmed
  split <;> infer_instance

/-- The accepts that are outstanding or about to be started. -/
def armed (s : Acceptor) (w : Multiset Point) : ℕ :=
  s.accepts.length + w.countP (fun p => p.rearms)

@[simp] theorem length_accept (s : Acceptor) : s.accept.accepts.length = s.accepts.length + 1 := by
  simp [Acceptor.accept]

@[simp] theorem paused_accept (s : Acceptor) : s.accept.paused = s.paused := rfl

theorem countP_rearms_eq_zero {w : Multiset Point} (h : ∀ p ∈ w, p.rearms = false) :
    w.countP (fun p => p.rearms) = 0 := by
  rw [Multiset.countP_eq_zero]
  intro p hp
  simp [h p hp]

theorem armed_cons_of_rearms (s : Acceptor) {p : Point} (w : Multiset Point)
    (h : p.rearms = true) : armed s (p ::ₘ w) = armed s w + 1 := by
  rw [armed, armed, Multiset.countP_cons, if_pos h, Nat.add_assoc]

theorem armed_cons_of_not_rearms (s : Acceptor) {p : Point} (w : Multiset Point)
    (h : p.rearms = false) : armed s (p ::ₘ w) = armed s w := by
  rw [armed, armed, Multiset.countP_cons, if_neg (by simp [h]), Nat.add_zero]

/-- `pause` leaves the server paused, unless closing fails. -/
theorem paused_pause {fault : Fault} {s : Acceptor} (h : s.paused = false → fault ≠ .close) :
    (pause fault s).paused = true := by
  unfold pause
  split
  · assumption
  · next hp => rw [if_neg (h (by simpa using hp))]

/-- A server that `resume` leaves running was running before, or has just started an accept. -/
theorem resume_cases {fault : Fault} {s : Acceptor} (h : (resume fault s).paused = false) :
    (s.paused = false ∧ resume fault s = s) ∨
      (s.paused = true ∧ s.isOpen = false ∧ fault ∉ [.open, .bind, .listen] ∧
        (resume fault s).accepts.length = s.accepts.length + 1) := by
  by_cases hp : s.paused = true
  · refine Or.inr ⟨hp, ?_⟩
    by_cases hopen : s.isOpen = true
    · simp [resume, hp, hopen] at h
    · cases fault <;> simp_all [resume]
  · refine Or.inl ⟨by simpa using hp, ?_⟩
    simp [resume, hp]

theorem armed_enter {p : Point} {s s' : Acceptor} {w : Multiset Point}
    (hok : Rearmed (.begin p) ⟨s, w⟩) (h : s.paused = false → armed s w = 1)
    (henter : enter p s = some s') (hrun : s'.paused = false) : armed s' (p ::ₘ w) = 1 := by
  cases p with
  | handleSession error =>
    simp only [enter, Option.ite_none_right_eq_some, Option.some.injEq] at henter
    obtain ⟨hmem, rfl⟩ := henter
    cases error with
    | none =>
      have hone := h hrun
      have hpos := List.length_pos_of_mem hmem
      rw [armed_cons_of_rearms _ _ rfl]
      simp only [armed, List.length_erase_of_mem hmem] at hone ⊢
      omega
    | some e =>
      -- an error is not handled while the server is running
      have hpaused : s.paused = true := hok
      exact absurd hpaused (by simpa using hrun)
  | complete _ | pause | resume =>
    obtain rfl : s = s' := Option.some.inj henter
    rw [armed_cons_of_not_rearms _ _ rfl]
    exact h hrun
  | rearm => simp [enter] at henter

theorem armed_perform {p : Point} {c : Fault} {s : Acceptor} {w : Multiset Point}
    (hok : Rearmed (.proceed p c) ⟨s, p ::ₘ w⟩) (h : s.paused = false → armed s (p ::ₘ w) = 1)
    (hrun : (perform p c s).1.paused = false) :
    armed (perform p c s).1 (rejoin (perform p c s).2 w) = 1 := by
  cases p with
  | complete error =>
    rw [armed_cons_of_not_rearms _ _ rfl] at h
    by_cases hmem : Accept.pending ∈ s.accepts
    · have hpos := List.length_pos_of_mem hmem
      simp only [perform, if_pos hmem, rejoin_none] at hrun ⊢
      have hone := h hrun
      simp only [armed, List.length_append, List.length_erase_of_mem hmem, List.length_singleton]
        at hone ⊢
      omega
    · simp only [perform, if_neg hmem, rejoin_none] at hrun ⊢
      exact h hrun
  | pause =>
    have hpaused : (pause c s).paused = true := paused_pause hok
    exact absurd hpaused (by simpa [perform] using hrun)
  | resume =>
    rw [armed_cons_of_not_rearms _ _ rfl] at h
    rcases resume_cases hrun with ⟨hp, heq⟩ | ⟨hp, hopen, hfault, hlen⟩
    · simp only [perform, heq, rejoin_none]
      exact h hp
    · obtain ⟨hnil, hothers⟩ := hok hp hopen hfault
      have hcount : w.countP (fun p => p.rearms) = 0 :=
        countP_rearms_eq_zero fun q hq => hothers q (Multiset.mem_cons_of_mem hq)
      have hnil : s.accepts.length = 0 := by simpa using hnil
      simp only [perform, rejoin_none, armed, hlen, hcount, hnil]
  | handleSession error =>
    cases error with
    | none =>
      have hone := h hrun
      rw [armed_cons_of_rearms _ _ rfl] at hone
      simp only [perform, rejoin_some]
      rw [armed_cons_of_rearms _ _ rfl]
      exact hone
    | some e =>
      have hone := h hrun
      rw [armed_cons_of_not_rearms _ _ rfl] at hone
      exact hone
  | rearm =>
    have hone := h hrun
    rw [armed_cons_of_rearms _ _ rfl] at hone
    simp only [perform, armed, rejoin_none, length_accept] at hone ⊢
    omega

/-- **The accept loop goes on, while nothing but success reaches it and the server resumes
after all earlier accepts.** -/
theorem listening_of_rearmed (ms : List (Move Point Fault))
    (h : Meets acceptCode Rearmed started ms) : Listening (acceptAfter ms) := by
  intro hrun hquiet
  have harmed : armed (acceptAfter ms).shared (acceptAfter ms).points = 1 := by
    refine h.invariant (I := fun s w => s.paused = false → armed s w = 1) ?_ ?_ ?_ hrun
    · intro _
      rfl
    · intro p s s' w hok hI henter hrun
      exact armed_enter hok hI henter hrun
    · intro p c s w hok hI hrun
      exact armed_perform hok hI hrun
  have hnone : ∀ p ∈ (acceptAfter ms).points, p.rearms = false := by
    intro p hp
    have hp := hquiet p hp
    cases p <;> simp_all [Point.handling, Point.rearms]
  rw [armed, countP_rearms_eq_zero hnone] at harmed
  exact harmed

/-- A client comes in, the server is paused, the aborted accept is handled, and the server
resumes. -/
def pausedRun : List (Move Point Fault) :=
  [.proceed .resume .none, .begin .resume, .proceed (.handleSession (some .operationAborted)) .none,
    .begin (.handleSession (some .operationAborted)), .proceed .pause .none, .begin .pause,
    .proceed .rearm .none, .proceed (.handleSession none) .none, .begin (.handleSession none),
    .proceed (.complete none) .none, .begin (.complete none)]

theorem listening_pausedRun : Listening (acceptAfter pausedRun) :=
  listening_of_rearmed pausedRun (by decide +kernel)

/-- The process runs out of descriptors while a client connects. -/
def errorRun : List (Move Point Fault) :=
  [.proceed (.handleSession (some .noDescriptors)) .none,
    .begin (.handleSession (some .noDescriptors)),
    .proceed (.complete (some .noDescriptors)) .none, .begin (.complete (some .noDescriptors))]

/-- After that, nothing accepts any more. -/
theorem not_listening_error : (acceptAfter errorRun).shared.paused = false ∧
    (acceptAfter errorRun).points = 0 ∧ (acceptAfter errorRun).shared.accepts = [] ∧
    ¬ Listening (acceptAfter errorRun) := by
  have hpoints : (acceptAfter errorRun).points = 0 := by decide +kernel
  have hnone : (acceptAfter errorRun).shared.accepts = [] := by decide +kernel
  refine ⟨by decide +kernel, hpoints, hnone, ?_⟩
  intro h
  have hone := h (by decide +kernel) (by simp [hpoints])
  simp [hnone] at hone

end AcceptLoop
end ZwayServer
