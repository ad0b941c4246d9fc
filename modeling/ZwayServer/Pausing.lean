import ZwayServer.AcceptLoop
import ZwayServer.Proc.Exceptions

/-!
# Pausing and resuming with faults

`Server::resume` opens, binds and listens on the acceptor in a `try` block, and sets `m_paused`
last.  Its `catch` block closes nothing, so when `bind` or `listen` throws, the acceptor stays
open, and `open` throws in every later attempt.

* `AcceptorState`, `Step` — the states of the acceptor, and the calls on it that may throw.
* `pause`, `resume` — the functions, given which calls meet an error from outside.
* `Retriable` — along a run of calls, those that fail change nothing, the flag tells whether the
  acceptor is closed, and a paused server can be resumed.
* `retriable_iff` — so it is exactly if no `resume` throws once the acceptor is open, and no
  `pause` of a running server throws.
* `stuck_afterFrom` — after a `resume` that was half done, no call changes anything any more.
* `simulates_afterFrom` — the accept loop makes the same calls, with an acceptor that is open or
  not.
-/

namespace ZwayServer
namespace Pausing

open Exceptions
open AcceptLoop (Accept Acceptor Fault)

/-! ## The code -/

/-- How far an acceptor has come. -/
inductive AcceptorState where
  | closed | «open» | bound | listening
  deriving DecidableEq

/-- The calls on the acceptor that may throw. -/
inductive Step where
  | «open» | bind | listen | close
  deriving DecidableEq

/-- What an exception says. -/
inductive Thrown where
  /-- The acceptor is not in a state for the call, as when `open` finds it open. -/
  | misplaced (step : Step)
  /-- The operating system refuses. -/
  | outside (step : Step)
  deriving DecidableEq

/-- What `pause` and `resume` use of the server. -/
structure Server where
  /-- `m_paused`. -/
  paused : Bool
  /-- `m_acceptor`. -/
  acceptor : AcceptorState
  /-- The accepts that have been started and not been handled. -/
  accepts : List Accept
  deriving DecidableEq

/-- Statements on the server. -/
abbrev ServerM := EStateM Thrown Server

section

variable (throws : Step → Bool)

/-- A call that takes the acceptor further, if it is in a state for it. -/
def advance (step : Step) (ready : AcceptorState → Bool) (next : AcceptorState) :
    ServerM Unit := do
  let s ← get
  if !ready s.acceptor then
    throw (.misplaced step)
  else if throws step then
    throw (.outside step)
  else
    set { s with acceptor := next }

/-- `m_acceptor.open(tcp::v4())`. -/
def openAcceptor : ServerM Unit := advance throws .open (· = .closed) .open

/-- `m_acceptor.bind(m_endpoint)`. -/
def bindAcceptor : ServerM Unit := advance throws .bind (· = .open) .bound

/-- `m_acceptor.listen()`. -/
def listenAcceptor : ServerM Unit := advance throws .listen (· ≠ .closed) .listening

/-- `m_acceptor.close()`, which closes the descriptor even if it throws, and does not throw on
an acceptor that is closed. -/
def closeAcceptor : ServerM Unit := do
  let s ← get
  set { s with acceptor := AcceptorState.closed, accepts := s.accepts.map Accept.cancel }
  if s.acceptor ≠ .closed ∧ throws .close then
    throw (.outside .close)
  else
    pure ()

/-- `Server::accept`. -/
def accept : ServerM Unit :=
  modify fun s =>
    let a : Accept :=
      match s.acceptor with
      | .closed => .completed (some .badDescriptor)
      | .listening => .pending
      -- `EINVAL`
      | _ => .completed (some (.other 22))
    { s with accepts := s.accepts ++ [a] }

/-- `m_paused = b`. -/
def setPaused (b : Bool) : ServerM Unit := modify fun s => { s with paused := b }

/-- The `try` block of `Server::pause`. -/
def pauseBlock : ServerM Unit := do
  closeAcceptor throws
  setPaused true

/-- The `try` block of `Server::resume`. -/
def resumeBlock : ServerM Unit := do
  openAcceptor throws
  bindAcceptor throws
  listenAcceptor throws
  accept
  setPaused false

/-- `Server::pause`. -/
def pause (s : Server) : Server × Bool :=
  if s.paused then (s, false) else tried (pauseBlock throws) s

/-- `Server::resume`. -/
def resume (s : Server) : Server × Bool :=
  if !s.paused then (s, false) else tried (resumeBlock throws) s

end

/-- A call, with the steps that meet an error from outside while it is made. -/
inductive Call where
  | pause (throws : Step → Bool)
  | resume (throws : Step → Bool)

/-- What the call does, and what it returns. -/
def Call.run : Call → Server → Server × Bool
  | .pause throws => Pausing.pause throws
  | .resume throws => Pausing.resume throws

/-- No step meets an error from outside. -/
def quiet : Step → Bool := fun _ => false

/-- The server after `Server::start`. -/
def started : Server := { paused := false, acceptor := .listening, accepts := [.pending] }

/-- Where calls lead, one after the other. -/
def afterFrom (s : Server) (cs : List Call) : Server := cs.foldl (fun s c => (c.run s).1) s

/-- Where calls lead after `Server::start`. -/
abbrev afterCalls (cs : List Call) : Server := afterFrom started cs

/-! ## What is to hold -/

/-- If the call returns false, it leaves the flag and the acceptor as they were. -/
def Call.Harmless (c : Call) (s : Server) : Prop :=
  (c.run s).2 = false →
    (c.run s).1.paused = s.paused ∧ (c.run s).1.acceptor = s.acceptor

/-- The flag tells whether the acceptor is closed, and whether the server would be resumed. -/
structure Resumable (s : Server) : Prop where
  paused_iff : s.paused = true ↔ s.acceptor = .closed
  resume_iff : (resume quiet s).2 = true ↔ s.paused = true

/-- Every call of the run that returns false is harmless, and the server is resumable in every
state that is reached. -/
def Retriable (cs : List Call) : Prop :=
  (∀ before c, before ++ [c] <+: cs → c.Harmless (afterCalls before)) ∧
    ∀ before, before <+: cs → Resumable (afterCalls before)

/-- The call does not close or open the acceptor and then throw. -/
def Call.Clean (c : Call) (s : Server) : Prop :=
  match c with
  | .pause throws => s.paused = false → throws .close = false
  | .resume throws =>
    s.paused = true → throws .open = false → throws .bind = false ∧ throws .listen = false

/-- Every call of the run is clean where it is made. -/
def Undisturbed (cs : List Call) : Prop :=
  ∀ before c, before ++ [c] <+: cs → c.Clean (afterCalls before)

/-! ## What the steps do -/

section

variable {throws : Step → Bool} {s : Server}

theorem advance_of_ready {step : Step} {ready : AcceptorState → Bool} {next : AcceptorState}
    (hready : ready s.acceptor = true) (hquiet : throws step = false) :
    (advance throws step ready next).run s = .ok () { s with acceptor := next } := by
  simp [advance, hready, hquiet]

/-- A call that throws has changed nothing. -/
theorem advance_of_throws {step : Step} {ready : AcceptorState → Bool} {next : AcceptorState}
    (h : ready s.acceptor = false ∨ throws step = true) :
    ∃ e, (advance throws step ready next).run s = .error e s := by
  cases hready : ready s.acceptor with
  | false => exact ⟨.misplaced step, by simp [advance, hready]⟩
  | true =>
    have hthrows : throws step = true := h.resolve_left (by simp [hready])
    exact ⟨.outside step, by simp [advance, hready, hthrows]⟩

/-- The block of `resume` gets to its end if no step of it throws. -/
theorem tried_resumeBlock_of_quiet (hclosed : s.acceptor = .closed) (hopen : throws .open = false)
    (hbind : throws .bind = false) (hlisten : throws .listen = false) :
    tried (resumeBlock throws) s =
      ({ paused := false, acceptor := .listening, accepts := s.accepts ++ [.pending] }, true) := by
  rw [resumeBlock, openAcceptor, tried_bind_of_ok (advance_of_ready (by simp [hclosed]) hopen),
    bindAcceptor, tried_bind_of_ok (advance_of_ready (by simp) hbind),
    listenAcceptor, tried_bind_of_ok (advance_of_ready (by simp) hlisten)]
  rfl

/-- If `open` throws, nothing has changed. -/
theorem tried_resumeBlock_of_open (h : s.acceptor ≠ .closed ∨ throws .open = true) :
    tried (resumeBlock throws) s = (s, false) := by
  have hopen : ∃ e, (openAcceptor throws).run s = .error e s :=
    advance_of_throws (h.imp_left fun hne => by simp [hne])
  obtain ⟨e, herror⟩ := hopen
  exact tried_bind_of_error herror

/-- If a later step throws, the acceptor stays open. -/
theorem tried_resumeBlock_of_later (hclosed : s.acceptor = .closed) (hopen : throws .open = false)
    (hlater : throws .bind = true ∨ throws .listen = true) :
    ∃ a, a ≠ .closed ∧ tried (resumeBlock throws) s = ({ s with acceptor := a }, false) := by
  rw [resumeBlock, openAcceptor, tried_bind_of_ok (advance_of_ready (by simp [hclosed]) hopen)]
  cases hbind : throws .bind with
  | true =>
    have hthrows : ∃ e, (bindAcceptor throws).run { s with acceptor := .open } =
        .error e { s with acceptor := .open } := advance_of_throws (Or.inr hbind)
    obtain ⟨e, herror⟩ := hthrows
    exact ⟨.open, by decide, tried_bind_of_error herror⟩
  | false =>
    have hlisten : throws .listen = true := hlater.resolve_left (by simp [hbind])
    have hthrows : ∃ e, (listenAcceptor throws).run { s with acceptor := .bound } =
        .error e { s with acceptor := .bound } := advance_of_throws (Or.inr hlisten)
    obtain ⟨e, herror⟩ := hthrows
    refine ⟨.bound, by decide, ?_⟩
    rw [bindAcceptor, tried_bind_of_ok (advance_of_ready (by simp) hbind)]
    exact tried_bind_of_error herror

/-- The block of `pause` gets to its end if `close` does not throw. -/
theorem tried_pauseBlock_of_quiet (h : s.acceptor = .closed ∨ throws .close = false) :
    tried (pauseBlock throws) s =
      ({ paused := true, acceptor := .closed, accepts := s.accepts.map Accept.cancel }, true) := by
  have hok : (closeAcceptor throws).run s = .ok ()
      { s with acceptor := .closed, accepts := s.accepts.map Accept.cancel } := by
    rcases h with hclosed | hclose
    · simp [closeAcceptor, hclosed]
    · simp [closeAcceptor, hclose]
  exact tried_bind_of_ok hok

/-- If `close` throws, it has closed the acceptor. -/
theorem tried_pauseBlock_of_close (hne : s.acceptor ≠ .closed) (hclose : throws .close = true) :
    tried (pauseBlock throws) s =
      ({ s with acceptor := .closed, accepts := s.accepts.map Accept.cancel }, false) := by
  have herror : (closeAcceptor throws).run s = .error (.outside .close)
      { s with acceptor := .closed, accepts := s.accepts.map Accept.cancel } := by
    simp [closeAcceptor, hne, hclose]
  exact tried_bind_of_error herror

end

/-! ## Calls -/

section

variable {c : Call} {s : Server}

/-- A flag that tells whether the acceptor is closed tells whether the server can be resumed. -/
theorem resumable_of_paused_iff (h : s.paused = true ↔ s.acceptor = .closed) : Resumable s := by
  refine ⟨h, ?_⟩
  cases hp : s.paused with
  | false => simp [resume, hp]
  | true =>
    have hclosed : s.acceptor = .closed := h.mp hp
    rw [resume, if_neg (by simp [hp]), tried_resumeBlock_of_quiet hclosed rfl rfl rfl]

theorem Resumable.acceptor_ne (h : Resumable s) (hp : s.paused = false) :
    s.acceptor ≠ .closed := by
  intro hclosed
  have := h.paused_iff.mpr hclosed
  rw [hp] at this
  cases this

/-- A clean call keeps a server resumable. -/
theorem Resumable.run (h : Resumable s) (hclean : c.Clean s) : Resumable (c.run s).1 := by
  cases c with
  | pause throws =>
    rw [Call.run, pause]
    split
    · exact h
    · next hp =>
      have hp : s.paused = false := by simpa using hp
      rw [tried_pauseBlock_of_quiet (Or.inr (hclean hp))]
      exact resumable_of_paused_iff (by simp)
  | resume throws =>
    rw [Call.run, resume]
    split
    · exact h
    · next hp =>
      have hp : s.paused = true := by simpa using hp
      have hclosed : s.acceptor = .closed := h.paused_iff.mp hp
      cases hopen : throws .open with
      | true =>
        rw [tried_resumeBlock_of_open (Or.inr hopen)]
        exact h
      | false =>
        obtain ⟨hbind, hlisten⟩ := hclean hp hopen
        rw [tried_resumeBlock_of_quiet hclosed hopen hbind hlisten]
        exact resumable_of_paused_iff (by simp)

/-- On a resumable server, the clean calls are the harmless ones. -/
theorem Resumable.harmless_iff (h : Resumable s) : c.Harmless s ↔ c.Clean s := by
  cases c with
  | pause throws =>
    rw [Call.Harmless, Call.run, pause, Call.Clean]
    split
    · next hp => simp [hp]
    · next hp =>
      have hp : s.paused = false := by simpa using hp
      have hne : s.acceptor ≠ .closed := h.acceptor_ne hp
      cases hclose : throws .close with
      | false => simp [tried_pauseBlock_of_quiet (Or.inr hclose)]
      | true =>
        -- the acceptor has been closed, and the flag has not been set
        simp [tried_pauseBlock_of_close hne hclose, hp, hne.symm]
  | resume throws =>
    rw [Call.Harmless, Call.run, resume, Call.Clean]
    split
    · next hp => simp_all
    · next hp =>
      have hp : s.paused = true := by simpa using hp
      have hclosed : s.acceptor = .closed := h.paused_iff.mp hp
      cases hopen : throws .open with
      | true => simp [tried_resumeBlock_of_open (Or.inr hopen)]
      | false =>
        by_cases hlater : throws .bind = true ∨ throws .listen = true
        · obtain ⟨a, ha, htried⟩ := tried_resumeBlock_of_later hclosed hopen hlater
          rw [htried]
          refine ⟨fun hsame => absurd (hsame rfl).2 (by rw [hclosed]; exact ha), ?_⟩
          intro hclean
          obtain ⟨hbind, hlisten⟩ := hclean hp rfl
          simp [hbind, hlisten] at hlater
        · obtain ⟨hbind, hlisten⟩ := not_or.mp hlater
          have hbind : throws .bind = false := by simpa using hbind
          have hlisten : throws .listen = false := by simpa using hlisten
          simp [tried_resumeBlock_of_quiet hclosed hopen hbind hlisten, hbind, hlisten]

end

/-! ## Runs -/

theorem afterCalls_append (cs : List Call) (c : Call) :
    afterCalls (cs ++ [c]) = (c.run (afterCalls cs)).1 := by
  simp [afterCalls, afterFrom]

/-- Clean calls lead to resumable servers only. -/
theorem Undisturbed.resumable {cs : List Call} (h : Undisturbed cs) :
    ∀ before, before <+: cs → Resumable (afterCalls before) := by
  intro before
  induction before using List.reverseRecOn with
  | nil =>
    intro _
    exact resumable_of_paused_iff (by decide)
  | append_singleton before c ih =>
    intro hpre
    have hbefore : Resumable (afterCalls before) :=
      ih ((List.prefix_append before [c]).trans hpre)
    rw [afterCalls_append]
    exact hbefore.run (h before c hpre)

/-- **A failed call can be retried, if nothing throws halfway.**  For every order of `pause` and
`resume` and all errors that `open`, `bind`, `listen` and `close` meet: the calls that return
false leave the flag and the acceptor as they were, and at all times the server is paused exactly
if the acceptor is closed, and exactly then a `resume` that meets no error succeeds, if and only
if no `resume` of a paused server meets an error after `open`, and no `pause` of a running server
meets one. -/
theorem retriable_iff (cs : List Call) : Retriable cs ↔ Undisturbed cs := by
  constructor
  · rintro ⟨hharmless, hresumable⟩ before c hpre
    have hbefore : Resumable (afterCalls before) :=
      hresumable before ((List.prefix_append before [c]).trans hpre)
    exact hbefore.harmless_iff.mp (hharmless before c hpre)
  · intro h
    refine ⟨?_, h.resumable⟩
    intro before c hpre
    have hbefore : Resumable (afterCalls before) :=
      h.resumable before ((List.prefix_append before [c]).trans hpre)
    exact hbefore.harmless_iff.mpr (h before c hpre)

/-- The server is paused, and while it is resumed the address is taken. -/
def takenRun : List Call := [.pause quiet, .resume fun step => step = .bind]

/-- The second call returns false, and leaves the acceptor open. -/
theorem not_retriable : ¬ Retriable takenRun := by
  intro h
  have hharmless := h.1 [.pause quiet] (.resume fun step => step = .bind) (List.prefix_refl _)
  have hsame : AcceptorState.open = .closed := (hharmless rfl).2
  cases hsame

/-! ## After half a resume -/

/-- A `resume` threw after it had opened the acceptor. -/
def HalfDone (s : Server) : Prop := s.paused = true ∧ s.acceptor ≠ .closed

/-- Such a server refuses to be paused, and cannot be resumed. -/
theorem HalfDone.run {s : Server} (h : HalfDone s) (c : Call) : c.run s = (s, false) := by
  obtain ⟨hp, hne⟩ := h
  cases c with
  | pause throws => rw [Call.run, pause, if_pos hp]
  | resume throws =>
    rw [Call.run, resume, if_neg (by simp [hp]), tried_resumeBlock_of_open (Or.inl hne)]

/-- Whatever is called later, nothing changes any more. -/
theorem stuck_afterFrom {s : Server} (h : HalfDone s) (cs : List Call) : afterFrom s cs = s := by
  induction cs with
  | nil => rfl
  | cons c cs ih =>
    show afterFrom (c.run s).1 cs = s
    rw [h.run c]
    exact ih

/-- That is where a `resume` leads which meets an error after `open`. -/
theorem halfDone_resume {throws : Step → Bool} {s : Server} (h : Resumable s)
    (hp : s.paused = true) (hclean : ¬ (Call.resume throws).Clean s) :
    HalfDone ((Call.resume throws).run s).1 := by
  have hclosed : s.acceptor = .closed := h.paused_iff.mp hp
  have hopen : throws .open = false := by
    by_contra hopen
    exact hclean fun _ hfalse => absurd hfalse hopen
  have hlater : throws .bind = true ∨ throws .listen = true := by
    by_contra hlater
    refine hclean fun _ _ => ?_
    simpa using hlater
  obtain ⟨a, ha, htried⟩ := tried_resumeBlock_of_later hclosed hopen hlater
  rw [Call.run, resume, if_neg (by simp [hp]), htried]
  exact ⟨hp, ha⟩

/-! ## The accept loop -/

/-- The acceptor of the accept loop, which is open or not. -/
def Server.coarse (s : Server) : Acceptor :=
  { paused := s.paused, isOpen := s.acceptor ≠ .closed, accepts := s.accepts }

/-- What a call is in the accept loop, where it has at most one fault. -/
def Call.coarse : Call → Fault → Acceptor → Acceptor
  | .pause _ => AcceptLoop.pause
  | .resume _ => AcceptLoop.resume

@[simp] theorem coarse_paused (s : Server) : s.coarse.paused = s.paused := rfl

theorem coarse_pause (throws : Step → Bool) (s : Server) :
    ∃ fault, (pause throws s).1.coarse = AcceptLoop.pause fault s.coarse := by
  rw [pause]
  split
  · next hp =>
    refine ⟨.none, ?_⟩
    rw [AcceptLoop.pause, coarse_paused, if_pos hp]
  · next hp =>
    by_cases h : s.acceptor = .closed ∨ throws .close = false
    · refine ⟨.none, ?_⟩
      rw [tried_pauseBlock_of_quiet h, AcceptLoop.pause, coarse_paused, if_neg hp,
        if_neg (by decide)]
      rfl
    · obtain ⟨hne, hclose⟩ := not_or.mp h
      have hclose : throws .close = true := by simpa using hclose
      refine ⟨.close, ?_⟩
      rw [tried_pauseBlock_of_close hne hclose, AcceptLoop.pause, coarse_paused, if_neg hp,
        if_pos rfl]
      rfl

theorem coarse_resume (throws : Step → Bool) (s : Server) :
    ∃ fault, (resume throws s).1.coarse = AcceptLoop.resume fault s.coarse := by
  rw [resume]
  split
  · next hp =>
    refine ⟨.none, ?_⟩
    rw [AcceptLoop.resume, coarse_paused, if_pos hp]
  · next hp =>
    by_cases hopen : s.acceptor ≠ .closed ∨ throws .open = true
    · refine ⟨.open, ?_⟩
      rw [tried_resumeBlock_of_open hopen, AcceptLoop.resume, coarse_paused, if_neg hp,
        if_pos (by simp)]
    · obtain ⟨hclosed, hopen⟩ := not_or.mp hopen
      have hclosed : s.acceptor = .closed := by simpa using hclosed
      have hopen : throws .open = false := by simpa using hopen
      have hclose : s.coarse.isOpen = false := by simp [Server.coarse, hclosed]
      by_cases hlater : throws .bind = true ∨ throws .listen = true
      · obtain ⟨a, ha, htried⟩ := tried_resumeBlock_of_later hclosed hopen hlater
        refine ⟨.bind, ?_⟩
        rw [htried, AcceptLoop.resume, coarse_paused, if_neg hp, if_neg (by simp [hclose]),
          if_pos (by decide)]
        simp [Server.coarse, ha]
      · obtain ⟨hbind, hlisten⟩ := not_or.mp hlater
        have hbind : throws .bind = false := by simpa using hbind
        have hlisten : throws .listen = false := by simpa using hlisten
        refine ⟨.none, ?_⟩
        rw [tried_resumeBlock_of_quiet hclosed hopen hbind hlisten, AcceptLoop.resume,
          coarse_paused, if_neg hp, if_neg (by simp [hclose]), if_neg (by decide)]
        rfl

/-- Every call does what the accept loop says of it. -/
theorem simulates (c : Call) (s : Server) :
    ∃ fault, (c.run s).1.coarse = c.coarse fault s.coarse := by
  cases c with
  | pause throws => exact coarse_pause throws s
  | resume throws => exact coarse_resume throws s

/-- And so does every run. -/
theorem simulates_afterFrom (s : Server) (cs : List Call) :
    ∃ faults : List Fault, faults.length = cs.length ∧
      (afterFrom s cs).coarse = (cs.zip faults).foldl (fun a x => x.1.coarse x.2 a) s.coarse := by
  induction cs generalizing s with
  | nil => exact ⟨[], rfl, rfl⟩
  | cons c cs ih =>
    obtain ⟨fault, hfirst⟩ := simulates c s
    obtain ⟨faults, hlength, hrest⟩ := ih (c.run s).1
    refine ⟨fault :: faults, congrArg (· + 1) hlength, ?_⟩
    rw [List.zip_cons_cons, List.foldl_cons, ← hfirst]
    exact hrest

end Pausing
end ZwayServer
