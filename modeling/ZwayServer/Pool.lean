import ZwayServer.Proc.Threads

/-!
# The pool of database connections

Every function of `DB` works on a connection that it gets from `acquire` and that goes back
into the queue when the `Lock` around it is destroyed.  `acquire` tries twice: when the
queue is empty it waits on a condition variable, and then looks again, once.

* `State`, `Point`, `poolCode` — the static fields of `DB`, the points, and the sections.
* `conserved` — whatever the schedule, the connections in the queue and those that threads
  have are the connections of `startup`, each once.
* `neverNull_iff` — `acquire` never returns a null pointer exactly if there are at least as
  many connections as threads.
* `neverNull_server_iff` — what that means for the worker counts of `main`.
-/

namespace ZwayServer
namespace Pool

open Threads

/-! ## The code -/

/-- A connection, told apart by when `startup` created it. -/
abbrev Connection := ℕ

/-- The static fields of `DB`. -/
structure State where
  /-- `m_connections`. -/
  connections : List Connection
  /-- `m_mutex` is held by a thread that has waited and is about to look again. -/
  locked : Bool := false
  /-- How many threads are blocked in `wait_for` on `m_condition`. -/
  waiting : ℕ := 0
  /-- How many of them `notify_one` has picked. -/
  notified : ℕ := 0

/-- `DB::startup`. -/
def startup (numConnections : ℕ) : State := { connections := List.range numConnections }

/-- Where a thread can be. -/
inductive Point where
  /-- `acquire`, before its first `getConnection`. -/
  | first
  /-- `acquire`, before it locks `m_mutex`. -/
  | wait
  /-- `acquire`, in `wait_for`. -/
  | waiting
  /-- `acquire`, before its second `getConnection`, with `m_mutex` held. -/
  | second
  /-- `acquire`, before `Lock::create`. -/
  | create (con : Connection)
  /-- `acquire`, returning a null pointer. -/
  | null
  /-- The thread has a `Lock`. -/
  | lock (con : Connection)
  /-- `unlock`, before it locks `m_mutex`. -/
  | notify
  deriving DecidableEq

/-- How `wait_for` ends. -/
inductive Wake where
  | notified | timeout | spurious
  deriving DecidableEq

/-- `DB::getConnection`. -/
def getConnection (s : State) : State × Option Connection :=
  ({ s with connections := s.connections.tail }, s.connections.head?)

/-- The sections of `DB::acquire` and `DB::Connection::Lock::unlock`.  A thread that has to
wait for `m_mutex` stays where it is. -/
def perform : Point → Wake → State → State × Option Point
  | .first, _, s =>
    let (s, con) := getConnection s
    (s, some (con.elim .wait .create))
  | .wait, _, s =>
    if s.locked then (s, some .wait) else ({ s with waiting := s.waiting + 1 }, some .waiting)
  | .waiting, c, s =>
    if s.locked ∨ c = .notified ∧ s.notified = 0 then (s, some .waiting)
    else
      let notified := if c = .notified then s.notified - 1 else min s.notified (s.waiting - 1)
      ({ s with locked := true, waiting := s.waiting - 1, notified := notified }, some .second)
  | .second, _, s =>
    let (s, con) := getConnection s
    ({ s with locked := false }, some (con.elim .null .create))
  | .create con, _, s => (s, some (.lock con))
  | .null, _, s => (s, none)
  | .lock con, _, s => ({ s with connections := s.connections ++ [con] }, some .notify)
  | .notify, _, s =>
    if s.locked then (s, some .notify)
    else ({ s with notified := min (s.notified + 1) s.waiting }, none)

/-- Threads begin with `acquire`; a thread that has a `Lock` goes on with its destruction. -/
def poolCode : Code State Point Wake where
  enter p s := if p = .first then some s else none
  perform := perform

/-- Where a run leads that starts with `n` connections. -/
abbrev poolAfter (n : ℕ) (ms : List (Move Point Wake)) : Config State Point :=
  after poolCode (startup n) ms

/-! ## Every connection once -/

/-- The connection that a thread has: it is about to be wrapped, or is in a `Lock`. -/
def Point.has : Point → Multiset Connection
  | .create con => {con}
  | .lock con => {con}
  | _ => 0

/-- All connections: those in the queue and those that threads have. -/
def pooled (s : State) (w : Multiset Point) : Multiset Connection :=
  (s.connections : Multiset Connection) + w.bind Point.has

theorem getConnection_connections (s : State) : s.connections =
    (getConnection s).2.toList ++ (getConnection s).1.connections := by
  unfold getConnection
  cases s.connections <;> rfl

/-- A connection that is taken out of the queue is in the hands of the thread. -/
theorem pooled_getConnection (s : State) (w : Multiset Point) (b : Bool) {p : Point}
    (hp : p.has = 0) :
    pooled { (getConnection s).1 with locked := b }
      (rejoin (some ((getConnection s).2.elim p .create)) w) = pooled s w := by
  rw [pooled, pooled, getConnection_connections s]
  cases (getConnection s).2 with
  | none => simp only [Option.elim_none, rejoin_some, Multiset.cons_bind, hp, zero_add,
      Option.toList_none, List.nil_append]
  | some con =>
    simp only [Option.elim_some, rejoin_some, Multiset.cons_bind, Point.has, Option.toList_some,
      List.singleton_append, ← Multiset.cons_coe]
    rw [Multiset.singleton_add, Multiset.cons_add, Multiset.add_cons]

theorem pooled_perform (p : Point) (c : Wake) (s : State) (w : Multiset Point) :
    pooled (perform p c s).1 (rejoin (perform p c s).2 w) = pooled s (p ::ₘ w) := by
  cases p with
  | first =>
    have hget := pooled_getConnection s w s.locked (p := .wait) rfl
    simpa [perform, pooled, Point.has] using hget
  | wait =>
    rw [perform]
    split <;> simp [pooled, Point.has]
  | waiting =>
    rw [perform]
    split <;> simp [pooled, Point.has]
  | second =>
    have hget := pooled_getConnection s w false (p := .null) rfl
    simpa [perform, pooled, Point.has] using hget
  | create con => simp [perform, pooled, Point.has]
  | null => simp [perform, pooled, Point.has]
  | lock con =>
    have hcoe : ((s.connections ++ [con] : List Connection) : Multiset Connection) =
        s.connections + {con} := rfl
    simp only [perform, pooled, rejoin_some, Multiset.cons_bind, Point.has, hcoe, zero_add,
      add_assoc]
  | notify =>
    rw [perform]
    split <;> simp [pooled, Point.has]

/-- **No connection is lost, and none is given out twice.**  The connections that threads have
differ, so no two of them work on one client. -/
theorem conserved (n : ℕ) (ms : List (Move Point Wake)) :
    pooled (poolAfter n ms).shared (poolAfter n ms).points = Multiset.range n ∧
      ((poolAfter n ms).points.bind Point.has).Nodup := by
  have hall : pooled (poolAfter n ms).shared (poolAfter n ms).points = Multiset.range n := by
    refine invariant (I := fun s w => pooled s w = Multiset.range n) ?_ ?_ ?_ ms
    · exact add_zero _
    · intro p s s' w hI henter
      simp only [poolCode, Option.ite_none_right_eq_some, Option.some.injEq] at henter
      obtain ⟨rfl, rfl⟩ := henter
      simpa [pooled, Point.has] using hI
    · intro p c s w hI
      exact (pooled_perform p c s w).trans hI
  refine ⟨hall, ?_⟩
  have hnodup : (pooled (poolAfter n ms).shared (poolAfter n ms).points).Nodup := by
    rw [hall]
    exact Multiset.nodup_range n
  exact (Multiset.nodup_add.mp hnodup).2.1

/-! ## Whether a null pointer is returned -/

/-- A thread begins while fewer than `T` are under way, and no wait ends by its timeout. -/
def Admitted (T : ℕ) : Move Point Wake → Config State Point → Prop
  | .begin _, X => X.points.card < T
  | .proceed _ c, _ => c ≠ .timeout

instance (T : ℕ) (m : Move Point Wake) (X : Config State Point) : Decidable (Admitted T m X) := by
  unfold Admitted
  split <;> infer_instance

/-- With `n` connections and at most `T` threads, each with at most one `Lock` at a time,
`acquire` never returns a null pointer. -/
def NeverNull (n T : ℕ) : Prop :=
  ∀ ms, Meets poolCode (Admitted T) (startup n) ms → .null ∉ (poolAfter n ms).points

/-- Points of a thread that did not find a connection at once. -/
def Point.empty : Point → Bool
  | .wait => true
  | .waiting => true
  | .second => true
  | .null => true
  | _ => false

theorem card_has_le (p : Point) : p.has.card ≤ 1 := by
  cases p <;> simp [Point.has]

theorem card_bind_has_le (w : Multiset Point) : (w.bind Point.has).card ≤ w.card := by
  induction w using Multiset.induction with
  | empty => simp
  | cons p w ih =>
    have hp := card_has_le p
    rw [Multiset.cons_bind, Multiset.card_add, Multiset.card_cons]
    omega

/-- With enough connections, a thread finds one at once. -/
structure Plenty (n T : ℕ) (s : State) (w : Multiset Point) : Prop where
  all : (pooled s w).card = n
  threads : w.card ≤ T
  found : ∀ p ∈ w, p.empty = false

theorem plenty_perform {n T : ℕ} (hT : T ≤ n) {p : Point} {c : Wake} {s : State}
    {w : Multiset Point} (h : Plenty n T s (p ::ₘ w)) :
    Plenty n T (perform p c s).1 (rejoin (perform p c s).2 w) := by
  have hall : (pooled (perform p c s).1 (rejoin (perform p c s).2 w)).card = n := by
    rw [pooled_perform]
    exact h.all
  have hcard := h.threads
  rw [Multiset.card_cons] at hcard
  have hothers : ∀ q ∈ w, q.empty = false := fun q hq => h.found q (Multiset.mem_cons_of_mem hq)
  have hself : p.empty = false := h.found p (Multiset.mem_cons_self p w)
  -- where the thread goes on, it has found what it looked for
  have hgo : ∀ q, (perform p c s).2 = some q → q.empty = false := by
    intro q hq
    cases p with
    | first =>
      have hn := h.all
      have hle := card_bind_has_le w
      simp only [pooled, Multiset.cons_bind, Point.has, zero_add, Multiset.card_add,
        Multiset.coe_card] at hn
      cases hcon : s.connections with
      | nil =>
        rw [hcon, List.length_nil] at hn
        omega
      | cons con cons =>
        simp only [perform, getConnection, hcon, List.head?_cons, Option.elim_some,
          Option.some.injEq] at hq
        rw [← hq]
        rfl
    | create con => simp only [perform, Option.some.injEq] at hq; rw [← hq]; rfl
    | lock con => simp only [perform, Option.some.injEq] at hq; rw [← hq]; rfl
    | notify =>
      rw [perform] at hq
      split at hq
      · simp only [Option.some.injEq] at hq; rw [← hq]; rfl
      · simp at hq
    | wait | waiting | second | null => simp [Point.empty] at hself
  refine ⟨hall, ?_, ?_⟩
  · cases (perform p c s).2 with
    | none => rw [rejoin_none]; omega
    | some q => rw [rejoin_some, Multiset.card_cons]; omega
  · cases hres : (perform p c s).2 with
    | none => exact hothers
    | some q =>
      rw [rejoin_some]
      intro r hr
      rcases Multiset.mem_cons.mp hr with rfl | hr
      · exact hgo r hres
      · exact hothers r hr

theorem neverNull_of_le {n T : ℕ} (hT : T ≤ n) : NeverNull n T := by
  intro ms hmeets hnull
  have hinit : Plenty n T (startup n) 0 :=
    ⟨by simp [pooled, startup], Nat.zero_le T, fun p hp => absurd hp (Multiset.notMem_zero p)⟩
  have hplenty : Plenty n T (poolAfter n ms).shared (poolAfter n ms).points := by
    refine hmeets.invariant hinit ?_ ?_
    · intro p s s' w hok hI henter
      simp only [poolCode, Option.ite_none_right_eq_some, Option.some.injEq] at henter
      obtain ⟨rfl, rfl⟩ := henter
      refine ⟨by simpa [pooled, Point.has] using hI.all, ?_, ?_⟩
      · rw [Multiset.card_cons]
        exact hok
      · intro q hq
        rcases Multiset.mem_cons.mp hq with rfl | hq
        · rfl
        · exact hI.found q hq
    · intro p c s w _ hI
      exact plenty_perform hT hI
  have hempty := hplenty.found .null hnull
  simp [Point.empty] at hempty

/-- A thread gets connection `k` at once. -/
def takeLock (k : ℕ) : List (Move Point Wake) :=
  [.proceed (.create k) .spurious, .proceed .first .spurious, .begin .first]

/-- The first `k` connections are taken, by as many threads. -/
def drain : ℕ → List (Move Point Wake)
  | 0 => []
  | k + 1 => takeLock k ++ drain k

/-- A thread finds no connection, waits, wakes up, and finds none again. -/
def missTwice : List (Move Point Wake) :=
  [.proceed .second .spurious, .proceed .waiting .spurious, .proceed .wait .spurious,
    .proceed .first .spurious, .begin .first]

theorem poolAfter_drain {n k : ℕ} (h : k ≤ n) : poolAfter n (drain k) =
    ⟨{ connections := (List.range n).drop k }, (Multiset.range k).map .lock⟩ := by
  induction k with
  | zero => rfl
  | succ k ih =>
    have hdrop : (List.range n).drop k = k :: (List.range n).drop (k + 1) := by
      rw [List.drop_eq_getElem_cons (by simpa using h)]
      simp
    have hprev : after poolCode (startup n) (drain k) = _ := ih (by omega)
    simp only [drain, takeLock, List.cons_append, List.nil_append, after, hprev, hdrop]
    simp [next, poolCode, perform, getConnection, Multiset.range_succ]

theorem meets_drain {n T k : ℕ} (hkn : k ≤ n) (hkT : k ≤ T) :
    Meets poolCode (Admitted T) (startup n) (drain k) := by
  induction k with
  | zero => exact trivial
  | succ k ih =>
    have hprev : after poolCode (startup n) (drain k) = _ := poolAfter_drain (by omega)
    have hcard : (after poolCode (startup n) (drain k)).points.card = k := by simp [hprev]
    refine ⟨by simp [Admitted], by simp [Admitted], ?_, ih (by omega) (by omega)⟩
    change (after poolCode (startup n) (drain k)).points.card < T
    omega

theorem not_neverNull_of_lt {n T : ℕ} (hT : n < T) : ¬ NeverNull n T := by
  intro h
  have hprev : after poolCode (startup n) (drain n) = _ := poolAfter_drain (le_refl n)
  refine h (missTwice ++ drain n) ⟨by simp [Admitted], by simp [Admitted], by simp [Admitted],
    by simp [Admitted], ?_, meets_drain (le_refl n) (by omega)⟩ ?_
  · have hcard : (after poolCode (startup n) (drain n)).points.card = n := by simp [hprev]
    change (after poolCode (startup n) (drain n)).points.card < T
    omega
  · have hnil : (List.range n).drop n = [] := by simp
    simp only [poolAfter, missTwice, List.cons_append, List.nil_append, after, hprev, hnil]
    simp [next, poolCode, perform, getConnection]

/-- `acquire` never returns a null pointer exactly if there are enough connections for all
threads: then nobody ever waits. -/
theorem neverNull_iff (n T : ℕ) : NeverNull n T ↔ T ≤ n := by
  refine ⟨fun h => ?_, neverNull_of_le⟩
  by_contra hT
  exact not_neverNull_of_lt (not_le.mp hT) h

/-- `MAX_WORKERS`. -/
def maxWorkers : ℕ := 50

/-- How many workers `main` starts.  The loop compares an unsigned counter with the option
`num-workers`, so a negative count is a large one. -/
def workers (numWorkers : Int32) : ℕ := min numWorkers.toUInt32.toNat maxWorkers

/-- The connections that `Server::start` asks for. -/
def serverConnections : ℕ := 25

/-- The worker threads and the main thread never get a null pointer from `acquire` exactly if
there are at most 24 workers. -/
theorem neverNull_server_iff (numWorkers : Int32) :
    NeverNull serverConnections (workers numWorkers + 1) ↔ workers numWorkers ≤ 24 := by
  rw [neverNull_iff, serverConnections]
  omega

/-- Twenty-five workers and the main thread: the main thread finds no connection and waits,
connection 0 is given back and the main thread is notified, but a worker takes the
connection before the main thread looks again. -/
def bargingRun : List (Move Point Wake) :=
  [.proceed .second .notified, .proceed .waiting .notified] ++ takeLock 0 ++
    [.proceed .notify .notified, .proceed (.lock 0) .notified, .proceed .wait .notified,
      .proceed .first .notified, .begin .first] ++ drain 25

set_option maxRecDepth 4000 in
theorem null_bargingRun : workers 25 = 25 ∧
    Meets poolCode (Admitted (workers 25 + 1)) (startup serverConnections) bargingRun ∧
    Point.null ∈ (poolAfter serverConnections bargingRun).points ∧
    ¬ NeverNull serverConnections (workers 25 + 1) := by
  have hworkers : workers 25 = 25 := by decide +kernel
  have hmeets : Meets poolCode (Admitted (workers 25 + 1)) (startup serverConnections) bargingRun :=
    by decide +kernel
  have hnull : Point.null ∈ (poolAfter serverConnections bargingRun).points := by decide +kernel
  refine ⟨hworkers, hmeets, hnull, ?_⟩
  intro h
  exact h bargingRun hmeets hnull

end Pool
end ZwayServer
