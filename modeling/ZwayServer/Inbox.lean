import ZwayServer.DB
import ZwayServer.Keyed

/-!
# The inbox of an account

`DB::getInbox` tells a client which pushes are stored for it.  It reads them one after the
other from a cursor, which may throw at any point, groups them by their senders in a sorted
map, and writes the caller's array only when it has seen them all.

* `Cursor` — what a query delivers, and whether it throws on the way.
* `getInbox` — the function, loop and `catch` branch included.
* `Faithful` — an inbox that says exactly what is stored.
* `faithful_getInbox` — if nothing throws the inbox is faithful, and otherwise untouched.
* `run_getInbox` — this is the `DB.getInbox` that the handlers call.
-/

namespace ZwayServer

/-! ## The function -/

/-- What the cursor of a query delivers, one document after the other, and whether it throws
after the last of them.  A query that throws at once delivers none. -/
structure Cursor where
  docs : List Record
  throws : Bool

/-- A cursor over these documents: it delivers all of them, or throws before or after some. -/
def Cursor.Over (c : Cursor) (matching : List Record) : Prop :=
  if c.throws then c.docs <+: matching else c.docs = matching

namespace Inbox

/-- The query for the pushes to an account. -/
def query (x : UInt32) : RequestQuery := { dst := some x, type := some .push }

/-- The requests of a sender, as the map of the loop has them. -/
abbrev Groups := Std.TreeMap UInt32 (List UBJ.Value)

/-- One round of the loop: the first request of a sender starts its list. -/
def round (map : Groups) (obj : Record) : Groups :=
  if map.contains obj.src then map.insert obj.src (map.getD obj.src [] ++ [.int32 obj.id])
  else map.insert obj.src [.int32 obj.id]

/-- The loop over the cursor. -/
def loop : List Record → Bool → Groups → DbAnswer Groups
  | [], throws, map => if throws then .error () else .ok map
  | obj :: docs, throws, map => loop docs throws (round map obj)

/-- The object that lists the requests of one sender. -/
def entry (contactId : UInt32) (requestIds : List UBJ.Value) : UBJ.Value :=
  .object [("contactId", .int32 contactId), ("requestIds", .array requestIds)]

/-- `DB::getInbox`: what it returns, and the array of the caller afterwards. -/
def getInbox (inbox : List UBJ.Value) (c : Cursor) : Bool × List UBJ.Value :=
  match loop c.docs c.throws ∅ with
  | .ok map => (true, map.toList.map fun it => entry it.1 it.2)
  | .error () => (false, inbox)

/-! ## What it should say -/

/-- The ids of the pushes from one account to another, as they are stored. -/
def idsFrom (requests : List Record) (x src : UInt32) : List UInt32 :=
  (requests.filter fun r => r.type == .push && r.dst == some x && r.src == src).map (·.id)

/-- The inbox has one entry for each sender of a push to the account, sorted by the senders,
with the ids of that sender's pushes as they are stored. -/
def Faithful (requests : List Record) (x : UInt32) (inbox : List UBJ.Value) : Prop :=
  ∃ gs : List (UInt32 × List UInt32),
    inbox = gs.map (fun g => entry g.1 (g.2.map .int32)) ∧
    gs.Pairwise (fun g g' => g.1 < g'.1) ∧
    (∀ g ∈ gs, g.2 ≠ [] ∧ g.2 = idsFrom requests x g.1) ∧
    ∀ r ∈ requests, r.type = .push → r.dst = some x → ∃ g ∈ gs, g.1 = r.src

/-! ## The loop is a grouping -/

/-- What the loop groups by. -/
def senderOf (obj : Record) : UInt32 := obj.src

/-- What it puts into the groups. -/
def idOf (obj : Record) : UBJ.Value := .int32 obj.id

section

variable {requests : List Record} {x : UInt32} {inbox : List UBJ.Value} {c : Cursor}

theorem round_eq (map : Groups) (obj : Record) :
    round map obj = Keyed.insertGroup senderOf idOf map obj := by
  rw [round, Keyed.insertGroup]
  split
  · rfl
  · next hnew =>
    have hnone : map.contains obj.src = false := Bool.eq_false_of_not_eq_true hnew
    rw [senderOf, Std.TreeMap.getD_eq_fallback_of_contains_eq_false hnone, List.nil_append, idOf]

theorem loop_eq (docs : List Record) (throws : Bool) (map : Groups) :
    loop docs throws map = if throws then .error () else
      .ok (docs.foldl (Keyed.insertGroup senderOf idOf) map) := by
  induction docs generalizing map with
  | nil => rfl
  | cons obj docs ih => rw [loop, ih, List.foldl_cons, round_eq]

theorem getInbox_of_throws (h : c.throws = true) : getInbox inbox c = (false, inbox) := by
  rw [getInbox, loop_eq, if_pos h]

theorem getInbox_of_not_throws (h : c.throws = false) : getInbox inbox c =
    (true, (c.docs.foldl (Keyed.insertGroup senderOf idOf) ∅).toList.map
      fun it => entry it.1 it.2) := by
  rw [getInbox, loop_eq, h, if_neg Bool.false_ne_true]

theorem mem_matching {r : Record} : r ∈ requests.filter (query x).matches ↔
    r ∈ requests ∧ r.type = .push ∧ r.dst = some x := by
  rw [List.mem_filter, RequestQuery.matches_iff]
  simp [query]

/-- What the matching records have under a sender. -/
theorem ofKey_matching (src : UInt32) :
    Keyed.ofKey senderOf idOf src
      (requests.filter (query x).matches) = (idsFrom requests x src).map .int32 := by
  rw [Keyed.ofKey, idsFrom, List.filter_filter, List.map_map]
  have hsame : (requests.filter fun r => decide (senderOf r = src) && (query x).matches r) =
      requests.filter fun r => r.type == .push && r.dst == some x && r.src == src := by
    refine List.filter_congr fun r _ => ?_
    rw [Bool.eq_iff_iff, Bool.and_eq_true, RequestQuery.matches_iff, decide_eq_true_iff]
    simp [query, senderOf]
    tauto
  rw [hsame]
  rfl

/-- A grouping of the matching records is a faithful inbox. -/
theorem faithful_of_isGrouping {gs : List (UInt32 × List UBJ.Value)}
    (h : Keyed.IsGrouping senderOf idOf (requests.filter (query x).matches) gs) :
    Faithful requests x (gs.map fun it => entry it.1 it.2) := by
  have hgroup : ∀ g ∈ gs, g.2 = (idsFrom requests x g.1).map .int32 := fun g hg =>
    (h.elements g hg).trans (ofKey_matching g.1)
  refine ⟨gs.map fun g => (g.1, idsFrom requests x g.1), ?_, ?_, ?_, ?_⟩
  · rw [List.map_map]
    refine List.map_congr_left fun g hg => ?_
    show entry g.1 g.2 = entry g.1 ((idsFrom requests x g.1).map .int32)
    rw [hgroup g hg]
  · rw [List.pairwise_map]
    exact h.ordered.imp fun hlt => compareOfLessAndEq_eq_lt.mp hlt
  · intro g' hg'
    obtain ⟨g, hg, rfl⟩ := List.mem_map.mp hg'
    refine ⟨fun hnil => h.nonempty g hg ?_, rfl⟩
    have hids : idsFrom requests x g.1 = [] := hnil
    rw [hgroup g hg, hids]
    rfl
  · intro r hr hpush hdst
    obtain ⟨g, hg, hkey⟩ := h.complete r (mem_matching.mpr ⟨hr, hpush, hdst⟩)
    exact ⟨_, List.mem_map.mpr ⟨g, hg, rfl⟩, hkey⟩

end

/-- **The inbox.**  For every store and every account, `getInbox` returns `true` and a faithful
inbox if the cursor does not throw, and otherwise `false` and the array that it was given. -/
theorem faithful_getInbox (requests : List Record) (x : UInt32) (inbox : List UBJ.Value)
    (c : Cursor) (hc : c.Over (requests.filter (query x).matches)) :
    (c.throws = false →
      (getInbox inbox c).1 = true ∧ Faithful requests x (getInbox inbox c).2) ∧
    (c.throws = true → getInbox inbox c = (false, inbox)) := by
  constructor
  · intro hthrows
    rw [Cursor.Over, hthrows, if_neg Bool.false_ne_true] at hc
    rw [getInbox_of_not_throws hthrows, hc]
    exact ⟨rfl, faithful_of_isGrouping (Keyed.isGrouping_foldl _ _ _)⟩
  · exact getInbox_of_throws

/-- Two accounts have pushed to a third one by turns, and one of them wants to be its contact. -/
def sampleStore : List Record :=
  [{ id := 5, type := .push, src := 2, dst := some 7, oid := 0 },
    { id := 5, type := .push, src := 1, dst := some 7, oid := 1 },
    { id := 6, type := .addContact, src := 2, dst := some 7, oid := 2 },
    { id := 6, type := .push, src := 2, dst := some 7, oid := 3 }]

/-- All is well, or the cursor throws after the first document. -/
theorem faithful_sampleStore :
    Faithful sampleStore 7 (getInbox [] ⟨sampleStore.filter (query 7).matches, false⟩).2 ∧
      getInbox [.null] ⟨sampleStore.take 1, true⟩ = (false, [.null]) := by
  constructor
  · exact ((faithful_getInbox sampleStore 7 [] ⟨sampleStore.filter (query 7).matches, false⟩
      rfl).1 rfl).2
  · refine (faithful_getInbox sampleStore 7 [.null] ⟨sampleStore.take 1, true⟩ ?_).2 rfl
    exact ⟨_, rfl⟩

end Inbox

/-- What the handlers call is this function, on a cursor that delivers all or throws. -/
theorem run_getInbox (env : Env) (w : World) (x : UInt32) (inbox : List UBJ.Value) :
    let c : Cursor := ⟨if (w.tape 0).fails then [] else
      w.server.requests.filter (Inbox.query x).matches, (w.tape 0).fails⟩
    c.Over (w.server.requests.filter (Inbox.query x).matches) ∧
      Proc.run (step env) (DB.getInbox x) w =
        (if (Inbox.getInbox inbox c).1 then some (Inbox.getInbox inbox c).2 else none, w.next) := by
  intro c
  have hover : c.Over (w.server.requests.filter (Inbox.query x).matches) := by
    rw [Cursor.Over]
    cases hf : (w.tape 0).fails <;> simp [c, hf]
  refine ⟨hover, ?_⟩
  rw [DB.getInbox, Proc.run_bind, Proc.run_perform]
  cases hf : (w.tape 0).fails with
  | true =>
    rw [Inbox.getInbox_of_throws hf]
    simp [step, exec, Op.draws, dbCall, hf, World.next]
  | false =>
    rw [Inbox.getInbox_of_not_throws hf]
    simp [step, exec, Op.draws, dbCall, hf, World.next, c, Inbox.query, DB.groupBySender]
    rfl

theorem run_getInbox_of_succeeds (env : Env) (w : World) (x : UInt32)
    (hf : (w.tape 0).fails = false) : Proc.run (step env) (DB.getInbox x) w =
      (some (Inbox.getInbox [] ⟨w.server.requests.filter (Inbox.query x).matches, false⟩).2,
        w.next) := by
  have hrun := (run_getInbox env w x []).2
  simp only [hf, Bool.false_eq_true, if_false] at hrun
  rw [hrun, Inbox.getInbox_of_not_throws rfl]
  rfl

end ZwayServer
