import ZwayServer.Op

/-!
# The database wrapper

The functions of `class DB`.  Each makes one MongoDB call inside a `try` block and
turns an exception into a result; which result is exactly what the handlers see of
a failing database, so the `catch` branches are translated as they stand — note
`addRequest`, which returns `true` from its `catch` branch as well.

For each function, `run_…` says what it does to a `World`.
-/

namespace ZwayServer

/-! ## The calls -/

namespace Mongo

/-- `query` on `zway.accounts`, first match. -/
abbrev findAccount (q : AccountQuery) : Prog (DbAnswer (Option Account)) :=
  Proc.perform (Op.findAccount q)

/-- `query` on `zway.accounts`, at most `limit` matches. -/
abbrev findAccounts (q : AccountQuery) (limit : Nat) : Prog (CursorAnswer Account) :=
  Proc.perform (Op.findAccounts q limit)

/-- `query` on `zway.accounts` sorted by falling id, first match. -/
abbrev maxAccountId : Prog (DbAnswer (Option UInt32)) := Proc.perform Op.maxAccountId

/-- `insert` on `zway.accounts`. -/
abbrev insertAccount (a : Account) : Prog (DbAnswer Unit) := Proc.perform (Op.insertAccount a)

/-- `update` on `zway.accounts`. -/
abbrev setFcmToken (id : UInt32) (token : String) : Prog (DbAnswer Unit) :=
  Proc.perform (Op.setFcmToken id token)

/-- `query` on `zway.requests`, first match. -/
abbrev findRequest (q : RequestQuery) : Prog (DbAnswer (Option Record)) :=
  Proc.perform (Op.findRequest q)

/-- `query` on `zway.requests`, all matches, for `processRequests` of a session. -/
abbrev findRequests (s : SessionId) (q : RequestQuery) : Prog (CursorAnswer Record) :=
  Proc.perform (Op.findRequests s q)

/-- `query` on `zway.requests`, all matches, for the inbox. -/
abbrev inboxRequests (q : RequestQuery) : Prog (DbAnswer (List Record)) :=
  Proc.perform (Op.inboxRequests q)

/-- `count` on `zway.requests`. -/
abbrev countRequests (q : RequestQuery) : Prog (DbAnswer Nat) :=
  Proc.perform (Op.countRequests q)

/-- `insert` on `zway.requests`. -/
abbrev insertRequest (r : Request) : Prog (DbAnswer Unit) := Proc.perform (Op.insertRequest r)

/-- `remove` on `zway.requests`, just one. -/
abbrev removeRequest (q : RequestQuery) : Prog (DbAnswer Unit) :=
  Proc.perform (Op.removeRequest q)

end Mongo

/-! ## The functions -/

namespace DB

/-- `DB::newAccountId`. -/
def newAccountId : Prog UInt32 := do
  match ← Mongo.maxAccountId with
  | .ok (some id) => return id + 1
  | .ok none => return 1
  | .error _ => return 0

/-- `DB::getAccount`. -/
def getAccount (q : AccountQuery) : Prog (Option Account) := do
  match ← Mongo.findAccount q with
  | .ok res => return res
  | .error _ => return none

/-- `DB::setFcmToken`. -/
def setFcmToken (accountId : UInt32) (token : String) : Prog Bool := do
  match ← Mongo.setFcmToken accountId token with
  | .ok _ => return true
  | .error _ => return false

/-- `DB::getFcmToken`. -/
def getFcmToken (accountId : UInt32) : Prog String := do
  match ← Mongo.findAccount { id := some accountId } with
  | .ok (some a) => return a.fcmToken
  | .ok none => return ""
  | .error _ => return ""

/-- `DB::numContactRequests`; a failing count leaves `-1`. -/
def numContactRequests (env : Env) (accountId : UInt32) : Prog UInt32 := do
  match ← Mongo.countRequests { dst := some accountId, type := env.decode 3100 } with
  | .ok n => return UInt32.ofNat n
  | .error _ => return 0xFFFFFFFF

/-- `DB::numPushRequests`; a failing count leaves `-1`. -/
def numPushRequests (env : Env) (accountId : UInt32) : Prog UInt32 := do
  match ← Mongo.countRequests { dst := some accountId, type := env.decode 4100 } with
  | .ok n => return UInt32.ofNat n
  | .error _ => return 0xFFFFFFFF

/-- `DB::insertAccount`. -/
def insertAccount (a : Account) : Prog Bool := do
  match ← Mongo.insertAccount a with
  | .ok _ => return true
  | .error _ => return false

/-- `DB::addRequest`: the exception is logged, and the function returns `true` all the
same. -/
def addRequest (data : Request) : Prog Bool := do
  match ← Mongo.insertRequest data with
  | .ok _ => return true
  | .error _ => return true

/-- `DB::deleteRequest`. -/
def deleteRequest (query : RequestQuery) : Prog Bool := do
  match ← Mongo.removeRequest query with
  | .ok _ => return true
  | .error _ => return false

/-- `DB::requestPending`: pending means that exactly one record matches. -/
def requestPending (query : RequestQuery) : Prog Bool := do
  match ← Mongo.countRequests query with
  | .ok n => return n == 1
  | .error _ => return false

/-- `DB::getRequest`. -/
def getRequest (query : RequestQuery) : Prog (Option Record) := do
  match ← Mongo.findRequest query with
  | .ok res => return res
  | .error _ => return none

/-- `DB::getRequests`, called by `processRequests` of the session `s`: what the cursor has
delivered before it throws is kept. -/
def getRequests (s : SessionId) (query : RequestQuery) : Prog (List Record) := do
  match ← Mongo.findRequests s query with
  | .ok res => return res
  | .error res => return res

/-- `DB::getContacts`, where the same is true. -/
def getContacts (query : AccountQuery) : Prog (List Account) := do
  match ← Mongo.findAccounts query 50 with
  | .ok res => return res
  | .error res => return res

/-- The grouping loop of `DB::getInbox`: the ids of the records by sender. -/
def groupBySender (rs : List Record) : Std.TreeMap UInt32 (List UBJ.Value) :=
  rs.foldl (fun map r => map.insert r.src (map.getD r.src [] ++ [.int32 r.id])) ∅

/-- `DB::getInbox`: `none` when the query throws, so that the caller keeps its array. -/
def getInbox (accountId : UInt32) : Prog (Option (List UBJ.Value)) := do
  match ← Mongo.inboxRequests { dst := some accountId, type := some .push } with
  | .ok rs =>
    return some ((groupBySender rs).toList.map fun it =>
      .object [("contactId", .int32 it.1), ("requestIds", .array it.2)])
  | .error _ => return none

end DB

/-! ## What they perform -/

section Safe

variable {G : Op → Prop} {R : (o : Op) → o.Res → Prop}

theorem forall_answer {α : Type} {p : DbAnswer α → Prop} :
    (∀ r, p r) ↔ (∀ a, p (.ok a)) ∧ p (.error ()) := by
  constructor
  · exact fun h => ⟨fun a => h _, h _⟩
  · rintro ⟨hok, herror⟩ (e | a)
    · exact herror
    · exact hok a

@[simp] theorem safe_newAccountId {Q : UInt32 → Prop} : Proc.Safe G R DB.newAccountId Q ↔
    G .maxAccountId ∧ (∀ id, R .maxAccountId (.ok id) → Q ((id.map (· + 1)).getD 1)) ∧
      (R .maxAccountId (.error ()) → Q 0) := by
  simp [DB.newAccountId, forall_answer, Option.forall]

@[simp] theorem safe_getAccount {q : AccountQuery} {Q : Option Account → Prop} :
    Proc.Safe G R (DB.getAccount q) Q ↔
      G (.findAccount q) ∧ (∀ r, R (.findAccount q) (.ok r) → Q r) ∧
        (R (.findAccount q) (.error ()) → Q none) := by
  simp [DB.getAccount, forall_answer]

@[simp] theorem safe_setFcmToken {id : UInt32} {token : String} {Q : Bool → Prop} :
    Proc.Safe G R (DB.setFcmToken id token) Q ↔
      G (.setFcmToken id token) ∧ (∀ r, R (.setFcmToken id token) (.ok r) → Q true) ∧
        (R (.setFcmToken id token) (.error ()) → Q false) := by
  simp [DB.setFcmToken, forall_answer]

@[simp] theorem safe_insertAccount {a : Account} {Q : Bool → Prop} :
    Proc.Safe G R (DB.insertAccount a) Q ↔
      G (.insertAccount a) ∧ (∀ r, R (.insertAccount a) (.ok r) → Q true) ∧
        (R (.insertAccount a) (.error ()) → Q false) := by
  simp [DB.insertAccount, forall_answer]

@[simp] theorem safe_addRequest {r : Request} {Q : Bool → Prop} :
    Proc.Safe G R (DB.addRequest r) Q ↔
      G (.insertRequest r) ∧ (∀ u, R (.insertRequest r) (.ok u) → Q true) ∧
        (R (.insertRequest r) (.error ()) → Q true) := by
  simp [DB.addRequest, forall_answer]

@[simp] theorem safe_deleteRequest {q : RequestQuery} {Q : Bool → Prop} :
    Proc.Safe G R (DB.deleteRequest q) Q ↔
      G (.removeRequest q) ∧ (∀ u, R (.removeRequest q) (.ok u) → Q true) ∧
        (R (.removeRequest q) (.error ()) → Q false) := by
  simp [DB.deleteRequest, forall_answer]

@[simp] theorem safe_requestPending {q : RequestQuery} {Q : Bool → Prop} :
    Proc.Safe G R (DB.requestPending q) Q ↔
      G (.countRequests q) ∧ (∀ n, R (.countRequests q) (.ok n) → Q (n == 1)) ∧
        (R (.countRequests q) (.error ()) → Q false) := by
  simp [DB.requestPending, forall_answer]

@[simp] theorem safe_getRequest {q : RequestQuery} {Q : Option Record → Prop} :
    Proc.Safe G R (DB.getRequest q) Q ↔
      G (.findRequest q) ∧ (∀ r, R (.findRequest q) (.ok r) → Q r) ∧
        (R (.findRequest q) (.error ()) → Q none) := by
  simp [DB.getRequest, forall_answer]

@[simp] theorem safe_getRequests {s : SessionId} {q : RequestQuery} {Q : List Record → Prop} :
    Proc.Safe G R (DB.getRequests s q) Q ↔
      G (.findRequests s q) ∧ ∀ r, R (.findRequests s q) r → Q (CursorAnswer.docs r) := by
  simp only [DB.getRequests, Proc.safe_bind, Proc.safe_perform]
  refine and_congr_right fun _ => forall_congr' fun r => ?_
  cases r <;> rfl

@[simp] theorem safe_getContacts {q : AccountQuery} {Q : List Account → Prop} :
    Proc.Safe G R (DB.getContacts q) Q ↔
      G (.findAccounts q 50) ∧ ∀ r, R (.findAccounts q 50) r → Q (CursorAnswer.docs r) := by
  simp only [DB.getContacts, Proc.safe_bind, Proc.safe_perform]
  refine and_congr_right fun _ => forall_congr' fun r => ?_
  cases r <;> rfl

end Safe

/-! ## What they do to a world -/

namespace World

variable (w : World)

/-- Use up one choice. -/
def next : World := { w with tape := fun n => w.tape (n + 1) }

/-- Change the server. -/
def update (f : ServerState → ServerState) : World := { w with server := f w.server }

/-- The answer of a lookup in `zway.accounts`. -/
def account (env : Env) (q : AccountQuery) : Option Account :=
  if (w.tape 0).fails then none else (q.test env).bind w.server.accounts.find?

/-- The answer of a lookup in `zway.requests`. -/
def request (q : RequestQuery) : Option Record :=
  if (w.tape 0).fails then none else w.server.requests.find? q.matches

/-- Is exactly one such request stored? -/
def pending (q : RequestQuery) : Bool :=
  !(w.tape 0).fails && w.server.requests.countP q.matches == 1

/-- After an insert into `zway.requests`. -/
def insertRequest (r : Request) : World :=
  { server := if (w.tape 0).fails then w.server else w.server.insertRequest r
    tape := fun n => w.tape (n + 1)
    inserts := w.inserts ++ [(r, (w.tape 0).fails)] }

/-- After a removal from `zway.requests`. -/
def removeRequest (q : RequestQuery) : World :=
  { w with
    server := if (w.tape 0).fails then w.server else w.server.removeRequest q
    tape := fun n => w.tape (n + 1) }

@[simp] theorem next_server : w.next.server = w.server := rfl

@[simp] theorem next_inserts : w.next.inserts = w.inserts := rfl

@[simp] theorem next_tape (n : Nat) : w.next.tape n = w.tape (n + 1) := rfl

@[simp] theorem update_server (f : ServerState → ServerState) :
    (w.update f).server = f w.server := rfl

@[simp] theorem update_inserts (f : ServerState → ServerState) :
    (w.update f).inserts = w.inserts := rfl

@[simp] theorem update_tape (f : ServerState → ServerState) : (w.update f).tape = w.tape := rfl

@[simp] theorem insertRequest_tape (r : Request) (n : Nat) :
    (w.insertRequest r).tape n = w.tape (n + 1) := rfl

@[simp] theorem insertRequest_inserts (r : Request) :
    (w.insertRequest r).inserts = w.inserts ++ [(r, (w.tape 0).fails)] := rfl

@[simp] theorem removeRequest_tape (q : RequestQuery) (n : Nat) :
    (w.removeRequest q).tape n = w.tape (n + 1) := rfl

@[simp] theorem removeRequest_inserts (q : RequestQuery) :
    (w.removeRequest q).inserts = w.inserts := rfl

end World

section Run

variable (env : Env) (w : World)

theorem run_getAccount (q : AccountQuery) :
    Proc.run (step env) (DB.getAccount q) w = (w.account env q, w.next) := by
  rw [DB.getAccount, Proc.run_bind, Proc.run_perform]
  cases hq : q.test env with
  | none => simp [step, exec, Op.draws, World.account, World.next, hq]
  | some p =>
    by_cases hf : (w.tape 0).fails = true <;>
      simp [step, exec, Op.draws, dbCall, World.account, World.next, hq, hf]

theorem run_getRequest (q : RequestQuery) :
    Proc.run (step env) (DB.getRequest q) w = (w.request q, w.next) := by
  rw [DB.getRequest, Proc.run_bind, Proc.run_perform]
  by_cases hf : (w.tape 0).fails = true <;>
    simp [step, exec, Op.draws, dbCall, World.request, World.next, hf]

theorem run_addRequest (r : Request) :
    Proc.run (step env) (DB.addRequest r) w = (true, w.insertRequest r) := by
  rw [DB.addRequest, Proc.run_bind, Proc.run_perform]
  by_cases hf : (w.tape 0).fails = true <;>
    simp [step, exec, Op.draws, dbCall, World.insertRequest, hf]

theorem run_deleteRequest (q : RequestQuery) :
    Proc.run (step env) (DB.deleteRequest q) w = (!(w.tape 0).fails, w.removeRequest q) := by
  rw [DB.deleteRequest, Proc.run_bind, Proc.run_perform]
  by_cases hf : (w.tape 0).fails = true <;>
    simp [step, exec, Op.draws, dbCall, World.removeRequest, hf]

theorem run_requestPending (q : RequestQuery) :
    Proc.run (step env) (DB.requestPending q) w = (w.pending q, w.next) := by
  rw [DB.requestPending, Proc.run_bind, Proc.run_perform]
  by_cases hf : (w.tape 0).fails = true <;>
    simp [step, exec, Op.draws, dbCall, World.pending, World.next, hf]

end Run

end ZwayServer
