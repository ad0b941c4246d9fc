import ZwayServer.Proc.Logic
import ZwayServer.State

/-!
# The atomic operations

What the source does in one indivisible step: one MongoDB call, one access to the
session registry, one field of a session, one call into `Zway::Engine` or the file
system.  The handlers are programs over these operations (`Prog`).

Two things decide the outcome of an operation besides the state: libraries that
are not part of the repository (`Env`), and the outside world, which chooses
whether a database call throws, what the random generator returns and what time
it is (`Choice`).  `exec` is the meaning of one operation; `World` feeds it a tape
of choices, one for each operation that needs one.
-/

namespace ZwayServer

/-! ## The environment -/

/-- The libraries the server calls. -/
structure Env where
  /-- The number of an enumerator of `Zway::Request::Type`. -/
  code : RequestType → UInt32
  /-- The enumerator of a number, if there is one. -/
  decode : UInt32 → Option RequestType
  /-- The enumerators have different numbers. -/
  decode_code : ∀ t, decode (code t) = some t
  /-- `Request::AddContact` has the number that `DB::numContactRequests` queries. -/
  code_addContact : code .addContact = 3100
  /-- `Request::Push` has the number that `DB::numPushRequests` queries. -/
  code_push : code .push = 4100
  /-- `Zway::MAX_PACKET_BODY`. -/
  maxPacketBody : UInt64
  /-- SHA-256 of a string of bytes, whose calls are taken to succeed. -/
  sha256 : List UInt8 → List UInt8
  /-- A case-insensitive, unanchored regular expression; `none` if it is malformed. -/
  regex : String → Option (String → Bool)

/-- What the outside world decides about one operation. -/
structure Choice where
  /-- The call throws, or fails; a MongoDB call that throws has changed nothing. -/
  fails : Bool := false
  /-- How many documents a cursor delivers before it throws. -/
  delivered : Nat := 0
  /-- 32 random bits. -/
  word : UInt32 := 0
  /-- 32 random bytes. -/
  salt : List UInt8 := []
  /-- `time(nullptr)`. -/
  time : UInt64 := 0
  /-- The `fflush` after a `fwrite` fails. -/
  unflushed : Bool := false
  /-- How much a `fwrite` or a `fflush` that fails still puts into the file, short of all. -/
  written : Nat := 0
  /-- How many bytes the buffer of a C stream takes. -/
  room : Nat := 4096
  deriving Inhabited

/-- The answer of a MongoDB call, which may throw. -/
abbrev DbAnswer (α : Type) := Except Unit α

/-- What a cursor delivers: all documents, or some before it throws. -/
abbrev CursorAnswer (α : Type) := Except (List α) (List α)

/-- The documents that were delivered. -/
def CursorAnswer.docs {α : Type} : CursorAnswer α → List α
  | .ok docs | .error docs => docs

/-- The same answer about other documents. -/
def CursorAnswer.map {α β : Type} (f : α → β) : CursorAnswer α → CursorAnswer β
  | .ok docs => .ok (docs.map f)
  | .error docs => .error (docs.map f)

/-! ## The operations -/

/-- An atomic operation: on the fields of a session, on its engine, on the collections
`zway.accounts` and `zway.requests`, on the session registry and the task queue, on
files and stream buffers, and the calls to the rest of the world. -/
inductive Op where
  | status (s : SessionId)
  | setStatus (s : SessionId) (st : Status)
  | accountId (s : SessionId)
  | setAccountId (s : SessionId) (id : UInt32)
  | contacts (s : SessionId)
  | clearContacts (s : SessionId)
  | putContact (s : SessionId) (id : UInt32) (contact : UBJ.Object)
  | config (s : SessionId)
  | setConfig (s : SessionId) (config : UBJ.Object)
  | respond (s : SessionId) (r : Response)
  | requestPending (s : SessionId) (type : RequestType) (id : UInt32)
  | postRequest (s : SessionId) (p : Posted)
  | takePosted (s : SessionId) (k : Nat)
  | addUbjSender (s : SessionId) (head : UBJ.Object)
  | addReceiver (s : SessionId) (r : Receiver)
  | findReceiver (s : SessionId) (streamId : UInt32)
  | senderInit (s : SessionId) (id : UInt32)
  | addEngineSender (s : SessionId) (x : Sender)
  | findAccount (q : AccountQuery)
  | findAccounts (q : AccountQuery) (limit : Nat)
  | maxAccountId
  | insertAccount (a : Account)
  | setFcmToken (id : UInt32) (token : String)
  | findRequest (q : RequestQuery)
  | findRequests (s : SessionId) (q : RequestQuery)
  | inboxRequests (q : RequestQuery)
  | countRequests (q : RequestQuery)
  | insertRequest (r : Request)
  | removeRequest (q : RequestQuery)
  | appendSession (s : SessionId)
  | removeSession (s : SessionId)
  | getSessions (id : UInt32)
  | allSessions
  | clearSessions
  | schedule (id : UInt32)
  | fopenRead (filename : String)
  | fopenAppend (filename : String)
  | fileSize (filename : String)
  | fwrite (filename : String) (data : List UInt8)
  | fread (filename : String) (size offset : Nat)
  | newBuffer (b : StreamBuffer)
  | readBuffer (ref : Nat)
  | addReadable (ref : Nat) (bytes : UInt64)
  | touchBuffer (ref : Nat)
  | findBuffer (id : UInt32)
  | putBuffer (id : UInt32) (ref : Nat)
  | addSender (x : Sender)
  | senderAt (k : Nat)
  | setSender (k : Nat) (x : Sender)
  | dropSenders (completed : Sender → Bool)
  | evictBuffers (t : UInt64)
  | random
  | randomSalt
  | time
  | sendFcm (token : String) (type : UInt32) (num : UInt32)
  | terminate

/-- The type of an operation's answer. -/
@[reducible] def Op.Res : Op → Type
  | .status _ => Status
  | .accountId _ => UInt32
  | .contacts _ => List (UInt32 × UBJ.Object)
  | .config _ => UBJ.Object
  | .requestPending .. => Bool
  | .takePosted .. => Option Posted
  | .addReceiver .. => Bool
  | .findReceiver .. => Option Receiver
  | .senderInit .. => Bool
  | .addEngineSender .. => Bool
  | .findAccount _ => DbAnswer (Option Account)
  | .findAccounts .. => CursorAnswer Account
  | .maxAccountId => DbAnswer (Option UInt32)
  | .insertAccount _ => DbAnswer Unit
  | .setFcmToken .. => DbAnswer Unit
  | .findRequest _ => DbAnswer (Option Record)
  | .findRequests .. => CursorAnswer Record
  | .inboxRequests _ => DbAnswer (List Record)
  | .countRequests _ => DbAnswer Nat
  | .insertRequest _ => DbAnswer Unit
  | .removeRequest _ => DbAnswer Unit
  | .getSessions _ => List SessionId
  | .allSessions => List SessionId
  | .fopenRead _ => Bool
  | .fopenAppend _ => Bool
  | .fileSize _ => UInt64
  | .fwrite .. => Bool
  | .fread .. => Option (List UInt8)
  | .newBuffer _ => Nat
  | .readBuffer _ => StreamBuffer
  | .findBuffer _ => Option Nat
  | .senderAt _ => Option Sender
  | .random => UInt32
  | .randomSalt => List UInt8
  | .time => UInt64
  | _ => Unit

/-- A program of the server. -/
abbrev Prog := Proc Op Op.Res

/-! ## Queries -/

/-- The test a query on `zway.accounts` makes, `none` if its pattern is malformed. -/
def AccountQuery.test (env : Env) (q : AccountQuery) : Option (Account → Bool) :=
  let fields (a : Account) : Bool :=
    q.id.all (· == a.id) && q.idNe.all (· != a.id) && q.name.all (· == a.name) &&
      q.findByName.all (· == a.findByName)
  match q.nameRegex with
  | none => some fields
  | some p => (env.regex p).map fun matchesName => fun a => fields a && matchesName a.name

/-- The largest account id, compared as MongoDB compares 32-bit integers. -/
def maxAccountId : List Account → Option UInt32
  | [] => none
  | a :: as =>
    match maxAccountId as with
    | none => some a.id
    | some m => some (if m.toInt32 < a.id.toInt32 then a.id else m)

/-- `tmp/<id>`, the file of a stream. -/
def tmpFile (id : UInt32) : String := "tmp/" ++ toString id.toNat

/-! ## The meaning of an operation -/

/-- A MongoDB call: it throws if the outside world says so, and changes nothing then. -/
def dbCall {α : Type} (c : Choice) (σ : ServerState) (answer : α) (σ' : ServerState) :
    DbAnswer α × ServerState :=
  if c.fails then (.error (), σ) else (.ok answer, σ')

/-- A cursor over these documents. -/
def cursor {α : Type} (c : Choice) (docs : List α) : CursorAnswer α :=
  if c.fails then .error (docs.take c.delivered) else .ok docs

/-- What an operation answers and how it changes the state. -/
def exec (env : Env) : (o : Op) → Choice → ServerState → o.Res × ServerState
  | .status s, _, σ => ((σ.sessions s).status, σ)
  | .setStatus s st, _, σ => ((), σ.modify s fun x => { x with status := st })
  | .accountId s, _, σ => ((σ.sessions s).accountId, σ)
  | .setAccountId s id, _, σ => ((), σ.modify s fun x => { x with accountId := id })
  | .contacts s, _, σ => ((σ.sessions s).contacts.toList, σ)
  | .clearContacts s, _, σ => ((), σ.modify s fun x => { x with contacts := ∅ })
  | .putContact s id v, _, σ =>
    ((), σ.modify s fun x => { x with contacts := x.contacts.insert id v })
  | .config s, _, σ => ((σ.sessions s).config, σ)
  | .setConfig s v, _, σ => ((), σ.modify s fun x => { x with config := v })
  | .respond s r, _, σ => ((), σ.send s (.response r))
  | .requestPending s t id, _, σ =>
    ((σ.sessions s).posted.any fun p => p.type == t && p.id == id, σ)
  | .postRequest s p, _, σ =>
    ((), (σ.send s (.request p.type p.id p.head)).modify s
      fun x => { x with posted := x.posted ++ [p] })
  | .takePosted s k, _, σ =>
    ((σ.sessions s).posted[k]?, σ.modify s fun x => { x with posted := x.posted.eraseIdx k })
  | .addUbjSender s head, _, σ => ((), σ.send s (.ubj head))
  | .addReceiver s r, c, σ =>
    if c.fails then (false, σ)
    else (true, σ.modify s fun x => { x with receivers := x.receivers ++ [r] })
  | .findReceiver s id, _, σ => ((σ.sessions s).receivers.find? (·.streamId == id), σ)
  | .senderInit .., c, σ => (!c.fails, σ)
  | .addEngineSender s x, c, σ =>
    if c.fails then (false, σ)
    else (true, σ.modify s fun y => { y with senders := y.senders ++ [x] })
  | .findAccount q, c, σ =>
    match q.test env with
    | none => (.error (), σ)
    | some p => dbCall c σ (σ.accounts.find? p) σ
  | .findAccounts q limit, c, σ =>
    match q.test env with
    | none => (.error [], σ)
    | some p => (cursor c ((σ.accounts.filter p).take limit), σ)
  | .maxAccountId, c, σ => dbCall c σ (maxAccountId σ.accounts) σ
  | .insertAccount a, c, σ => dbCall c σ () (σ.insertAccount a)
  | .setFcmToken id token, c, σ =>
    dbCall c σ () { σ with accounts := σ.accounts.replaceF fun a =>
      if a.id = id then some { a with fcmToken := token } else none }
  | .findRequest q, c, σ => dbCall c σ (σ.requests.find? q.matches) σ
  | .findRequests _ q, c, σ => (cursor c (σ.requests.filter q.matches), σ)
  | .inboxRequests q, c, σ => dbCall c σ (σ.requests.filter q.matches) σ
  | .countRequests q, c, σ => dbCall c σ (σ.requests.countP q.matches) σ
  | .insertRequest r, c, σ => dbCall c σ () (σ.insertRequest r)
  | .removeRequest q, c, σ => dbCall c σ () (σ.removeRequest q)
  | .appendSession s, _, σ => ((), σ.appendSession s)
  | .removeSession s, _, σ => ((), σ.removeSession s)
  | .getSessions id, _, σ => (σ.getSessions id, σ)
  | .allSessions, _, σ => (σ.listed, σ)
  | .clearSessions, _, σ => ((), { σ with registry := ∅ })
  | .schedule id, _, σ => ((), σ.schedule id)
  | .fopenRead name, _, σ => ((σ.files name).isSome, σ)
  | .fopenAppend name, c, σ =>
    if c.fails then (false, σ)
    else (true, { σ with files := Function.update σ.files name (some ((σ.files name).getD [])) })
  | .fileSize name, _, σ => (UInt64.ofNat ((σ.files name).getD []).length, σ)
  | .fwrite name data, c, σ =>
    let put := if c.fails ∨ c.unflushed then data.take (min c.written (data.length - 1)) else data
    let bytes := (σ.files name).getD [] ++ put
    (!c.fails && data ≠ [], { σ with files := Function.update σ.files name (some bytes) })
  | .fread name size offset, c, σ =>
    let bytes := (((σ.files name).getD []).drop offset).take size
    (if c.fails ∨ bytes.length < size then none else some bytes, σ)
  | .newBuffer b, _, σ => (σ.heap.length, { σ with heap := σ.heap ++ [b] })
  | .readBuffer ref, _, σ => (σ.heap.getD ref default, σ)
  | .addReadable ref n, _, σ =>
    let b := σ.heap.getD ref default
    ((), { σ with heap := σ.heap.set ref { b with bytesReadable := b.bytesReadable + n } })
  | .touchBuffer ref, c, σ =>
    let b := σ.heap.getD ref default
    ((), { σ with heap := σ.heap.set ref { b with lastActivity := c.time } })
  | .findBuffer id, _, σ => (σ.buffers[id]?, σ)
  | .putBuffer id ref, _, σ => ((), { σ with buffers := σ.buffers.insert id ref })
  | .addSender x, _, σ => ((), { σ with senders := σ.senders ++ [x] })
  | .senderAt k, _, σ => (σ.senders[k]?, σ)
  | .setSender k x, _, σ => ((), { σ with senders := σ.senders.set k x })
  | .dropSenders completed, _, σ =>
    ((), { σ with senders := σ.senders.filter fun x => !completed x })
  | .evictBuffers t, _, σ =>
    let old := σ.buffers.toList.filter fun it =>
      t - (σ.heap.getD it.2 default).lastActivity > 60
    ((), { σ with buffers := old.foldl (fun m it =>
      m.erase (σ.heap.getD it.2 default).streamId) σ.buffers })
  | .random, c, σ => (c.word, σ)
  | .randomSalt, c, σ => (c.salt, σ)
  | .time, c, σ => (c.time, σ)
  | .sendFcm token type num, _, σ => ((), { σ with fcm := σ.fcm ++ [(token, type, num)] })
  | .terminate, _, σ => ((), { σ with terminated := true })

/-- What holds without a call, and after it if it succeeds, holds after it. -/
theorem dbCall_cases {α : Type} {c : Choice} {σ σ' : ServerState} {a : α} {P : ServerState → Prop}
    (h : P σ) (h' : c.fails = false → P σ') : P (dbCall c σ a σ').2 := by
  unfold dbCall
  split
  · exact h
  · next hf => exact h' (Bool.eq_false_of_not_eq_true hf)

/-- A cursor delivers the documents it is over in their order. -/
theorem docs_cursor_isPrefix {α : Type} (c : Choice) (docs : List α) :
    (cursor c docs).docs <+: docs := by
  unfold cursor
  split
  · exact List.take_prefix ..
  · exact List.prefix_rfl

theorem mem_docs_cursor {α : Type} {c : Choice} {docs : List α} {x : α}
    (h : x ∈ (cursor c docs).docs) : x ∈ docs :=
  (docs_cursor_isPrefix c docs).subset h

theorem cursor_map {α β : Type} (f : α → β) (c : Choice) (docs : List α) :
    (cursor c docs).map f = cursor c (docs.map f) := by
  unfold cursor
  split
  · rw [List.map_take.symm]
    rfl
  · rfl

/-- The operations that only look. -/
def Op.Reads : Op → Prop
  | .status _ | .accountId _ | .contacts _ | .config _ | .requestPending .. | .findReceiver ..
  | .findAccount _ | .findAccounts .. | .maxAccountId | .findRequest _ | .findRequests ..
  | .inboxRequests _ | .countRequests _ | .getSessions _ | .allSessions | .fopenRead _
  | .senderInit .. | .fileSize _ | .fread .. | .readBuffer _ | .findBuffer _ | .senderAt _ | .random
  | .randomSalt | .time => True
  | _ => False

theorem exec_of_reads (env : Env) {o : Op} (h : o.Reads) (c : Choice) (σ : ServerState) :
    (exec env o c σ).2 = σ := by
  cases o with
  | findAccount =>
    rw [exec]
    split
    · rfl
    · exact dbCall_cases (P := fun τ => τ = σ) rfl fun _ => rfl
  | findAccounts =>
    rw [exec]
    split <;> rfl
  | maxAccountId | findRequest | inboxRequests | countRequests =>
    exact dbCall_cases (P := fun τ => τ = σ) rfl fun _ => rfl
  | _ => first | rfl | exact h.elim

/-- Does the outside world have a say in this operation? -/
def Op.draws : Op → Bool
  | .addReceiver .. | .senderInit .. | .addEngineSender .. | .findAccount _ | .findAccounts ..
  | .maxAccountId | .insertAccount _ | .setFcmToken .. | .findRequest _ | .findRequests ..
  | .inboxRequests _ | .countRequests _ | .insertRequest _ | .removeRequest _ | .fopenAppend _
  | .fwrite .. | .fread .. | .touchBuffer _ | .random | .randomSalt | .time => true
  | _ => false

/-! ## Executing a handler -/

/-- The server together with the choices still to come; `inserts` remembers what the
handler tried to store, and whether the call threw. -/
structure World where
  server : ServerState
  tape : Nat → Choice
  inserts : List (Request × Bool) := []

/-- One operation in a world: it uses up a choice if it needs one. -/
def step (env : Env) : Proc.Interp Op Op.Res World := fun o w =>
  ((exec env o (w.tape 0) w.server).1,
    { server := (exec env o (w.tape 0) w.server).2
      tape := if o.draws then fun n => w.tape (n + 1) else w.tape
      inserts := match o with
        | .insertRequest r => w.inserts ++ [(r, (w.tape 0).fails)]
        | _ => w.inserts })

/-- Run a program of the server on a state, with a tape of choices. -/
def Prog.runOn {α : Type} (env : Env) (p : Prog α) (tape : Nat → Choice) (σ : ServerState) :
    α × ServerState :=
  let out := Proc.run (step env) p { server := σ, tape := tape }
  (out.1, out.2.server)

/-- No call fails. -/
def NoFaults (tape : Nat → Choice) : Prop := ∀ n, (tape n).fails = false

end ZwayServer
