import ZwayServer.Bson

/-!
# The state of the server

What the server keeps: the two MongoDB collections it works on, its sessions and
their registry, the tasks waiting in its `io_service`, and its stream buffers.
Each atomic change of that state is a function of its own, with the lemmas that
say what it leaves alone; the handlers are built from them in later files.

* `Request`, `Record`, `RequestQuery` — a document of `zway.requests`, the
  document as stored, and the queries the server makes.
* `Session` — the fields of `ClientSession`, with the part of `Zway::Engine`
  the handlers can observe.
* `ServerState` — everything together.
-/

namespace ZwayServer

/-! ## Requests -/

/-- `Zway::Request::Type`, as far as the server names it. -/
inductive RequestType where
  | dispatch | createAccount | login | logout | config | addContact | createAddCode
  | findContact | acceptContact | rejectContact | contactStatus | push
  deriving DecidableEq, Repr, Inhabited

/-- A document of the collection `zway.requests`, as the handlers build it.  A field
that a handler does not write is `none`. -/
structure Request where
  id : UInt32
  type : RequestType
  src : UInt32
  dst : Option UInt32 := none
  contactRequestId : Option UInt32 := none
  dispatchType : Option UInt32 := none
  name : Option String := none
  phone : Option String := none
  publicKey : Option Bson.Doc := none
  addCode : Option String := none
  data : Option Bson.Doc := none
  deriving Inhabited

/-- A request as stored: MongoDB gives every document an `_id` of its own. -/
structure Record extends Request where
  oid : Nat
  deriving Inhabited

/-- A query on `zway.requests`: the fields it names must be equal; `srcOrDst` is the
`"$or"` of `processDispatchRequest`. -/
structure RequestQuery where
  id : Option UInt32 := none
  type : Option RequestType := none
  src : Option UInt32 := none
  dst : Option UInt32 := none
  addCode : Option String := none
  srcOrDst : Option UInt32 := none

/-- Does a stored document match?  A field the document lacks matches no value. -/
def RequestQuery.matches (q : RequestQuery) (r : Record) : Bool :=
  q.id.all (· == r.id) && q.type.all (· == r.type) && q.src.all (· == r.src) &&
    q.dst.all (some · == r.dst) && q.addCode.all (some · == r.addCode) &&
    q.srcOrDst.all fun a => a == r.src || some a == r.dst

theorem RequestQuery.matches_iff {q : RequestQuery} {r : Record} : q.matches r = true ↔
    (∀ a, q.id = some a → r.id = a) ∧ (∀ t, q.type = some t → r.type = t) ∧
      (∀ a, q.src = some a → r.src = a) ∧ (∀ a, q.dst = some a → r.dst = some a) ∧
      (∀ c, q.addCode = some c → r.addCode = some c) ∧
      ∀ a, q.srcOrDst = some a → r.src = a ∨ r.dst = some a := by
  simp only [RequestQuery.matches, Option.all_eq_true, Bool.and_eq_true, Bool.or_eq_true,
    beq_iff_eq, and_assoc]
  simp only [eq_comm]

/-! ## Accounts -/

/-- A document of the collection `zway.accounts`. -/
structure Account where
  id : UInt32
  name : String
  phone : String
  findByName : Bool
  findByPhone : Bool
  pass : List UInt8
  salt : List UInt8
  fcmToken : String := ""
  deriving Inhabited, DecidableEq

/-- A query on `zway.accounts`; `nameRegex` is `{"$regex": …, "$options": "i"}`. -/
structure AccountQuery where
  id : Option UInt32 := none
  idNe : Option UInt32 := none
  name : Option String := none
  nameRegex : Option String := none
  findByName : Option Bool := none

/-! ## Streams -/

/-- `Zway::Packet::StreamType`, as far as the server names it. -/
inductive StreamType where
  | undefined | request | resource
  deriving DecidableEq, Repr, Inhabited

/-- The head of the first packet of a stream. -/
structure Packet where
  streamId : UInt32
  streamType : StreamType
  parts : UInt32
  deriving DecidableEq, Repr, Inhabited

/-- A file-backed `StreamBuffer`; `append` says that its file was opened by `create`. -/
structure StreamBuffer where
  streamId : UInt32
  streamType : StreamType
  streamParts : UInt32
  bytesReadable : UInt64
  lastActivity : UInt64
  filename : String
  append : Bool
  deriving DecidableEq, Repr, Inhabited

/-- A `StreamBufferSender`: the session it serves, its stream, and its buffer once it
has one. -/
structure Sender where
  session : Nat
  streamId : UInt32
  buffer : Option Nat
  deriving DecidableEq, Repr, Inhabited

/-! ## Sessions -/

/-- `STATUS_DISCONNECTED`, `STATUS_CONNECTED` and `STATUS_LOGGEDIN`. -/
inductive Status where
  | disconnected | connected | loggedIn
  deriving DecidableEq, Repr, Inhabited

/-- The number of the status in `session.h`. -/
def Status.toNat : Status → Nat
  | .disconnected => 0
  | .connected => 1
  | .loggedIn => 2

instance : LT Status := ⟨fun a b => a.toNat < b.toNat⟩

instance : DecidableLT Status := fun a b => inferInstanceAs (Decidable (a.toNat < b.toNat))

/-- The gate of the handlers: a status below `STATUS_LOGGEDIN` is any other status. -/
@[simp] theorem Status.lt_loggedIn (a : Status) : a < .loggedIn ↔ a ≠ .loggedIn := by
  cases a <;> decide

/-- Sessions are told apart by number. -/
abbrev SessionId := Nat

/-- What `postRequestSuccess` and `postRequestFailure` send. -/
inductive Response where
  | success (requestId : UInt32) (data : UBJ.Object)
  | failure (requestId : UInt32) (code : UInt32) (text : String)
  deriving Inhabited

/-- A request posted to the client and not yet answered.  `record` is the stored
record it was made from. -/
structure Posted where
  type : RequestType
  id : UInt32
  head : UBJ.Object
  record : Record
  deriving Inhabited

/-- What is handed to the engine of a session to be sent. -/
inductive Message where
  | response (r : Response)
  | request (type : RequestType) (id : UInt32) (head : UBJ.Object)
  | ubj (head : UBJ.Object)
  deriving Inhabited

/-- A stream the engine is receiving into a buffer. -/
structure Receiver where
  streamId : UInt32
  buffer : Nat
  deriving DecidableEq, Repr, Inhabited

/-- A session: the fields of `ClientSession`, and of its engine the requests waiting for
an answer, the streams being received and everything handed over for sending.
`started` and `handshaken` say how far the connection has got. -/
structure Session where
  started : Bool := false
  handshaken : Bool := false
  status : Status := .disconnected
  accountId : UInt32 := 0
  contacts : Std.TreeMap UInt32 UBJ.Object := ∅
  config : UBJ.Object := []
  posted : List Posted := []
  receivers : List Receiver := []
  senders : List Sender := []
  outbox : List Message := []
  deriving Inhabited

/-! ## The server -/

/-- The state of the whole server.  `files` are the files of its working directory,
`heap` the stream buffers ever made, and `buffers` is `m_buffers`, which refers to
them; `terminated` is set when the process has ended: an exception has left a handler, which
nothing catches, or the C library has aborted it. -/
structure ServerState where
  accounts : List Account := []
  requests : List Record := []
  nextOid : Nat := 0
  sessions : SessionId → Session := fun _ => {}
  registry : Std.TreeMap UInt32 (List SessionId) := ∅
  tasks : List UInt32 := []
  files : String → Option (List UInt8) := fun _ => none
  heap : List StreamBuffer := []
  buffers : Std.TreeMap UInt32 Nat := ∅
  senders : List Sender := []
  fcm : List (String × UInt32 × UInt32) := []
  terminated : Bool := false
  deriving Inhabited

namespace ServerState

variable (σ : ServerState)

/-- Change the fields of one session. -/
def modify (s : SessionId) (f : Session → Session) : ServerState :=
  { σ with sessions := Function.update σ.sessions s (f (σ.sessions s)) }

/-- Set the status of a session. -/
def setStatus (s : SessionId) (st : Status) : ServerState :=
  σ.modify s fun x => { x with status := st }

/-- Hand a message to the engine of a session. -/
def send (s : SessionId) (m : Message) : ServerState :=
  σ.modify s fun x => { x with outbox := x.outbox ++ [m] }

/-- `insert` on `zway.requests`. -/
def insertRequest (r : Request) : ServerState :=
  { σ with requests := σ.requests ++ [⟨r, σ.nextOid⟩], nextOid := σ.nextOid + 1 }

/-- `remove` on `zway.requests` with `justOne`: the first match in the collection. -/
def removeRequest (q : RequestQuery) : ServerState :=
  { σ with requests := σ.requests.eraseP q.matches }

/-- `insert` on `zway.accounts`. -/
def insertAccount (a : Account) : ServerState := { σ with accounts := σ.accounts ++ [a] }

/-- `io_service()->post(processUserRequests, id)`. -/
def schedule (id : UInt32) : ServerState := { σ with tasks := σ.tasks ++ [id] }

/-- `Server::getSessions`. -/
def getSessions (id : UInt32) : List SessionId := σ.registry.getD id []

/-- `Server::appendSession`: the session is listed under its current account id. -/
def appendSession (s : SessionId) : ServerState :=
  let id := (σ.sessions s).accountId
  { σ with registry := σ.registry.insert id (σ.getSessions id ++ [s]) }

/-- `Server::removeSession`: only the list under the current account id is searched. -/
def removeSession (s : SessionId) : ServerState :=
  let id := (σ.sessions s).accountId
  if id ∈ σ.registry then
    let sm := (σ.getSessions id).filter (· ≠ s)
    { σ with registry := if sm = [] then σ.registry.erase id else σ.registry.insert id sm }
  else σ

/-- A successful login: the session moves in the registry to its account. -/
def login (s : SessionId) (id : UInt32) : ServerState :=
  (((σ.setStatus s .loggedIn).removeSession s).modify s fun x =>
    { x with accountId := id }).appendSession s

/-- A new connection: the session is listed under a temporary id. -/
def connect (s : SessionId) (id : UInt32) : ServerState :=
  (σ.modify s fun x => { x with started := true, accountId := id }).appendSession s

/-- A session is closed and taken out of the registry. -/
def close (s : SessionId) : ServerState := (σ.setStatus s .disconnected).removeSession s

/-- The sessions in the registry. -/
def listed : List SessionId := (σ.registry.toList.map Prod.snd).flatten

/-- All sessions in the registry are closed. -/
def closeAll : ServerState :=
  { σ with
    sessions := fun t =>
      if t ∈ σ.listed then { σ.sessions t with status := .disconnected } else σ.sessions t
    registry := ∅ }

/-- The `k`-th request posted to a session is no longer waiting for its answer. -/
def takePosted (s : SessionId) (k : Nat) : ServerState :=
  σ.modify s fun x => { x with posted := x.posted.eraseIdx k }

/-! ### What the changes leave alone -/

theorem modify_modify (s : SessionId) (f g : Session → Session) :
    (σ.modify s f).modify s g = σ.modify s fun x => g (f x) := by
  simp [modify]

@[simp] theorem sessions_modify (s t : SessionId) (f : Session → Session) :
    (σ.modify s f).sessions t = if t = s then f (σ.sessions s) else σ.sessions t := by
  simp [modify, Function.update_apply]

/-- What still waits for its answer waited before. -/
theorem mem_posted_takePosted {s t : SessionId} {k : Nat} {p : Posted}
    (hp : p ∈ ((σ.takePosted s k).sessions t).posted) : p ∈ (σ.sessions t).posted := by
  by_cases ht : t = s
  · subst ht
    simp only [takePosted, sessions_modify, if_true] at hp
    exact List.mem_of_mem_eraseIdx hp
  · simpa [takePosted, ht] using hp

@[simp] theorem requests_modify (s : SessionId) (f : Session → Session) :
    (σ.modify s f).requests = σ.requests := rfl

@[simp] theorem accounts_modify (s : SessionId) (f : Session → Session) :
    (σ.modify s f).accounts = σ.accounts := rfl

@[simp] theorem registry_modify (s : SessionId) (f : Session → Session) :
    (σ.modify s f).registry = σ.registry := rfl

@[simp] theorem nextOid_modify (s : SessionId) (f : Session → Session) :
    (σ.modify s f).nextOid = σ.nextOid := rfl

@[simp] theorem tasks_modify (s : SessionId) (f : Session → Session) :
    (σ.modify s f).tasks = σ.tasks := rfl

@[simp] theorem getSessions_modify (s : SessionId) (f : Session → Session) (id : UInt32) :
    (σ.modify s f).getSessions id = σ.getSessions id := rfl

/-- Appending adds the session at the end of the list under its own account id. -/
@[simp] theorem getSessions_appendSession (s : SessionId) (id : UInt32) :
    (σ.appendSession s).getSessions id =
      if (σ.sessions s).accountId = id then σ.getSessions id ++ [s] else σ.getSessions id := by
  by_cases h : (σ.sessions s).accountId = id
  · simp [getSessions, appendSession, h]
  · simp [getSessions, appendSession, Std.TreeMap.getD_insert, h]

/-- Removing takes the session out of the list under its own account id. -/
@[simp] theorem getSessions_removeSession (s : SessionId) (id : UInt32) :
    (σ.removeSession s).getSessions id =
      if (σ.sessions s).accountId = id then (σ.getSessions id).filter (· ≠ s)
      else σ.getSessions id := by
  rw [removeSession]
  by_cases hmem : (σ.sessions s).accountId ∈ σ.registry
  · rw [if_pos hmem]
    show Std.TreeMap.getD (if _ = [] then _ else _) id [] = _
    by_cases he : (σ.getSessions (σ.sessions s).accountId).filter (· ≠ s) = []
    · rw [if_pos he, Std.TreeMap.getD_erase]
      by_cases h : (σ.sessions s).accountId = id
      · subst h
        simp only [Std.ReflCmp.compare_self, if_true]
        exact he.symm
      · simp [h, getSessions]
    · rw [if_neg he, Std.TreeMap.getD_insert]
      by_cases h : (σ.sessions s).accountId = id
      · subst h
        simp only [Std.ReflCmp.compare_self, if_true]
      · simp [h, getSessions]
  · rw [if_neg hmem]
    by_cases h : (σ.sessions s).accountId = id
    · subst h
      have hnil : σ.getSessions (σ.sessions s).accountId = [] :=
        Std.TreeMap.getD_eq_fallback hmem
      simp [hnil]
    · rw [if_neg h]

/-- Who is listed after appending. -/
theorem mem_getSessions_appendSession {s t : SessionId} {id : UInt32} :
    t ∈ (σ.appendSession s).getSessions id ↔
      t ∈ σ.getSessions id ∨ t = s ∧ (σ.sessions s).accountId = id := by
  rw [getSessions_appendSession]
  by_cases h : (σ.sessions s).accountId = id <;> simp [h]

/-- Who is listed after removing. -/
theorem mem_getSessions_removeSession {s t : SessionId} {id : UInt32} :
    t ∈ (σ.removeSession s).getSessions id ↔
      t ∈ σ.getSessions id ∧ ((σ.sessions s).accountId = id → t ≠ s) := by
  rw [getSessions_removeSession]
  by_cases h : (σ.sessions s).accountId = id <;> simp [h]

/-- The registry aside, removing a session changes nothing. -/
theorem removeSession_eq (s : SessionId) :
    σ.removeSession s = { σ with registry := (σ.removeSession s).registry } := by
  rw [removeSession]
  split <;> rfl

@[simp] theorem sessions_removeSession (s : SessionId) :
    (σ.removeSession s).sessions = σ.sessions := by
  rw [removeSession_eq]

/-- The registry and the session itself aside, a login changes nothing. -/
theorem login_eq (s : SessionId) (id : UInt32) : σ.login s id =
    { σ with sessions := (σ.login s id).sessions, registry := (σ.login s id).registry } := by
  rw [login, removeSession_eq]
  rfl

@[simp] theorem sessions_login (s t : SessionId) (id : UInt32) :
    (σ.login s id).sessions t =
      if t = s then { σ.sessions s with status := .loggedIn, accountId := id }
      else σ.sessions t := by
  by_cases h : t = s <;> simp [login, appendSession, setStatus, h]

@[simp] theorem sessions_appendSession (s : SessionId) :
    (σ.appendSession s).sessions = σ.sessions := rfl

@[simp] theorem mem_listed (t : SessionId) : t ∈ σ.listed ↔ ∃ k, t ∈ σ.getSessions k := by
  simp only [listed, List.mem_flatten, List.mem_map, Prod.exists]
  constructor
  · rintro ⟨l, ⟨k, l', hmem, rfl⟩, ht⟩
    refine ⟨k, ?_⟩
    rw [Std.TreeMap.mem_toList_iff_getElem?_eq_some] at hmem
    rwa [getSessions, Std.TreeMap.getD_eq_getD_getElem?, hmem]
  · rintro ⟨k, ht⟩
    rw [getSessions, Std.TreeMap.getD_eq_getD_getElem?] at ht
    cases hk : σ.registry[k]? with
    | none => simp [hk] at ht
    | some l =>
      rw [hk] at ht
      exact ⟨l, ⟨k, l, Std.TreeMap.mem_toList_iff_getElem?_eq_some.mpr hk, rfl⟩, ht⟩

/-- After a login the session is listed under its new account and nowhere else. -/
theorem getSessions_login (s : SessionId) (id k : UInt32) :
    (σ.login s id).getSessions k =
      (if (σ.sessions s).accountId = k then (σ.getSessions k).filter (· ≠ s)
        else σ.getSessions k) ++
        if id = k then [s] else [] := by
  by_cases h : id = k <;> simp [login, setStatus, h]

end ServerState
end ZwayServer
