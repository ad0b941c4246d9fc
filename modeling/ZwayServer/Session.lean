import ZwayServer.DB

/-!
# The sessions

The member functions of `ClientSession` that handle requests, responses and stream
packets, each a program over the atomic operations, statement by statement as the
source has it.  The first argument `s` is the session itself (`this`).

An exception that leaves a handler reaches `io_service::run`, which nobody wraps,
so it ends the process, and so does the C library when a `FILE` is closed twice:
`terminate` is performed and the handler returns.

* `processIncomingRequest` — the switch over the twelve request types.
* `processRequests` — delivery of the stored requests, and `processResponse`, what
  the answers to the delivered requests do.
* `createStreamReceiver`, `receivePacket`, `streamReceived` — an upload.
-/

namespace ZwayServer

/-! ## Stream buffers -/

namespace StreamBuffer

/-- `StreamBuffer::create`, with `FileBuffer::init` and `~FileBuffer`. -/
def create (filename : String) (pkt : Packet) : Prog (Option Nat) := do
  if ← Proc.perform (Op.fopenRead filename) then
    -- `init` closes the file and keeps the pointer, which `~FileBuffer` closes once more
    Proc.perform Op.terminate
    return none
  if !(← Proc.perform (Op.fopenAppend filename)) then
    return none
  let ref ← Proc.perform (Op.newBuffer
    { streamId := pkt.streamId, streamType := pkt.streamType, streamParts := pkt.parts,
      bytesReadable := 0, lastActivity := 0, filename := filename, append := true })
  return some ref

/-- `StreamBuffer::open`, with `load`. -/
def «open» (env : Env) (filename : String) (id : UInt32) : Prog (Option Nat) := do
  if !(← Proc.perform (Op.fopenRead filename)) then
    return none
  let size ← Proc.perform (Op.fileSize filename)
  let parts := size / env.maxPacketBody
  let parts := if size % env.maxPacketBody ≠ 0 then parts + 1 else parts
  let ref ← Proc.perform (Op.newBuffer
    { streamId := id, streamType := .resource, streamParts := parts.toUInt32,
      bytesReadable := size, lastActivity := 0, filename := filename, append := false })
  return some ref

/-- `StreamBuffer::write`, with `FileBuffer::write`: a file opened by `create` is in
append mode, one opened by `open` cannot be written. -/
def write (ref : Nat) (data : List UInt8) : Prog Bool := do
  let b ← Proc.perform (Op.readBuffer ref)
  if !b.append then
    return false
  if !(← Proc.perform (Op.fwrite b.filename data)) then
    return false
  Proc.perform (Op.addReadable ref (UInt64.ofNat data.length))
  Proc.perform (Op.touchBuffer ref)
  return true

/-- `StreamBuffer::read`, with `FileBuffer::read`: the bytes read, or `none` if it fails. -/
def read (ref size offset : Nat) : Prog (Option (List UInt8)) := do
  let b ← Proc.perform (Op.readBuffer ref)
  let br := b.bytesReadable.toUInt32.toNat
  let bytesToRead := if offset < br then min (br - offset) size else 0
  let bytes ←
    if bytesToRead ≠ 0 then Proc.perform (Op.fread b.filename bytesToRead offset)
    else pure (some [])
  match bytes with
  | none => return none
  | some bytes =>
    Proc.perform (Op.touchBuffer ref)
    return some bytes

end StreamBuffer

namespace Server

/-- `Server::addStreamBuffer`. -/
def addStreamBuffer (id : UInt32) (ref : Nat) : Prog Bool := do
  if (← Proc.perform (Op.findBuffer id)).isSome then
    return false
  Proc.perform (Op.putBuffer id ref)
  return true

/-- `Server::getStreamBuffer`, one critical section of `m_buffers`. -/
def getStreamBuffer (env : Env) (id : UInt32) : Prog (Option Nat) := do
  match ← Proc.perform (Op.findBuffer id) with
  | some ref => return some ref
  | none =>
    match ← StreamBuffer.open env (tmpFile id) id with
    | some ref =>
      Proc.perform (Op.putBuffer id ref)
      return some ref
    | none => return none

/-- `Server::getSessions`. -/
abbrev getSessions (id : UInt32) : Prog (List SessionId) := Proc.perform (Op.getSessions id)

/-- `io_service()->post(boost::bind(&Server::processUserRequests, m_server, id))`. -/
abbrev postUserRequests (id : UInt32) : Prog Unit := Proc.perform (Op.schedule id)

end Server

/-- `StreamBufferSender::getBuffer`. -/
def StreamBufferSender.getBuffer (env : Env) (sender : Sender) : Prog (Option Nat) :=
  match sender.buffer with
  | some ref => return some ref
  | none => Server.getStreamBuffer env sender.streamId

/-- `StreamBufferSender::create`, with `init`. -/
def StreamBufferSender.create (env : Env) (s : SessionId) (id : UInt32) :
    Prog (Option Sender) := do
  if !(← Proc.perform (Op.senderInit s id)) then
    return none
  let buffer ← StreamBufferSender.getBuffer env { session := s, streamId := id, buffer := none }
  return some { session := s, streamId := id, buffer := buffer }

/-- `StreamBufferSender::preparePacket` of the sender in place `k`. -/
def StreamBufferSender.preparePacket (env : Env) (k size offset : Nat) : Prog Unit := do
  match ← Proc.perform (Op.senderAt k) with
  | none => return
  | some sender =>
    let buffer ← StreamBufferSender.getBuffer env sender
    Proc.perform (Op.setSender k { sender with buffer := buffer })
    match buffer with
    | some ref =>
      let _ ← StreamBuffer.read ref size offset
      return
    | none => return

namespace ClientSession

/-! ## Fields and engine -/

/-- `status()`. -/
abbrev status (s : SessionId) : Prog Status := Proc.perform (Op.status s)

/-- `accountId()`. -/
abbrev accountId (s : SessionId) : Prog UInt32 := Proc.perform (Op.accountId s)

/-- `setStatus`. -/
abbrev setStatus (s : SessionId) (st : Status) : Prog Unit := Proc.perform (Op.setStatus s st)

/-- The entries of `m_contacts`, in key order. -/
abbrev contacts (s : SessionId) : Prog (List (UInt32 × UBJ.Object)) :=
  Proc.perform (Op.contacts s)

/-- `(*m_contacts)[id] = contact`. -/
abbrev putContact (s : SessionId) (id : UInt32) (contact : UBJ.Object) : Prog Unit :=
  Proc.perform (Op.putContact s id contact)

/-- `config()`. -/
abbrev config (s : SessionId) : Prog UBJ.Object := Proc.perform (Op.config s)

/-- `Engine::postRequestSuccess`. -/
abbrev postRequestSuccess (s : SessionId) (requestId : UInt32) (data : UBJ.Object) : Prog Unit :=
  Proc.perform (Op.respond s (.success requestId data))

/-- `Engine::postRequestFailure`. -/
abbrev postRequestFailure (s : SessionId) (requestId code : UInt32) (text : String) :
    Prog Unit :=
  Proc.perform (Op.respond s (.failure requestId code text))

/-- `Engine::postRequest`. -/
abbrev postRequest (s : SessionId) (p : Posted) : Prog Unit := Proc.perform (Op.postRequest s p)

/-! ## Status of the contacts -/

/-- The loop of `getContactStatus` over the sessions of the contact. -/
def statusOfSessions : List SessionId → Prog UInt32
  | [] => return 0
  | s :: sessions => do
    if ((← config s).get "notifyStatus").toBool then
      return 1
    statusOfSessions sessions

/-- `ClientSession::getContactStatus`. -/
def getContactStatus (contactId : UInt32) : Prog UInt32 := do
  let sessions ← Server.getSessions contactId
  statusOfSessions sessions

/-- The list of all contacts and their status, as `processLogin` and
`processContactStatusRequest` build it. -/
def contactStatusList (s : SessionId) : Prog (List UBJ.Value) := do
  (← contacts s).mapM fun it => do
    let contactStatus ← getContactStatus it.1
    return .object [("contactId", .int32 it.1), ("status", .int32 contactStatus)]

/-- One round of the loop of `broadcastStatus` over the contacts. -/
def broadcastTo (env : Env) (s : SessionId) (status : UInt32) (it : UInt32 × UBJ.Object) :
    Prog Unit := do
  if (it.2.get "notifyStatus").toBool then
    let sessions ← Server.getSessions it.1
    if sessions ≠ [] then
      let contactStatus : List UBJ.Value :=
        [.object [("contactId", .int32 (← accountId s)), ("status", .int32 status)]]
      let obj : UBJ.Object :=
        [("requestType", .int32 (env.code .contactStatus)),
          ("contactStatus", .array contactStatus)]
      let _requestId ← Proc.perform Op.random
      forM sessions fun session => Proc.perform (Op.addUbjSender session obj)

/-- `ClientSession::broadcastStatus`. -/
def broadcastStatus (env : Env) (s : SessionId) (status : UInt32) (check : Bool) :
    Prog Unit := do
  if check && !((← config s).get "notifyStatus").toBool then
    return
  forM (← contacts s) (broadcastTo env s status)

/-- `ClientSession::setConfig`. -/
def setConfig (env : Env) (s : SessionId) (newConfig : UBJ.Object) : Prog Bool := do
  if newConfig.hasField "contacts" then
    Proc.perform (Op.clearContacts s)
    forM (newConfig.get "contacts").toArray fun it =>
      putContact s (it.get "contactId").toInt it.toObject
  let newStatus := (newConfig.get "notifyStatus").toBool
  let curStatus := ((← config s).get "notifyStatus").toBool
  if newConfig.hasField "fcmToken" then
    let _ ← DB.setFcmToken (← accountId s) (newConfig.get "fcmToken").toStr
  Proc.perform (Op.setConfig s newConfig)
  if newStatus ≠ curStatus then
    broadcastStatus env s (if newStatus then 1 else 0) false
  return true

/-! ## Delivery of stored requests -/

/-- `UBJ_OBJ("contactId" << id << "notifyStatus" << 1)`. -/
def newContact (id : UInt32) : UBJ.Object :=
  [("contactId", .int32 id), ("notifyStatus", .int32 1)]

/-- The object posted for a stored request.  `contactStatus` is the status of its
sender, which only the case of `AcceptContact` asks for. -/
def postedHead (env : Env) (request : Record) (contactStatus : UInt32) : UBJ.Object :=
  let common : UBJ.Object :=
    [("requestId", .int32 request.id), ("requestType", .int32 (env.code request.type))]
  match request.type with
  | .dispatch => common ++
      [("dispatchId", .int32 request.id), ("dispatchType", .int32 (request.dispatchType.getD 0))]
  | .addContact => common ++
      [("addCode", .string (request.addCode.getD "")), ("name", .string (request.name.getD "")),
        ("phone", .string (request.phone.getD ""))]
  | .acceptContact => common ++
      [("contactRequestId", .int32 (request.contactRequestId.getD 0)),
        ("contactId", .int32 request.src), ("contactStatus", .int32 contactStatus),
        ("name", .string (request.name.getD "")), ("phone", .string (request.phone.getD "")),
        ("publicKey", (request.publicKey.map fun d => .object (bsonObjToUbj d)).getD .null)]
  | .rejectContact => common ++
      [("contactRequestId", .int32 (request.contactRequestId.getD 0))]
  | .push => (request.data.map bsonObjToUbj).getD []
  | _ => []

/-- One round of the loop of `processRequests`. -/
def processRequest (env : Env) (s : SessionId) (request : Record) : Prog Unit := do
  let id := request.id
  let type := request.type
  if ← Proc.perform (Op.requestPending s type id) then
    return
  match type with
  | .dispatch | .addContact | .rejectContact | .push =>
    postRequest s { type := type, id := id, head := postedHead env request 0, record := request }
  | .acceptContact =>
    let contactStatus ← getContactStatus request.src
    putContact s request.src (newContact request.src)
    postRequest s
      { type := type, id := id, head := postedHead env request contactStatus, record := request }
  | _ => return

/-- `ClientSession::processRequests`. -/
def processRequests (env : Env) (s : SessionId) : Prog Bool := do
  let requests ← DB.getRequests s { dst := some (← accountId s) }
  forM requests (processRequest env s)
  return true

/-- One round of the loop of a push's response callback over the resources it names. -/
def sendResource (env : Env) (s : SessionId) (it : UBJ.Value) : Prog Unit := do
  let id := it.toInt
  if id ≠ 0 then
    match ← StreamBufferSender.create env s id with
    | some sender =>
      if ← Proc.perform (Op.addEngineSender s sender) then
        Proc.perform (Op.addSender sender)
    | none => return

/-- The response callbacks of the posted requests, `processResponse` of their classes
included: the callback of a contact request does nothing, the others delete by id
and by the account the session has when the answer arrives. -/
def processResponse (env : Env) (s : SessionId) (p : Posted) (response : UBJ.Object) :
    Prog Unit := do
  match p.type with
  | .addContact => return
  | .push =>
    if (response.get "status").toInt = 1 then
      let _ ← DB.deleteRequest { id := some p.id, dst := some (← accountId s) }
      forM (response.get "resources").toArray (sendResource env s)
  | _ =>
    if (response.get "status").toInt = 1 then
      let _ ← DB.deleteRequest { id := some p.id, dst := some (← accountId s) }

/-! ## Accounts and sessions -/

/-- `ClientSession::processDispatchRequest`. -/
def processDispatchRequest (s : SessionId) (head : UBJ.Object) : Prog Bool := do
  let requestId := (head.get "requestId").toInt
  if (← status s) < .loggedIn then
    postRequestFailure s requestId 0 "Operation not permitted"
    return false
  if head.hasField "dispatchId" then
    let query : RequestQuery :=
      { id := some (head.get "dispatchId").toInt, srcOrDst := some (← accountId s) }
    if !(← DB.deleteRequest query) then
      postRequestFailure s requestId 0 "invalid data"
      return false
    postRequestSuccess s requestId []
    return true
  return false

/-- `ClientSession::processCreateAccount`. -/
def processCreateAccount (env : Env) (s : SessionId) (head : UBJ.Object) : Prog Bool := do
  let requestId := (head.get "requestId").toInt
  if ¬ (← status s) < .loggedIn then
    postRequestFailure s requestId 0 "Operation not permitted"
    return false
  if !head.hasField "name" || (head.get "name").toStr == "" then
    postRequestFailure s requestId 0 "Missing field: name"
    return false
  if !head.hasField "password" || (head.get "password").bufferSize ≠ 32 then
    postRequestFailure s requestId 0 "Missing field: password"
    return false
  if (← DB.getAccount { nameRegex := some (head.get "name").toStr }).isSome then
    postRequestFailure s requestId 0 "Invalid account name"
    return false
  let accountId ← DB.newAccountId
  let password := (head.get "password").buffer?.getD []
  let salt ← Proc.perform Op.randomSalt
  let pass := env.sha256 (password ++ salt)
  let account : Account :=
    { id := accountId, name := (head.get "name").toStr, phone := (head.get "phone").toStr,
      findByName := (head.get "findByName").toBool,
      findByPhone := (head.get "findByPhone").toBool, pass := pass, salt := salt }
  if !(← DB.insertAccount account) then
    postRequestFailure s requestId 0 "Failed to create account"
    return false
  postRequestSuccess s requestId [("accountId", .int32 accountId)]
  return true

/-- `ClientSession::verifyPassword`; `none` stands for the null buffer being read. -/
def verifyPassword (env : Env) (account : Account) (password : Option (List UInt8)) :
    Option Bool :=
  password.map fun bytes =>
    (env.sha256 (bytes ++ account.salt)).take account.pass.length == account.pass

/-- `ClientSession::processLogin`, from the point where the session is registered under
its account. -/
def afterLogin (env : Env) (s : SessionId) (head : UBJ.Object) (accountId : UInt32) :
    Prog Unit := do
  let requestId := (head.get "requestId").toInt
  if head.hasField "config" then
    let _ ← setConfig env s (head.get "config").toObject
  let status ← contactStatusList s
  let inbox := (← DB.getInbox accountId).getD []
  postRequestSuccess s requestId [("contactStatus", .array status), ("inbox", .array inbox)]
  let _ ← processRequests env s

/-- What `afterLogin` does once the configuration is set. -/
def answerLogin (env : Env) (s : SessionId) (head : UBJ.Object) (accountId : UInt32) :
    Prog Unit := do
  let status ← contactStatusList s
  let inbox := (← DB.getInbox accountId).getD []
  postRequestSuccess s (head.get "requestId").toInt
    [("contactStatus", .array status), ("inbox", .array inbox)]
  let _ ← processRequests env s

theorem afterLogin_eq (env : Env) (s : SessionId) (head : UBJ.Object) (accountId : UInt32) :
    afterLogin env s head accountId =
      if head.hasField "config" then do
        let _ ← setConfig env s (head.get "config").toObject
        answerLogin env s head accountId
      else answerLogin env s head accountId := rfl

/-- `ClientSession::processLogin`. -/
def processLogin (env : Env) (s : SessionId) (head : UBJ.Object) : Prog Bool := do
  let requestId := (head.get "requestId").toInt
  if ¬ (← status s) < .loggedIn then
    postRequestFailure s requestId 0 "Operation not permitted"
    return false
  if !head.hasField "account" then
    postRequestFailure s requestId 0 "account missing"
    return false
  if !head.hasField "password" then
    postRequestFailure s requestId 0 "password missing"
    return false
  let accountId := (head.get "account").toInt
  match ← DB.getAccount { id := some accountId } with
  | none =>
    postRequestFailure s requestId 0 "Invalid account id"
    return false
  | some account =>
    match verifyPassword env account (head.get "password").buffer? with
    | none =>
      Proc.perform Op.terminate
      return false
    | some false =>
      postRequestFailure s requestId 0 "login failed"
      return false
    | some true =>
      setStatus s .loggedIn
      Proc.perform (Op.removeSession s)
      Proc.perform (Op.setAccountId s accountId)
      Proc.perform (Op.appendSession s)
      afterLogin env s head accountId
      return true

/-- `ClientSession::processLogout`. -/
def processLogout (env : Env) (s : SessionId) (head : UBJ.Object) : Prog Bool := do
  let requestId := (head.get "requestId").toInt
  if (← status s) < .loggedIn then
    postRequestFailure s requestId 0 "Operation not permitted"
    return false
  postRequestSuccess s requestId []
  let _ ← DB.setFcmToken (← accountId s) ""
  setStatus s .connected
  broadcastStatus env s 0 true
  return true

/-- `ClientSession::processConfigRequest`. -/
def processConfigRequest (env : Env) (s : SessionId) (head : UBJ.Object) : Prog Bool := do
  let requestId := (head.get "requestId").toInt
  if (← status s) < .loggedIn then
    postRequestFailure s requestId 0 "Operation not permitted"
    return false
  if head.hasField "config" then
    if !(← setConfig env s (head.get "config").toObject) then
      postRequestFailure s requestId 0 "failure"
      return false
  postRequestSuccess s requestId []
  return true

/-- `ClientSession::processContactStatusRequest`. -/
def processContactStatusRequest (s : SessionId) (head : UBJ.Object) : Prog Bool := do
  let requestId := (head.get "requestId").toInt
  if (← status s) < .loggedIn then
    postRequestFailure s requestId 0 "Operation not permitted"
    return false
  let status ← contactStatusList s
  postRequestSuccess s requestId [("contactStatus", .array status)]
  return true

/-- `ClientSession::processFindContactRequest`. -/
def processFindContactRequest (s : SessionId) (head : UBJ.Object) : Prog Bool := do
  let requestId := (head.get "requestId").toInt
  if (← status s) < .loggedIn then
    postRequestFailure s requestId 0 "Operation not permitted"
    return false
  if !head.hasField "query" then
    postRequestFailure s requestId 0 "query missing"
    return false
  let query := (head.get "query").toObject
  let contacts ←
    if query.hasField "subject" then
      DB.getContacts
        { nameRegex := some (query.get "subject").toStr, idNe := some (← accountId s),
          findByName := some true }
    else pure []
  -- the projection `{"name": 1}` also returns the `_id`, which `bsonToUbj` cannot convert
  let docs : Bson.Doc := contacts.map fun a =>
    ("", .object [("_id", .eoo), ("name", .string a.name)])
  postRequestSuccess s requestId [("result", .array (bsonArrToUbj docs))]
  return true

/-! ## Contact requests -/

/-- The public key of a request, as the four handlers that need one read it. -/
def publicKeyOf (head : UBJ.Object) : Option Bson.Doc :=
  if head.hasField "publicKey" then some (ubjToBson (head.get "publicKey")) else none

/-- `ClientSession::processAddContactRequest`, from the point where it knows which
account to look for. -/
def addContactTo (s : SessionId) (head : UBJ.Object) (account : Account)
    (contactQuery : AccountQuery) : Prog Bool := do
  let requestId := (head.get "requestId").toInt
  let addCode := (head.get "addCode").toStr
  match ← DB.getAccount contactQuery with
  | none =>
    postRequestFailure s requestId 0 "invalid label 1"
    return false
  | some contact =>
    if contact.id = (← accountId s) then
      postRequestFailure s requestId 0 "invalid label 2"
      return false
    if ← DB.requestPending
        { type := some .addContact, src := some (← accountId s), dst := some contact.id } then
      postRequestFailure s requestId 0 "invalid data"
      return false
    match publicKeyOf head with
    | none =>
      postRequestFailure s requestId 0 "Invalid public key"
      return false
    | some publicKey =>
      if !(← DB.addRequest
          { id := requestId, type := .addContact, src := ← accountId s, dst := some contact.id,
            name := some account.name, phone := some account.phone,
            publicKey := some publicKey, addCode := some addCode }) then
        postRequestFailure s requestId 0 "Internal server error"
        return false
      if addCode ≠ "" then
        let _ ← DB.deleteRequest { addCode := some addCode }
      postRequestSuccess s requestId
        [("requestId", .int32 requestId), ("status", .int32 1), ("addCode", .string addCode),
          ("name", .string contact.name), ("phone", .string contact.phone)]
      Server.postUserRequests contact.id
      return true

/-- `ClientSession::processAddContactRequest`. -/
def processAddContactRequest (s : SessionId) (head : UBJ.Object) : Prog Bool := do
  let requestId := (head.get "requestId").toInt
  if (← status s) < .loggedIn then
    postRequestFailure s requestId 0 "Operation not permitted"
    return false
  match ← DB.getAccount { id := some (← accountId s) } with
  | none =>
    postRequestFailure s requestId 0 "Internal server error"
    return false
  | some account =>
    let addCode := (head.get "addCode").toStr
    if addCode ≠ "" then
      match ← DB.getRequest { type := some .addContact, addCode := some addCode } with
      | none =>
        postRequestFailure s requestId 0 "invalid add code"
        return false
      | some request => addContactTo s head account { id := some request.src }
    else
      let label := (head.get "name").toStr
      if label = "" then
        postRequestFailure s requestId 0 "no label"
        return false
      addContactTo s head account { name := some label, findByName := some true }

/-- Two upper-case hexadecimal digits, as `boost::algorithm::hex` writes a byte. -/
def hexByte (n : Nat) : List Char :=
  let digit (d : Nat) : Char := "0123456789ABCDEF".toList.getD d '0'
  [digit (n / 16 % 16), digit (n % 16)]

/-- The add code made from four random bytes, lowest byte first. -/
def addCodeHex (word : UInt32) : String :=
  let n := word.toNat
  String.ofList (hexByte n ++ hexByte (n / 256) ++ hexByte (n / 65536) ++ hexByte (n / 16777216))

/-- `ClientSession::processCreateAddCode`. -/
def processCreateAddCode (s : SessionId) (head : UBJ.Object) : Prog Bool := do
  let requestId := (head.get "requestId").toInt
  if (← status s) < .loggedIn then
    postRequestFailure s requestId 0 "Operation not permitted"
    return false
  match publicKeyOf head with
  | none =>
    postRequestFailure s requestId 0 "Invalid public key"
    return false
  | some publicKey =>
    match ← DB.getAccount { id := some (← accountId s) } with
    | none =>
      postRequestFailure s requestId 0 "Internal server error"
      return false
    | some account =>
      let addCode := addCodeHex (← Proc.perform Op.random)
      if !(← DB.addRequest
          { id := requestId, type := .addContact, src := ← accountId s,
            name := some account.name, phone := some account.phone,
            publicKey := some publicKey, addCode := some addCode }) then
        postRequestFailure s requestId 0 "Internal server error"
        return false
      postRequestSuccess s requestId
        [("requestId", .int32 requestId), ("status", .int32 1), ("addCode", .string addCode)]
      return true

/-- `ClientSession::processAcceptContact`. -/
def processAcceptContact (s : SessionId) (head : UBJ.Object) : Prog Bool := do
  let requestId := (head.get "requestId").toInt
  if (← status s) < .loggedIn then
    postRequestFailure s requestId 0 "Operation not permitted"
    return false
  let contactRequestId := (head.get "contactRequestId").toInt
  match ← DB.getRequest { id := some contactRequestId, dst := some (← accountId s) } with
  | none =>
    postRequestFailure s requestId 1 "Invalid request"
    return false
  | some request =>
    match ← DB.getAccount { id := some (← accountId s) } with
    | none =>
      postRequestFailure s requestId 0 "Internal server error"
      return false
    | some account =>
      -- `Obj()` throws when the record has no public key
      match request.publicKey with
      | none =>
        Proc.perform Op.terminate
        return false
      | some contactPublicKey =>
        match publicKeyOf head with
        | none =>
          postRequestFailure s requestId 0 "Invalid public key"
          return false
        | some publicKey =>
          if !(← DB.addRequest
              { id := requestId, contactRequestId := some contactRequestId,
                type := .acceptContact, src := ← accountId s, dst := some request.src,
                name := some account.name, phone := some account.phone,
                publicKey := some publicKey }) then
            postRequestFailure s requestId 0 "Internal server error"
            return false
          let contactStatus ← getContactStatus request.src
          postRequestSuccess s requestId
            [("requestId", .int32 requestId), ("status", .int32 1),
              ("contactId", .int32 request.src), ("contactStatus", .int32 contactStatus),
              ("name", .string (request.name.getD "")),
              ("phone", .string (request.phone.getD "")),
              ("publicKey", .object (bsonObjToUbj contactPublicKey))]
          let _ ← DB.deleteRequest { id := some contactRequestId }
          putContact s request.src (newContact request.src)
          Server.postUserRequests request.src
          return true

/-- `ClientSession::processRejectContact`. -/
def processRejectContact (s : SessionId) (head : UBJ.Object) : Prog Bool := do
  let requestId := (head.get "requestId").toInt
  if (← status s) < .loggedIn then
    postRequestFailure s requestId 0 "Operation not permitted"
    return false
  let contactRequestId := (head.get "contactRequestId").toInt
  match ← DB.getRequest { id := some contactRequestId, dst := some (← accountId s) } with
  | none =>
    postRequestFailure s requestId 1 "Invalid request"
    return false
  | some request =>
    if !(← DB.addRequest
        { id := requestId, contactRequestId := some contactRequestId, type := .rejectContact,
          src := ← accountId s, dst := some request.src }) then
      postRequestFailure s requestId 0 "Internal server error"
      return false
    postRequestSuccess s requestId []
    let _ ← DB.deleteRequest { id := some contactRequestId }
    Server.postUserRequests request.src
    return true

/-! ## Push -/

/-- The object a push forwards, before the key of a recipient is put in. -/
def forwardOf (src : UInt32) (head : UBJ.Object) : UBJ.Object :=
  [("requestId", .int32 (head.get "requestId").toInt), ("requestType", head.get "requestType"),
    ("src", .int32 src), ("resources", head.get "resources"), ("salt", head.get "salt"),
    ("meta", head.get "meta")]

/-- The loop of `processPushRequest` over the keys; `forward` is the object it re-uses
from round to round. -/
def pushKeys (s : SessionId) (requestId : UInt32) : UBJ.Object → List UBJ.Value → Prog Unit
  | _, [] => return
  | forward, it :: keys => do
    let dst := (it.get "dst").toInt
    if dst = (← accountId s) then
      pushKeys s requestId forward keys
    else
      let forward := forward.set "key" (it.get "key")
      if !(← DB.addRequest
          { id := requestId, type := .push, src := ← accountId s, dst := some dst,
            data := some (ubjToBson (.object forward)) }) then
        postRequestFailure s requestId 0 "Internal server error"
        pushKeys s requestId forward keys
      else
        Server.postUserRequests dst
        pushKeys s requestId forward keys

/-- `ClientSession::processPushRequest`. -/
def processPushRequest (s : SessionId) (head : UBJ.Object) : Prog Bool := do
  let requestId := (head.get "requestId").toInt
  if (← status s) < .loggedIn then
    postRequestFailure s requestId 0 "Operation not permitted"
    return false
  let resourceIds := (head.get "resources").toArray.map fun it => .int32 (it.get "id").toInt
  let response : UBJ.Object := [("resources", .array resourceIds)]
  pushKeys s requestId (forwardOf (← accountId s) head) (head.get "keys").toArray
  postRequestSuccess s requestId response
  return true

/-! ## Dispatch of requests -/

/-- `ClientSession::processIncomingRequest`. -/
def processIncomingRequest (env : Env) (s : SessionId) (request : UBJ.Object) : Prog Bool :=
  match env.decode (request.get "requestType").toInt with
  | some .dispatch => processDispatchRequest s request
  | some .createAccount => processCreateAccount env s request
  | some .login => processLogin env s request
  | some .logout => processLogout env s request
  | some .config => processConfigRequest env s request
  | some .addContact => processAddContactRequest s request
  | some .createAddCode => processCreateAddCode s request
  | some .findContact => processFindContactRequest s request
  | some .acceptContact => processAcceptContact s request
  | some .rejectContact => processRejectContact s request
  | some .contactStatus => processContactStatusRequest s request
  | some .push => processPushRequest s request
  | none => return false

/-! ## Uploads -/

/-- `ClientSession::createStreamReceiver`.  A stream of another type is left to the
engine, which touches nothing of the server. -/
def createStreamReceiver (s : SessionId) (pkt : Packet) : Prog (Option Receiver) := do
  if pkt.streamType ≠ .resource then
    return none
  match ← StreamBuffer.create (tmpFile pkt.streamId) pkt with
  | none => return none
  | some buffer =>
    let receiver : Receiver := { streamId := pkt.streamId, buffer := buffer }
    if ← Proc.perform (Op.addReceiver s receiver) then
      let _ ← Server.addStreamBuffer pkt.streamId buffer
      return some receiver
    return none

/-- The engine hands the body of a packet to the receiver of its stream. -/
def receivePacket (s : SessionId) (streamId : UInt32) (body : List UInt8) : Prog Unit := do
  match ← Proc.perform (Op.findReceiver s streamId) with
  | some receiver =>
    let _ ← StreamBuffer.write receiver.buffer body
    return
  | none => return

/-- The callback of the receiver, run when the upload is complete. -/
def streamReceived (env : Env) (s : SessionId) (streamId : UInt32) : Prog Unit := do
  match ← Proc.perform (Op.findReceiver s streamId) with
  | some receiver =>
    let _ ← DB.addRequest
      { id := receiver.streamId, type := .dispatch, src := 0, dst := some (← accountId s),
        dispatchType := some 6 }
    let _ ← processRequests env s
    return
  | none => return

/-! ## Life of a session -/

/-- `ClientSession::start`: a random id stands in until the session has logged in. -/
def start (s : SessionId) : Prog Unit := do
  let id ← Proc.perform Op.random
  Proc.perform (Op.setAccountId s id)
  Proc.perform (Op.appendSession s)

/-- `ClientSession::close`. -/
def close (s : SessionId) (remove : Bool) : Prog Unit := do
  setStatus s .disconnected
  if remove then
    Proc.perform (Op.removeSession s)

/-- `ClientSession::handleHandshake`. -/
def handleHandshake (s : SessionId) (error : Bool) : Prog Unit :=
  if error then close s true else setStatus s .connected

end ClientSession

/-! ## The server's side -/

namespace Server

/-- `Server::processUserRequests`, when the user has no session. -/
def notifyUser (env : Env) (userId : UInt32) : Prog Unit := do
  let fcmToken ← DB.getFcmToken userId
  if fcmToken ≠ "" then
    let numContactRequests ← DB.numContactRequests env userId
    if numContactRequests > 0 then
      Proc.perform (Op.sendFcm fcmToken 1000 numContactRequests)
    let numMessages ← DB.numPushRequests env userId
    if numMessages > 0 then
      Proc.perform (Op.sendFcm fcmToken 2000 numMessages)

/-- `Server::processUserRequests`. -/
def processUserRequests (env : Env) (userId : UInt32) : Prog Unit := do
  let sessions ← getSessions userId
  if sessions ≠ [] then
    forM sessions fun s => do
      let _ ← ClientSession.processRequests env s
  else
    notifyUser env userId

/-- `Server::onTimer`: `completed` are the senders the engine is done with. -/
def onTimer (completed : Sender → Bool) : Prog Unit := do
  Proc.perform (Op.dropSenders completed)
  let t ← Proc.perform Op.time
  Proc.perform (Op.evictBuffers t)

/-- `Server::removeSessions`, one critical section of `m_sessions`. -/
def removeSessions : Prog Unit := do
  let sessions ← Proc.perform Op.allSessions
  forM sessions fun s => ClientSession.close s false
  Proc.perform Op.clearSessions

end Server
end ZwayServer
