import ZwayServer.Proc.Locks
import ZwayServer.State

/-!
# The order in which mutexes are taken

Every function of the server reduced to the mutexes that it takes and gives back: the
`scoped_lock`s of `server.cpp`, `session.cpp`, `streambuffer.cpp` and `db.cpp`, nested as the
blocks and calls of the source nest them.  What is read under them is left open, so that
every branch may be taken and every loop run over any sessions and buffers.

The calls into `Zway::Engine` end in the functions that `ClientSession` gives it
(`addStreamSender`, `preparePacket`); the mutexes of the library itself are not part of the
repository.

* `rank` — one order of all mutexes, which every function follows (`…_ordered`).
* `never_deadlocks` — so no number of threads, however they interleave, gets stuck.
-/

namespace ZwayServer
namespace LockOrder

open Locks (Shape)

/-! ## The mutexes -/

/-- The mutexes: those of a session, of a stream buffer, of the server, and `DB::m_mutex` and
`DB::m_connectionsMutex`. -/
inductive Mutex where
  | contacts (s : SessionId)
  | sessions
  | status (s : SessionId)
  | db
  | connections
  | senders
  | sending (s : SessionId)
  | packetQueue (s : SessionId)
  | buffers
  | bytesReadable (b : ℕ)
  | fh (b : ℕ)
  | lastActivity (b : ℕ)
  deriving DecidableEq

/-- The order in which the source nests them. -/
def rank : Mutex → ℕ
  | .contacts _ => 0
  | .sessions => 1
  | .status _ => 2
  | .db => 3
  | .connections => 4
  | .senders => 5
  | .sending _ => 6
  | .packetQueue _ => 7
  | .buffers => 8
  | .bytesReadable _ => 9
  | .fh _ => 10
  | .lastActivity _ => 11

/-- A function, as far as mutexes go. -/
abbrev Code := Shape Mutex

/-- A section that takes no further mutex. -/
abbrev leaf (m : Mutex) : Code := .under m .skip

/-- Something that may be left out. -/
abbrev perhaps (c : Code) : Code := .either c .skip

/-! ## `streambuffer.cpp` -/

namespace FileBuffer

/-- `FileBuffer::release`, which the destructor runs. -/
def release (b : ℕ) : Code := leaf (.fh b)

/-- `FileBuffer::create` and `FileBuffer::open`: a buffer that cannot be set up is destroyed. -/
def make (b : ℕ) : Code := perhaps (release b)

/-- `FileBuffer::read`, `write` and `flush`. -/
def access (b : ℕ) : Code := leaf (.fh b)

end FileBuffer

namespace StreamBuffer

/-- `StreamBuffer::create` and `StreamBuffer::open`. -/
def make (b : ℕ) : Code := FileBuffer.make b

/-- `StreamBuffer::bytesReadable`. -/
def bytesReadable (b : ℕ) : Code := leaf (.bytesReadable b)

/-- `StreamBuffer::lastActivity`. -/
def lastActivity (b : ℕ) : Code := leaf (.lastActivity b)

/-- `StreamBuffer::read`; a read of the file that fails ends it. -/
def read (b : ℕ) : Code :=
  .seq (bytesReadable b)
    (.either (.seq (FileBuffer.access b) (perhaps (leaf (.lastActivity b))))
      (leaf (.lastActivity b)))

/-- `StreamBuffer::write`; a write to the file that fails ends it. -/
def write (b : ℕ) : Code :=
  .all [bytesReadable b, FileBuffer.access b,
    perhaps (.seq (leaf (.bytesReadable b)) (leaf (.lastActivity b)))]

end StreamBuffer

/-! ## `db.cpp` -/

namespace DB

/-- `DB::getConnection`. -/
def getConnection : Code := leaf .connections

/-- `DB::acquire`.  `wait_for` gives `m_mutex` back for as long as it waits, and takes it again
when it is notified or its ten seconds are over. -/
def acquire : Code :=
  .seq getConnection (perhaps (.seq (leaf .db) (.under .db getConnection)))

/-- `DB::Connection::Lock::unlock`, which the destructor runs. -/
def unlock : Code := .seq (leaf .connections) (leaf .db)

/-- A function of `DB` that makes a MongoDB call: its lock lives to its end. -/
def call : Code := .seq acquire unlock

end DB

/-! ## `server.cpp`, as far as the sessions use it -/

namespace Server

/-- `Server::appendSession`, `removeSession`, `getSessionCount`, `getSessions`. -/
def onSessions : Code := leaf .sessions

/-- `Server::addStreamBuffer` and `numStreamBuffers`. -/
def onBuffers : Code := leaf .buffers

/-- `Server::getStreamBuffer`: a buffer that is not in the map is opened under the mutex. -/
def getStreamBuffer (b : ℕ) : Code := .under .buffers (perhaps (StreamBuffer.make b))

/-- `Server::addStreamBufferSender`. -/
def addStreamBufferSender : Code := leaf .senders

end Server

/-! ## `streambuffersender.cpp` -/

/-- `StreamBufferSender::preparePacket`: the buffer is fetched if the sender has none, and a
part of it is read. -/
def preparePacket (b : ℕ) : Code :=
  .seq (perhaps (Server.getStreamBuffer b)) (perhaps (StreamBuffer.read b))

/-! ## `session.cpp` -/

namespace ClientSession

/-- `ClientSession::status` and `setStatus`. -/
def onStatus (s : SessionId) : Code := leaf (.status s)

/-- `ClientSession::sendPacket`: an empty queue is filled by the stream senders while
`m_packetQueue` is locked, and a sender that is done may be the last to hold a file. -/
def sendPacket (s : SessionId) : Code :=
  .checked .skip
    [leaf (.sending s),
      .under (.packetQueue s)
        (perhaps (.seq (.many preparePacket) (.many FileBuffer.release)))]
    (leaf (.sending s))

/-- `ClientSession::postPacket`. -/
def postPacket (s : SessionId) : Code := .seq (leaf (.packetQueue s)) (sendPacket s)

/-- `ClientSession::addStreamSender`, where `addUbjSender`, `postRequest`, `postRequestSuccess`
and `postRequestFailure` of the engine end. -/
def addStreamSender (s : SessionId) : Code := perhaps (sendPacket s)

/-- `ClientSession::onPacketSent`. -/
def onPacketSent (s : SessionId) : Code := .seq (leaf (.sending s)) (sendPacket s)

/-- `ClientSession::getContactStatus`. -/
def getContactStatus : Code := Server.onSessions

/-- The list of all contacts and their status, made under `m_contacts`. -/
def contactStatusList (s : SessionId) : Code :=
  .under (.contacts s) (.many fun _ => getContactStatus)

/-- `ClientSession::broadcastStatus`, all of it under `m_contacts`. -/
def broadcastStatus (s : SessionId) : Code :=
  perhaps (.under (.contacts s)
    (.many fun _ => perhaps (.seq Server.onSessions (.many addStreamSender))))

/-- The blocks that change `m_contacts`. -/
def changeContacts (s : SessionId) : Code := leaf (.contacts s)

/-- `ClientSession::setConfig`. -/
def setConfig (s : SessionId) : Code :=
  .all [perhaps (changeContacts s), perhaps DB.call, perhaps (broadcastStatus s)]

/-- `ClientSession::processRequests`. -/
def processRequests (s : SessionId) : Code :=
  .seq DB.call
    (.many fun _ => perhaps
      (.seq (perhaps (.seq getContactStatus (changeContacts s))) (addStreamSender s)))

/-- The response callbacks; that of a push goes on to send the resources named. -/
def processResponse (s : SessionId) : Code :=
  perhaps (.seq DB.call
    (.many fun b => perhaps
      (.seq (Server.getStreamBuffer b)
        (.seq (addStreamSender s) (perhaps Server.addStreamBufferSender)))))

/-- `ClientSession::processDispatchRequest`. -/
def processDispatchRequest (s : SessionId) : Code :=
  .checked (addStreamSender s) [onStatus s]
    (perhaps (.checked (addStreamSender s) [DB.call] (addStreamSender s)))

/-- `ClientSession::processCreateAccount`: the name is looked up, an id is taken, the account is
inserted. -/
def processCreateAccount (s : SessionId) : Code :=
  .checked (addStreamSender s) [onStatus s, .skip, .skip, DB.call]
    (.seq DB.call (.either .skip
      (.checked (addStreamSender s) [DB.call] (addStreamSender s))))

/-- `ClientSession::processLogin`. -/
def processLogin (s : SessionId) : Code :=
  .checked (addStreamSender s) [onStatus s, .skip, .skip, DB.call, .skip]
    (.all [onStatus s, Server.onSessions, Server.onSessions, perhaps (setConfig s),
      contactStatusList s, DB.call, addStreamSender s, processRequests s])

/-- `ClientSession::processLogout`. -/
def processLogout (s : SessionId) : Code :=
  .checked (addStreamSender s) [onStatus s]
    (.all [addStreamSender s, DB.call, onStatus s, broadcastStatus s])

/-- `ClientSession::processConfigRequest`. -/
def processConfigRequest (s : SessionId) : Code :=
  .checked (addStreamSender s) [onStatus s, perhaps (setConfig s)] (addStreamSender s)

/-- `ClientSession::processContactStatusRequest`. -/
def processContactStatusRequest (s : SessionId) : Code :=
  .checked (addStreamSender s) [onStatus s] (.seq (contactStatusList s) (addStreamSender s))

/-- `ClientSession::processFindContactRequest`. -/
def processFindContactRequest (s : SessionId) : Code :=
  .checked (addStreamSender s) [onStatus s, .skip] (.seq (perhaps DB.call) (addStreamSender s))

/-- `ClientSession::processAddContactRequest`: the own account; the request with the add code,
or a label; the contact; whether it is not the own account; a request that is pending; the
public key; the insert. -/
def processAddContactRequest (s : SessionId) : Code :=
  .checked (addStreamSender s)
    [onStatus s, DB.call, perhaps DB.call, DB.call, .skip, DB.call, .skip, DB.call]
    (.seq (perhaps DB.call) (addStreamSender s))

/-- `ClientSession::processCreateAddCode`: the public key, the own account, the insert. -/
def processCreateAddCode (s : SessionId) : Code :=
  .checked (addStreamSender s) [onStatus s, .skip, DB.call, DB.call] (addStreamSender s)

/-- `ClientSession::processAcceptContact`: the contact request, the own account, the public key,
the insert. -/
def processAcceptContact (s : SessionId) : Code :=
  .checked (addStreamSender s) [onStatus s, DB.call, DB.call, .skip, DB.call]
    (.all [getContactStatus, addStreamSender s, DB.call, changeContacts s])

/-- `ClientSession::processRejectContact`: the contact request, the insert. -/
def processRejectContact (s : SessionId) : Code :=
  .checked (addStreamSender s) [onStatus s, DB.call, DB.call] (.seq (addStreamSender s) DB.call)

/-- `ClientSession::processPushRequest`. -/
def processPushRequest (s : SessionId) : Code :=
  .checked (addStreamSender s) [onStatus s]
    (.seq (.many fun _ => perhaps (.seq DB.call (perhaps (addStreamSender s))))
      (addStreamSender s))

/-- `ClientSession::processIncomingRequest`. -/
def processIncomingRequest (s : SessionId) : RequestType → Code
  | .dispatch => processDispatchRequest s
  | .createAccount => processCreateAccount s
  | .login => processLogin s
  | .logout => processLogout s
  | .config => processConfigRequest s
  | .addContact => processAddContactRequest s
  | .createAddCode => processCreateAddCode s
  | .findContact => processFindContactRequest s
  | .acceptContact => processAcceptContact s
  | .rejectContact => processRejectContact s
  | .contactStatus => processContactStatusRequest s
  | .push => processPushRequest s

/-- `ClientSession::createStreamReceiver`. -/
def createStreamReceiver (b : ℕ) : Code :=
  .seq (StreamBuffer.make b) (.either (FileBuffer.release b) (perhaps Server.onBuffers))

/-- The callback of the receiver, at the end of an upload. -/
def streamReceived (s : SessionId) (b : ℕ) : Code :=
  .all [FileBuffer.access b, DB.call, processRequests s]

/-- `ClientSession::start`. -/
def start : Code := Server.onSessions

/-- `ClientSession::close`. -/
def close (s : SessionId) (remove : Bool) : Code :=
  .seq (onStatus s) (if remove then Server.onSessions else .skip)

/-- `ClientSession::handleHandshake`. -/
def handleHandshake (s : SessionId) : Code := .either (onStatus s) (close s true)

end ClientSession

/-! ## `server.cpp`, the rest -/

namespace Server

/-- `Server::processUserRequests`. -/
def processUserRequests : Code :=
  .seq onSessions (.either (.many ClientSession.processRequests)
    (.seq DB.call (perhaps (.seq DB.call DB.call))))

/-- `Server::onTimer`.  A sender or a buffer that goes may be the last to hold a file, which is
then closed under the mutex of the list. -/
def onTimer : Code :=
  .seq
    (.under .senders
      (.seq (.many ClientSession.sendPacket) (.many FileBuffer.release)))
    (.under .buffers
      (.seq (.many StreamBuffer.lastActivity) (.many FileBuffer.release)))

/-- `Server::removeSessions`; with a session its files may go. -/
def removeSessions : Code :=
  .under .sessions
    (.seq (.many fun s => ClientSession.close s false) (.many FileBuffer.release))

/-- `Server::removeStreamBuffer`. -/
def removeStreamBuffer (b : ℕ) : Code := .under .buffers (perhaps (FileBuffer.release b))

/-- `Server::info`: the accounts are looked up and the buffers counted while `m_sessions` is
locked. -/
def info : Code := .under .sessions (.seq (.many fun _ => DB.call) onBuffers)

end Server

/-! ## What threads run -/

/-- What the worker threads and the main thread run: completions of the sockets, tasks of the
`io_service`, the timer, and the commands of the console. -/
inductive Entry : Code → Prop
  | handleSession : Entry ClientSession.start
  | handleHandshake (s : SessionId) : Entry (ClientSession.handleHandshake s)
  | onPacketSent (s : SessionId) : Entry (ClientSession.onPacketSent s)
  | postPacket (s : SessionId) : Entry (ClientSession.postPacket s)
  | disconnect (s : SessionId) : Entry (ClientSession.close s true)
  | request (s : SessionId) (t : RequestType) : Entry (ClientSession.processIncomingRequest s t)
  | response (s : SessionId) : Entry (ClientSession.processResponse s)
  | createReceiver (b : ℕ) : Entry (ClientSession.createStreamReceiver b)
  | receive (b : ℕ) : Entry (StreamBuffer.write b)
  | received (s : SessionId) (b : ℕ) : Entry (ClientSession.streamReceived s b)
  | userRequests : Entry Server.processUserRequests
  | timer : Entry Server.onTimer
  | removeSessions : Entry Server.removeSessions
  | removeStreamBuffer (b : ℕ) : Entry (Server.removeStreamBuffer b)
  | info : Entry Server.info

/-! ## Every function follows the order -/

section Order

variable {n : ℕ} {s : SessionId} {b : ℕ}

@[simp] theorem leaf_ordered {m : Mutex} : (leaf m).Ordered rank n ↔ n ≤ rank m := by
  simp [Shape.Ordered]

theorem release_ordered (hn : n ≤ 10) : (FileBuffer.release b).Ordered rank n := by
  simp [FileBuffer.release, rank, hn]

theorem read_ordered (hn : n ≤ 9) : (StreamBuffer.read b).Ordered rank n := by
  have hfh : n ≤ 10 := by omega
  have hlast : n ≤ 11 := by omega
  simp [StreamBuffer.read, StreamBuffer.bytesReadable, FileBuffer.access, Shape.Ordered, rank, hn,
    hfh, hlast]

theorem call_ordered (hn : n ≤ 3) : DB.call.Ordered rank n := by
  have hconnections : n ≤ 4 := by omega
  simp [DB.call, DB.acquire, DB.unlock, DB.getConnection, Shape.Ordered, rank, hn, hconnections]

theorem getStreamBuffer_ordered (hn : n ≤ 8) : (Server.getStreamBuffer b).Ordered rank n := by
  simp [Server.getStreamBuffer, StreamBuffer.make, FileBuffer.make, FileBuffer.release,
    Shape.Ordered, rank, hn]

theorem sendPacket_ordered (hn : n ≤ 6) : (ClientSession.sendPacket s).Ordered rank n := by
  have hprepare : ∀ b, (preparePacket b).Ordered rank 8 := fun b =>
    ⟨⟨getStreamBuffer_ordered le_rfl, trivial⟩, read_ordered (by omega), trivial⟩
  have hqueue : n ≤ 7 := by omega
  simp [ClientSession.sendPacket, Shape.Ordered, rank, hn, hqueue, hprepare, release_ordered]

theorem addStreamSender_ordered (hn : n ≤ 6) :
    (ClientSession.addStreamSender s).Ordered rank n :=
  ⟨sendPacket_ordered hn, trivial⟩

theorem broadcastStatus_ordered : (ClientSession.broadcastStatus s).Ordered rank 0 := by
  have hsend : ∀ t, (ClientSession.addStreamSender t).Ordered rank 1 := fun t =>
    addStreamSender_ordered (by omega)
  simp [ClientSession.broadcastStatus, Server.onSessions, Shape.Ordered, rank, hsend]

theorem setConfig_ordered : (ClientSession.setConfig s).Ordered rank 0 := by
  simp [ClientSession.setConfig, ClientSession.changeContacts, Shape.Ordered, call_ordered,
    broadcastStatus_ordered]

theorem processRequests_ordered : (ClientSession.processRequests s).Ordered rank 0 := by
  simp [ClientSession.processRequests, ClientSession.getContactStatus, Server.onSessions,
    ClientSession.changeContacts, Shape.Ordered, call_ordered, addStreamSender_ordered]

theorem contactStatusList_ordered : (ClientSession.contactStatusList s).Ordered rank 0 := by
  simp [ClientSession.contactStatusList, ClientSession.getContactStatus, Server.onSessions,
    Shape.Ordered, rank]

theorem processResponse_ordered : (ClientSession.processResponse s).Ordered rank 0 := by
  simp [ClientSession.processResponse, Server.addStreamBufferSender, Shape.Ordered, call_ordered,
    getStreamBuffer_ordered, addStreamSender_ordered]

/-- One line for each of the twelve handlers. -/
theorem processIncomingRequest_ordered (t : RequestType) :
    (ClientSession.processIncomingRequest s t).Ordered rank 0 := by
  have hanswer : (ClientSession.addStreamSender s).Ordered rank 0 :=
    addStreamSender_ordered (by omega)
  have hcall : DB.call.Ordered rank 0 := call_ordered (by omega)
  have hstatus : (ClientSession.onStatus s).Ordered rank 0 := by
    simp [ClientSession.onStatus]
  cases t with
  | dispatch => simp [ClientSession.processIncomingRequest, ClientSession.processDispatchRequest,
      Shape.Ordered, hanswer, hcall, hstatus]
  | createAccount => simp [ClientSession.processIncomingRequest,
      ClientSession.processCreateAccount, Shape.Ordered, hanswer, hcall, hstatus]
  | login => simp [ClientSession.processIncomingRequest, ClientSession.processLogin,
      Server.onSessions, Shape.Ordered, hanswer, hcall, hstatus, setConfig_ordered,
      contactStatusList_ordered, processRequests_ordered]
  | logout => simp [ClientSession.processIncomingRequest, ClientSession.processLogout, hanswer,
      hcall, hstatus, broadcastStatus_ordered]
  | config => simp [ClientSession.processIncomingRequest, ClientSession.processConfigRequest,
      Shape.Ordered, hanswer, hstatus, setConfig_ordered]
  | addContact => simp [ClientSession.processIncomingRequest,
      ClientSession.processAddContactRequest, Shape.Ordered, hanswer, hcall, hstatus]
  | createAddCode => simp [ClientSession.processIncomingRequest,
      ClientSession.processCreateAddCode, Shape.Ordered, hanswer, hcall, hstatus]
  | findContact => simp [ClientSession.processIncomingRequest,
      ClientSession.processFindContactRequest, Shape.Ordered, hanswer, hcall, hstatus]
  | acceptContact => simp [ClientSession.processIncomingRequest,
      ClientSession.processAcceptContact, ClientSession.getContactStatus, Server.onSessions,
      ClientSession.changeContacts, Shape.Ordered, hanswer, hcall, hstatus]
  | rejectContact => simp [ClientSession.processIncomingRequest,
      ClientSession.processRejectContact, Shape.Ordered, hanswer, hcall, hstatus]
  | contactStatus => simp [ClientSession.processIncomingRequest,
      ClientSession.processContactStatusRequest, Shape.Ordered, hanswer, hstatus,
      contactStatusList_ordered]
  | push => simp [ClientSession.processIncomingRequest, ClientSession.processPushRequest,
      Shape.Ordered, hanswer, hcall, hstatus]

theorem onTimer_ordered : Server.onTimer.Ordered rank 0 := by
  have hsend : ∀ s, (ClientSession.sendPacket s).Ordered rank 6 := fun s =>
    sendPacket_ordered le_rfl
  simp [Server.onTimer, StreamBuffer.lastActivity, Shape.Ordered, rank, hsend, release_ordered]

theorem info_ordered : Server.info.Ordered rank 0 := by
  simp [Server.info, Server.onBuffers, Shape.Ordered, rank, call_ordered]

/-- Whatever a thread runs follows the order. -/
theorem Entry.ordered {c : Code} (h : Entry c) : c.Ordered rank 0 := by
  cases h with
  | handleSession => simp [ClientSession.start, Server.onSessions]
  | handleHandshake s => simp [ClientSession.handleHandshake, ClientSession.onStatus,
      ClientSession.close, Server.onSessions, Shape.Ordered]
  | onPacketSent s => simp [ClientSession.onPacketSent, Shape.Ordered, sendPacket_ordered]
  | postPacket s => simp [ClientSession.postPacket, Shape.Ordered, sendPacket_ordered]
  | disconnect s => simp [ClientSession.close, ClientSession.onStatus, Server.onSessions,
      Shape.Ordered]
  | request s t => exact processIncomingRequest_ordered t
  | response s => exact processResponse_ordered
  | createReceiver b => simp [ClientSession.createStreamReceiver, StreamBuffer.make,
      FileBuffer.make, Server.onBuffers, Shape.Ordered, release_ordered]
  | receive b => simp [StreamBuffer.write, StreamBuffer.bytesReadable, FileBuffer.access,
      Shape.Ordered]
  | received s b => simp [ClientSession.streamReceived, FileBuffer.access, call_ordered,
      processRequests_ordered]
  | userRequests => simp [Server.processUserRequests, Server.onSessions, Shape.Ordered,
      call_ordered, processRequests_ordered]
  | timer => exact onTimer_ordered
  | removeSessions => simp [Server.removeSessions, ClientSession.close, ClientSession.onStatus,
      Shape.Ordered, rank, release_ordered]
  | removeStreamBuffer b => simp [Server.removeStreamBuffer, Shape.Ordered, rank,
      release_ordered]
  | info => exact info_ordered

end Order

/-! ## No deadlock -/

/-- What can come about when any number of threads run these functions, each lock and unlock
one step. -/
abbrev Reachable : Locks.Config (Locks.ShapeOp Mutex) Mutex Locks.ShapeOp.Answer → Prop :=
  Locks.Reachable Locks.ShapeOp.effect fun p => ∃ c, Entry c ∧ p = c.prog

/-- **No deadlock.**  Whatever threads are under way and however they interleave: a mutex is
held only by a thread that still runs, and a thread that still runs can go on, or waits, along
a chain of threads each of which wants what the next one holds, for one that can.  (So nobody
takes a mutex twice or gives back one that is not his: there he would be stuck for good.) -/
theorem never_deadlocks {C : Locks.Config (Locks.ShapeOp Mutex) Mutex Locks.ShapeOp.Answer}
    (h : Reachable C) :
    (∀ m i, C.holder m = some i → Locks.Unfinished C i) ∧
      ∀ i, Locks.Unfinished C i →
        ∃ j, Relation.ReflTransGen (Locks.WaitsFor Locks.ShapeOp.effect C) i j ∧
          Locks.CanMove Locks.ShapeOp.effect C j := by
  have hentry : ∀ p : Proc (Locks.ShapeOp Mutex) Locks.ShapeOp.Answer Unit,
      (∃ c, Entry c ∧ p = c.prog) → Locks.Ordered Locks.ShapeOp.effect rank 0 p := by
    rintro _ ⟨c, hc, rfl⟩
    exact Shape.ordered_prog hc.ordered
  obtain ⟨held, hheld⟩ := Locks.disciplined_of_reachable hentry h
  have hrank : ∀ m : Mutex, rank m ≤ 11 := by
    intro m
    cases m <;> simp [rank]
  exact ⟨fun m i hm => hheld.unfinished hm, fun i hi => Locks.progress hrank hentry h hi⟩

/-- One thread registers a session that was accepted and holds `m_sessions`; another looks for the
sessions of a user and waits for it. -/
theorem never_deadlocks_sessions :
    ∃ C : Locks.Config (Locks.ShapeOp Mutex) Mutex Locks.ShapeOp.Answer,
      Reachable C ∧ Locks.WaitsFor Locks.ShapeOp.effect C 1 0 ∧
        (∀ m i, C.holder m = some i → Locks.Unfinished C i) ∧
        ∀ i, Locks.Unfinished C i →
          ∃ j, Relation.ReflTransGen (Locks.WaitsFor Locks.ShapeOp.effect C) i j ∧
            Locks.CanMove Locks.ShapeOp.effect C j := by
  have hbegun : Reachable
      { threads := [ClientSession.start.prog, Server.processUserRequests.prog] } :=
    .step (.step .start (.begin ⟨_, .handleSession, rfl⟩)) (.begin ⟨_, .userRequests, rfl⟩)
  have hreach := Locks.Reachable.step hbegun
    (.move (.acquire (i := 0) (o := .lock .sessions) (m := .sessions) () rfl rfl rfl))
  exact ⟨_, hreach, ⟨.lock .sessions, _, .sessions, rfl, rfl, rfl⟩, never_deadlocks hreach⟩

end LockOrder
end ZwayServer
