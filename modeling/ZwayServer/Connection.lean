import Mathlib

/-!
# Reading packets from the socket

The three completion handlers by which a session reads packets: a fixed-size head is
asked for, then the body in as many reads as it takes, then the next head.  A handler
is told the error, if any, and the bytes that were transferred, and says what becomes
of the session.

* `Layout` — what the packet library says about heads.
* `Reading` — what the socket was asked for.
* `onPacketHeadRecv`, `onPacketBodyRecv` — the handlers.
-/

namespace ZwayServer

abbrev Bytes := List UInt8

/-- The packet format: the size of a head, and the size of the body that a head announces. -/
structure Layout where
  /-- `sizeof(Zway::Packet::Head)`. -/
  headSize : Nat
  headSize_pos : 0 < headSize
  /-- `bodySize()` of a packet with this head. -/
  bodySize : Bytes → UInt32

/-- The errors that the handlers tell apart. -/
inductive IoError where
  | connectionAborted | connectionReset | eof
  /-- The value `0x140000DB`, a short read of the TLS layer. -/
  | shortRead
  | operationAborted | other
  deriving DecidableEq, Repr, Inhabited

/-- The errors on which the handlers close the session. -/
def IoError.Ends (e : IoError) : Prop :=
  e = .connectionAborted ∨ e = .connectionReset ∨ e = .eof ∨ e = .shortRead

instance (e : IoError) : Decidable e.Ends := by
  unfold IoError.Ends
  infer_instance

/-- What `async_read_some` was called for: a head, or the rest of a body, of which the bytes
before `offset` have been read into the buffer `data`. -/
inductive Reading where
  | head
  | body (head : Bytes) (offset : UInt32) (data : Bytes)
  deriving DecidableEq, Repr, Inhabited

/-- What a handler does when a read has completed. -/
inductive Reaction where
  /-- It starts another read. -/
  | read (r : Reading)
  /-- It hands a packet to `onPacketRecv`, which goes on to the next head. -/
  | packet (head body : Bytes)
  /-- It closes the session and takes it out of the registry. -/
  | close
  /-- It returns, and nothing is left that would read. -/
  | nothing
  deriving DecidableEq, Repr, Inhabited

variable (L : Layout)

/-- How many bytes the socket was asked for at most. -/
def Reading.window : Reading → Nat
  | .head => L.headSize
  | .body pktHead offset _ => (L.bodySize pktHead).toNat - offset.toNat

/-- What both handlers do with an error. -/
def onReadError : Option IoError → Reaction
  | some e => if e.Ends then .close else .nothing
  | none => .nothing

/-- `ClientSession::recvPacketBody`. -/
def recvPacketBody (head : Bytes) : Reaction := .read (.body head 0 [])

/-- `ClientSession::onPacketHeadRecv`. -/
def onPacketHeadRecv (error : Option IoError) (bytes : Bytes) : Reaction :=
  if error = none ∧ bytes.length = L.headSize then
    if L.bodySize bytes > 0 then recvPacketBody bytes else .packet bytes []
  else if error = none ∧ bytes.length = 0 then .read .head
  else onReadError error

/-- `ClientSession::onPacketBodyRecv`. -/
def onPacketBodyRecv (error : Option IoError) (head : Bytes) (offset : UInt32)
    (data bytes : Bytes) : Reaction :=
  let data := data.take offset.toNat ++ bytes
  if error = none ∧ offset.toNat + bytes.length < (L.bodySize head).toNat then
    let packetOffset := UInt32.ofNat (offset.toNat + bytes.length)
    .read (.body head packetOffset data)
  else if error = none ∧ offset.toNat + bytes.length = (L.bodySize head).toNat then
    .packet head data
  else onReadError error

/-- The handler of a read. -/
def Reading.completed (r : Reading) (error : Option IoError) (bytes : Bytes) : Reaction :=
  match r with
  | .head => onPacketHeadRecv L error bytes
  | .body pktHead offset data => onPacketBodyRecv L error pktHead offset data bytes

end ZwayServer
