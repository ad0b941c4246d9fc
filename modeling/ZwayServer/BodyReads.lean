import ZwayServer.Connection

/-!
# Reading a body

`recvPacketBody` asks the socket for a whole body, and `onPacketBodyRecv` for what is missing of
it after each read.  Here the body is a buffer that the socket writes to, and the offset goes
through `size_t` and `uint32_t` as in the code.

* `SizeT` — the arithmetic of `size_t`.
* `Request`, `onPacketBodyRecv` — a window of the buffer that the socket may fill, and the
  handler.
* `Chain` — a body that is being read, with all that the socket has written so far.
* `InOrder` — what has arrived stands at the beginning of the buffer, each byte was written once,
  and the rest of the buffer is what is asked for next.
* `inOrder_after` — so it is after every sequence of reads, and with the last byte, and then
  only, the packet is handed on.
* `reaction_complete` — seen from outside, the handler is the one on lists of bytes.
-/

namespace ZwayServer
namespace BodyReads

/-! ## The code -/

/-- `size_t`, which has at least 32 bits. -/
structure SizeT where
  bits : ℕ
  le_bits : 32 ≤ bits

/-- The sum of two values of type `size_t`. -/
def SizeT.add (T : SizeT) (a b : ℕ) : ℕ := (a + b) % 2 ^ T.bits

/-- The data of a buffer that `Buffer::create(nullptr, size)` returns. -/
abbrev Body (size : UInt32) := { data : Bytes // data.length = size.toNat }

/-- A call of `async_read_some`. -/
structure Request where
  /-- Where the window begins, from `body->data()`. -/
  start : ℕ
  /-- How many bytes it has. -/
  size : ℕ
  /-- The offset that is bound to the handler. -/
  offset : UInt32
  deriving DecidableEq

/-- What `onPacketBodyRecv` does. -/
inductive Outcome where
  | read (r : Request)
  /-- It calls `onPacketRecv`. -/
  | packet
  /-- Its last branch, where it looks at the error. -/
  | other (error : Option IoError)

section

variable (T : SizeT) (bodySize : UInt32)

/-- `ClientSession::onPacketBodyRecv`. -/
def onPacketBodyRecv (error : Option IoError) (bytes_transferred offset : ℕ) : Outcome :=
  if error = none ∧ T.add offset bytes_transferred < bodySize.toNat then
    let packetOffset := UInt32.ofNat (T.add offset bytes_transferred)
    .read {
      start := packetOffset.toNat
      size := (bodySize - packetOffset).toNat
      offset := packetOffset }
  else if error = none ∧ T.add offset bytes_transferred = bodySize.toNat then
    .packet
  else
    .other error

/-- A body that is being read. -/
structure Chain where
  /-- The read that is outstanding. -/
  request : Option Request
  /-- The body buffer, and what was written behind it. -/
  body : Bytes
  /-- The places in the buffer that the socket has written to, in this order. -/
  places : List ℕ := []
  /-- The bodies of the packets that `onPacketRecv` was called with. -/
  packets : List Bytes := []
  /-- What the last branch has seen. -/
  others : List (Option IoError) := []
  deriving DecidableEq

/-- `ClientSession::recvPacketBody`, given what `Buffer::create` returns. -/
def recvPacketBody {bodySize : UInt32} : Option (Body bodySize) → Chain
  | none => { request := none, body := [] }
  | some body =>
    { request := some { start := 0, size := body.val.length, offset := 0 }, body := body.val }

/-- The socket writes `bytes` from `start` on. -/
def write (body : Bytes) (start : ℕ) (bytes : Bytes) : Bytes :=
  body.take start ++ bytes ++ body.drop (start + bytes.length)

/-- The read that is outstanding completes, and its handler is called. -/
def Chain.complete (error : Option IoError) (bytes : Bytes) (c : Chain) : Chain :=
  match c.request with
  | none => c
  | some r =>
    let body := write c.body r.start bytes
    let places := c.places ++ List.range' r.start bytes.length
    match onPacketBodyRecv T bodySize error bytes.length r.offset.toNat with
    | .read r' => { c with request := some r', body, places }
    | .packet => { c with request := none, body, places, packets := c.packets ++ [body] }
    | .other error => { c with request := none, body, places, others := c.others ++ [error] }

/-- Where reads without an error lead, one after the other. -/
def Chain.after (c : Chain) (chunks : List Bytes) : Chain :=
  chunks.foldl (fun c bytes => c.complete T bodySize none bytes) c

/-- A read is outstanding that may deliver these bytes. -/
def Chain.Fits (c : Chain) (bytes : Bytes) : Prop :=
  ∃ r, c.request = some r ∧ bytes.length ≤ r.size

/-- Each read delivers at most what was asked for. -/
def Chain.Fitting : Chain → List Bytes → Prop
  | _, [] => True
  | c, bytes :: chunks => c.Fits bytes ∧ (c.complete T bodySize none bytes).Fitting chunks

end

/-! ## Bytes in order -/

/-- The bytes `arrived` have been read into a buffer that held `fresh` before. -/
structure InOrder {bodySize : UInt32} (fresh : Body bodySize) (arrived : Bytes) (c : Chain) :
    Prop where
  arrived_le : arrived.length ≤ bodySize.toNat
  /-- As long as bytes are missing, they are asked for, into the rest of the buffer. -/
  window : arrived.length < bodySize.toNat →
    ∃ r, c.request = some r ∧ r.start = arrived.length ∧ r.start + r.size = bodySize.toNat
  /-- The offset that went through `uint32_t` is the number of bytes that have arrived. -/
  narrowing : ∀ r, c.request = some r → r.offset.toNat = arrived.length
  finished : arrived.length = bodySize.toNat → c.request = none
  body : c.body = arrived ++ fresh.val.drop arrived.length
  /-- Every place was written to once, from the first to the last. -/
  places : c.places = List.range arrived.length
  /-- The packet is handed on when its last byte has arrived. -/
  packets : c.packets = if arrived.length = bodySize.toNat then [arrived] else []
  /-- The last branch was not taken. -/
  others : c.others = []

/-- A sum that stays below the size of the body is not reduced. -/
theorem SizeT.add_eq (T : SizeT) {bodySize : UInt32} {a b : ℕ} (h : a + b ≤ bodySize.toNat) :
    T.add a b = a + b := by
  have hsize : bodySize.toNat < 2 ^ 32 := bodySize.toNat_lt
  have hbits : 2 ^ 32 ≤ 2 ^ T.bits := Nat.pow_le_pow_right (by decide) T.le_bits
  rw [SizeT.add]
  exact Nat.mod_eq_of_lt (by omega)

/-- Nor is it changed when it is narrowed. -/
theorem toNat_ofNat_of_lt {bodySize : UInt32} {n : ℕ} (h : n < bodySize.toNat) :
    (UInt32.ofNat n).toNat = n := by
  have hsize : bodySize.toNat < 2 ^ 32 := bodySize.toNat_lt
  exact UInt32.toNat_ofNat_of_lt' (by show n < 2 ^ 32; omega)

/-- Writing behind what has arrived. -/
theorem write_append (arrived rest bytes : Bytes) :
    write (arrived ++ rest) arrived.length bytes =
      (arrived ++ bytes) ++ rest.drop bytes.length := by
  rw [write, List.take_left, List.drop_append, List.drop_eq_nil_of_le (by omega)]
  simp

section

variable {T : SizeT} {bodySize : UInt32} {fresh : Body bodySize} {arrived bytes : Bytes} {c : Chain}

/-- A read that is outstanding is for all that is missing. -/
theorem InOrder.request (h : InOrder fresh arrived c) {r : Request}
    (hrequest : c.request = some r) : arrived.length < bodySize.toNat ∧ r.start = arrived.length ∧
      r.start + r.size = bodySize.toNat ∧ r.offset.toNat = arrived.length := by
  have hmissing : arrived.length < bodySize.toNat := by
    refine lt_of_le_of_ne h.arrived_le fun heq => ?_
    rw [h.finished heq] at hrequest
    cases hrequest
  obtain ⟨r', hrequest', hstart, hend⟩ := h.window hmissing
  obtain rfl : r = r' := Option.some.inj (hrequest.symm.trans hrequest')
  exact ⟨hmissing, hstart, hend, h.narrowing r hrequest⟩

/-- Its window ends where the buffer ends. -/
theorem InOrder.in_bounds (h : InOrder fresh arrived c) {r : Request}
    (hrequest : c.request = some r) : r.start + r.size = c.body.length := by
  obtain ⟨hmissing, hstart, hend, -⟩ := h.request hrequest
  have hfresh := fresh.property
  rw [h.body, List.length_append, List.length_drop]
  omega

theorem inOrder_recvPacketBody (hpos : 0 < bodySize) (body : Body bodySize) :
    InOrder body [] (recvPacketBody (some body)) := by
  have hpos : 0 < bodySize.toNat := hpos
  refine ⟨by simp, ?_, ?_, ?_, rfl, rfl, ?_, rfl⟩
  · intro _
    exact ⟨_, rfl, rfl, by simpa using body.property⟩
  · rintro r ⟨rfl⟩
    rfl
  · intro hzero
    simp only [List.length_nil] at hzero
    omega
  · rw [if_neg (by simp only [List.length_nil]; omega)]
    rfl

/-- A request for what is missing, of which some bytes come: the handler asks for the rest. -/
theorem onPacketBodyRecv_of_lt {n offset : ℕ} (h : offset + n < bodySize.toNat) :
    onPacketBodyRecv T bodySize none n offset =
      .read {
        start := offset + n
        size := bodySize.toNat - (offset + n)
        offset := UInt32.ofNat (offset + n) } := by
  have hsum : T.add offset n = offset + n := T.add_eq h.le
  have hnarrow : (UInt32.ofNat (offset + n)).toNat = offset + n := toNat_ofNat_of_lt h
  have hsub : (bodySize - UInt32.ofNat (offset + n)).toNat = bodySize.toNat - (offset + n) := by
    rw [UInt32.toNat_sub_of_le, hnarrow]
    rw [UInt32.le_iff_toNat_le, hnarrow]
    exact h.le
  rw [onPacketBodyRecv, hsum, if_pos ⟨rfl, h⟩]
  simp only [hnarrow, hsub]

/-- With the last byte, the handler hands the packet on. -/
theorem onPacketBodyRecv_of_eq {n offset : ℕ} (h : offset + n = bodySize.toNat) :
    onPacketBodyRecv T bodySize none n offset = .packet := by
  have hsum : T.add offset n = offset + n := T.add_eq h.le
  rw [onPacketBodyRecv, hsum, if_neg (by omega), if_pos ⟨rfl, h⟩]

/-- A read that delivers no more than was asked for keeps the bytes in order. -/
theorem InOrder.complete (h : InOrder fresh arrived c) (hfits : c.Fits bytes) :
    InOrder fresh (arrived ++ bytes) (c.complete T bodySize none bytes) := by
  obtain ⟨r, hrequest, hsize⟩ := hfits
  obtain ⟨hmissing, hstart, hend, hoffset⟩ := h.request hrequest
  have hbody : write c.body r.start bytes =
      (arrived ++ bytes) ++ fresh.val.drop (arrived ++ bytes).length := by
    rw [h.body, hstart, write_append, List.drop_drop, List.length_append]
  have hplaces : c.places ++ List.range' r.start bytes.length =
      List.range (arrived ++ bytes).length := by
    have happend : List.range' 0 arrived.length ++ List.range' (0 + arrived.length) bytes.length =
        List.range' 0 (arrived.length + bytes.length) := List.range'_append_1
    rw [Nat.zero_add] at happend
    rw [h.places, hstart, List.length_append, List.range_eq_range', List.range_eq_range', happend]
  have hlength : (arrived ++ bytes).length = arrived.length + bytes.length := List.length_append
  have hnone : c.packets = [] := by rw [h.packets, if_neg (by omega)]
  rw [Chain.complete, hrequest]
  rcases Nat.lt_or_ge (arrived.length + bytes.length) bodySize.toNat with hlt | hge
  · -- more of the body is missing
    simp only [hoffset, onPacketBodyRecv_of_lt hlt, hbody, hplaces]
    refine ⟨by omega, ?_, ?_, by omega, rfl, rfl, ?_, h.others⟩
    · intro _
      exact ⟨_, rfl, hlength.symm, Nat.add_sub_of_le hlt.le⟩
    · rintro r ⟨rfl⟩
      rw [hlength]
      exact toNat_ofNat_of_lt hlt
    · rw [if_neg (by omega)]
      exact hnone
  · -- this was the last byte
    have hall : arrived.length + bytes.length = bodySize.toNat := by omega
    simp only [hoffset, onPacketBodyRecv_of_eq hall, hbody, hplaces]
    refine ⟨by omega, by omega, by simp, fun _ => rfl, rfl, rfl, ?_, h.others⟩
    have hrest : fresh.val.drop (arrived ++ bytes).length = [] := by
      apply List.drop_eq_nil_of_le
      rw [fresh.property]
      omega
    rw [if_pos (by omega), hnone, hrest, List.append_nil]
    rfl

/-- A sequence of such reads keeps them in order. -/
theorem InOrder.after {chunks : List Bytes} (h : InOrder fresh arrived c)
    (hfits : c.Fitting T bodySize chunks) :
    InOrder fresh (arrived ++ chunks.flatten) (c.after T bodySize chunks) := by
  induction chunks generalizing arrived c with
  | nil =>
    rw [List.flatten_nil, List.append_nil]
    exact h
  | cons bytes chunks ih =>
    obtain ⟨hfirst, hrest⟩ := hfits
    have hnext := ih (h.complete hfirst) hrest
    rw [List.append_assoc] at hnext
    exact hnext

end

/-- **Reading a body.**  For every packet whose head announces a body, and every sequence of
reads without an error of which each delivers at most what was asked for: at each moment the
window that is asked for next begins behind the bytes that have arrived and ends with the
buffer, no place of the buffer is skipped or written twice, the last branch of the handler is
not taken, and `onPacketRecv` is called once, when the last byte has arrived. -/
theorem inOrder_after (T : SizeT) (bodySize : UInt32) (hpos : 0 < bodySize) (body : Body bodySize)
    (chunks : List Bytes) (hfits : (recvPacketBody (some body)).Fitting T bodySize chunks) :
    InOrder body chunks.flatten
      ((recvPacketBody (some body)).after T bodySize chunks) := by
  have h := (inOrder_recvPacketBody hpos body).after hfits
  rw [List.nil_append] at h
  exact h

/-- A body of three bytes, before it is read. -/
def freshBody : Body 3 := ⟨[0, 0, 0], rfl⟩

/-- It arrives in two pieces, with a read of nothing between them. -/
theorem inOrder_twoPieces : InOrder freshBody [1, 2, 3]
    ((recvPacketBody (some freshBody)).after ⟨64, by decide⟩ 3 [[1], [], [2, 3]]) := by
  refine inOrder_after ⟨64, by decide⟩ 3 (by decide) freshBody [[1], [], [2, 3]] ?_
  exact ⟨⟨_, rfl, by decide⟩, ⟨_, rfl, by decide⟩, ⟨_, rfl, by decide⟩, trivial⟩

/-! ## Seen from outside -/

/-- What the handlers have done last, in terms of the bytes that have been read. -/
def Chain.reaction (head : Bytes) (c : Chain) : Reaction :=
  match c.request with
  | some r => .read (.body head r.offset (c.body.take r.offset.toNat))
  | none =>
    match c.packets with
    | body :: _ => .packet head body
    | [] => .nothing

section

variable {L : Layout} {T : SizeT} {bodySize : UInt32} {fresh : Body bodySize}
  {head arrived bytes : Bytes} {c : Chain}

/-- As long as bytes are missing, the rest is asked for. -/
theorem InOrder.reaction_of_lt (h : InOrder fresh arrived c)
    (hlt : arrived.length < bodySize.toNat) :
    c.reaction head = .read (.body head (UInt32.ofNat arrived.length) arrived) := by
  obtain ⟨r, hrequest, -, -⟩ := h.window hlt
  have hoffset : r.offset.toNat = arrived.length := h.narrowing r hrequest
  have hnarrow : UInt32.ofNat arrived.length = r.offset := by
    rw [← hoffset]
    exact UInt32.ofNat_toNat
  rw [Chain.reaction, hrequest, hnarrow]
  simp only [hoffset, h.body, List.take_left]

/-- When all have arrived, they are handed on. -/
theorem InOrder.reaction_of_eq (h : InOrder fresh arrived c)
    (heq : arrived.length = bodySize.toNat) : c.reaction head = .packet head arrived := by
  rw [Chain.reaction, h.finished heq, h.packets, if_pos heq]

/-- The window is the one that the model of the connection allows. -/
theorem InOrder.window_eq (hsize : L.bodySize head = bodySize) (h : InOrder fresh arrived c)
    {r : Request} (hrequest : c.request = some r) (data : Bytes) :
    (Reading.body head r.offset data).window L = r.size := by
  obtain ⟨hmissing, hstart, hend, hoffset⟩ := h.request hrequest
  rw [Reading.window, hsize, hoffset]
  omega

theorem reaction_recvPacketBody (hpos : 0 < bodySize) (body : Body bodySize) :
    (recvPacketBody (some body)).reaction head = ZwayServer.recvPacketBody head :=
  (inOrder_recvPacketBody hpos body).reaction_of_lt hpos

/-- Where the buffer is in order, a read has the effect that the handler on lists of bytes
gives it. -/
theorem reaction_complete (hsize : L.bodySize head = bodySize) (h : InOrder fresh arrived c)
    {r : Request} (hrequest : c.request = some r) (hle : bytes.length ≤ r.size) :
    (c.complete T bodySize none bytes).reaction head =
      ZwayServer.onPacketBodyRecv L none head r.offset (c.body.take r.offset.toNat) bytes := by
  have hnext : InOrder fresh (arrived ++ bytes) (c.complete T bodySize none bytes) :=
    h.complete ⟨r, hrequest, hle⟩
  have hoffset : r.offset.toNat = arrived.length := h.narrowing r hrequest
  have hlength : (arrived ++ bytes).length = arrived.length + bytes.length := List.length_append
  rw [ZwayServer.onPacketBodyRecv, hoffset, h.body, List.take_left, List.take_length, hsize,
    ← hlength]
  rcases Nat.lt_or_eq_of_le hnext.arrived_le with hlt | heq
  · rw [if_pos ⟨rfl, hlt⟩]
    exact hnext.reaction_of_lt hlt
  · rw [if_neg (by omega), if_pos ⟨rfl, heq⟩]
    exact hnext.reaction_of_eq heq

end

end BodyReads
end ZwayServer
