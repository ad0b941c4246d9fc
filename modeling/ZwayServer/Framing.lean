import ZwayServer.Connection

/-!
# Framing

A client sends packets one after the other; the socket hands the bytes over in chunks
of any size.  A body may arrive in many chunks, but a head that arrives in two leaves
the session without a read.

* `WirePacket`, `encode` — well-formed packets and the bytes of a stream of them.
* `Incoming.read` — one read completes, with some of the bytes still to come.
* `Incoming.Follows` — the bytes still to come are those of the packets still to come.
* `framing_iff` — exactly the packets that were sent are received if and only if no
  head is split.
-/

namespace ZwayServer

variable (L : Layout)

/-! ## Streams of packets -/

/-- A packet that has the size its head announces. -/
structure WirePacket where
  head : Bytes
  body : Bytes
  head_length : head.length = L.headSize
  body_length : body.length = (L.bodySize head).toNat

variable {L}

/-- What `onPacketRecv` is handed of a packet. -/
def WirePacket.raw (p : WirePacket L) : Bytes × Bytes := (p.head, p.body)

/-- The bytes of a stream of packets. -/
def encode (ps : List (WirePacket L)) : Bytes := (ps.map fun p => p.head ++ p.body).flatten

@[simp] theorem encode_nil : encode ([] : List (WirePacket L)) = [] := rfl

@[simp] theorem encode_cons (p : WirePacket L) (ps : List (WirePacket L)) :
    encode (p :: ps) = p.head ++ (p.body ++ encode ps) := by
  simp [encode]

theorem encode_eq_nil {ps : List (WirePacket L)} (h : encode ps = []) : ps = [] := by
  cases ps with
  | nil => rfl
  | cons p ps =>
    rw [encode_cons, List.append_eq_nil_iff] at h
    have hlen := p.head_length
    have hpos := L.headSize_pos
    rw [h.1, List.length_nil] at hlen
    omega

/-! ## Reading a stream -/

/-- A connection: what its socket was asked for, if anything, the bytes still to come, and the
packets handed to `onPacketRecv` so far. -/
structure Incoming where
  reading : Option Reading
  pending : Bytes
  received : List (Bytes × Bytes) := []

namespace Incoming

/-- A session that has just been told that its handshake is over asks for a head. -/
def start (bytes : Bytes) : Incoming := { reading := some .head, pending := bytes }

/-- What becomes of the connection. -/
def react (c : Incoming) : Reaction → Incoming
  | .read r => { c with reading := some r }
  | .packet head body =>
    { c with reading := some .head, received := c.received ++ [(head, body)] }
  | .close => { c with reading := none }
  | .nothing => { c with reading := none }

variable (L) in
/-- Can a read complete with `n` bytes?  It takes at least one byte, and no more than have
been asked for or are still to come. -/
def CanRead (c : Incoming) (n : Nat) : Prop :=
  match c.reading with
  | some r => 0 < n ∧ n ≤ r.window L ∧ n ≤ c.pending.length
  | none => False

variable (L) in
/-- A read completes with `n` bytes. -/
def read (c : Incoming) (n : Nat) : Incoming :=
  match c.reading with
  | some r =>
    { c with pending := c.pending.drop n }.react (r.completed L none (c.pending.take n))
  | none => c

variable (L) in
/-- The reads of a schedule complete one after the other. -/
def Reads : Incoming → List Nat → Incoming → Prop
  | c, [], c' => c = c'
  | c, n :: ns, c' => c.CanRead L n ∧ (c.read L n).Reads ns c'

variable (L) in
/-- No read can complete any more: all bytes have arrived. -/
def Done (c : Incoming) : Prop := ∀ n, ¬ c.CanRead L n

variable (L) in
/-- Each read that asks for a head delivers the whole head. -/
def WholeHeads : Incoming → List Nat → Prop
  | _, [] => True
  | c, n :: ns => (c.reading = some .head → n = L.headSize) ∧ (c.read L n).WholeHeads ns

/-! ## What a read does -/

/-- The bytes still to come are those of the packets still to come; a connection that has
stopped reading has not received all of them. -/
def Follows (ps : List (WirePacket L)) (c : Incoming) : Prop :=
  match c.reading with
  | some .head => ∃ rest : List (WirePacket L), c.pending = encode rest ∧
      ps.map WirePacket.raw = c.received ++ rest.map WirePacket.raw
  | some (.body head offset data) => ∃ (p : WirePacket L) (more : Bytes)
      (rest : List (WirePacket L)),
      p.head = head ∧ p.body = data ++ more ∧ more ≠ [] ∧ offset.toNat = data.length ∧
      c.pending = more ++ encode rest ∧
      ps.map WirePacket.raw = c.received ++ (p :: rest).map WirePacket.raw
  | none => ∃ rest : List (WirePacket L), rest ≠ [] ∧
      ps.map WirePacket.raw = c.received ++ rest.map WirePacket.raw

theorem follows_start (ps : List (WirePacket L)) : (start (encode ps)).Follows ps :=
  ⟨ps, rfl, rfl⟩

section

variable {ps : List (WirePacket L)} {c c' : Incoming} {n : Nat}

/-- A read that asks for a head takes the whole head, or the connection stops reading. -/
theorem follows_read_head (hreading : c.reading = some .head) (h : c.Follows ps)
    (hr : c.CanRead L n) :
    (c.read L n).Follows ps ∧ ((c.read L n).reading = none ↔ n ≠ L.headSize) := by
  rw [Follows, hreading] at h
  rw [CanRead, hreading] at hr
  obtain ⟨rest, hpending, hps⟩ := h
  obtain ⟨hpos, hwindow, hlen⟩ := hr
  have hwindow : n ≤ L.headSize := hwindow
  cases rest with
  | nil =>
    rw [hpending, encode_nil, List.length_nil] at hlen
    omega
  | cons p rest =>
    rw [encode_cons] at hpending
    by_cases hn : n = L.headSize
    · have hlength : n = p.head.length := by rw [hn, p.head_length]
      have htake : c.pending.take n = p.head := by rw [hpending, hlength, List.take_left]
      have hdrop : c.pending.drop n = p.body ++ encode rest := by
        rw [hpending, hlength, List.drop_left]
      rw [read, hreading]
      simp only [htake, hdrop, Reading.completed, onPacketHeadRecv, p.head_length, and_self,
        if_true]
      split
      · -- the body is asked for
        next hsize =>
        have hbody : p.body ≠ [] := by
          intro hnil
          have := p.body_length
          rw [hnil, List.length_nil] at this
          have hzero : L.bodySize p.head = 0 := UInt32.toNat_inj.mp this.symm
          rw [hzero] at hsize
          exact absurd hsize (by decide)
        refine ⟨⟨p, p.body, rest, rfl, rfl, hbody, rfl, rfl, hps⟩, ?_⟩
        simp [react, recvPacketBody, hn]
      · -- there is none
        next hsize =>
        have hbody : p.body = [] := by
          have hzero : ¬ 0 < (L.bodySize p.head).toNat := hsize
          have := p.body_length
          exact List.length_eq_zero_iff.mp (by omega)
        refine ⟨⟨rest, by rw [hbody]; rfl, ?_⟩, by simp [react, hn]⟩
        rw [hps, react, List.append_assoc]
        show _ = c.received ++ ((p.head, []) :: rest.map WirePacket.raw)
        rw [List.map_cons, WirePacket.raw, hbody]
    · have hshort : (c.pending.take n).length = n := List.length_take_of_le hlen
      have hreact : onPacketHeadRecv L none (c.pending.take n) = .nothing := by
        rw [onPacketHeadRecv, hshort, if_neg fun h => hn h.2, if_neg fun h => by omega]
        rfl
      rw [read, hreading]
      simp only [Reading.completed, hreact]
      exact ⟨⟨p :: rest, List.cons_ne_nil _ _, hps⟩, by simp [react, hn]⟩

/-- A read of a body takes the next bytes of the body. -/
theorem follows_read_body {head : Bytes} {offset : UInt32} {data : Bytes}
    (hreading : c.reading = some (.body head offset data)) (h : c.Follows ps)
    (hr : c.CanRead L n) : (c.read L n).Follows ps ∧ (c.read L n).reading ≠ none := by
  rw [Follows, hreading] at h
  rw [CanRead, hreading] at hr
  obtain ⟨p, more, rest, rfl, hbody, hmore, hoffset, hpending, hps⟩ := h
  obtain ⟨hpos, hwindow, hlen⟩ := hr
  have hwindow : n ≤ (L.bodySize p.head).toNat - offset.toNat := hwindow
  have hsize : (L.bodySize p.head).toNat = data.length + more.length := by
    rw [← p.body_length, hbody, List.length_append]
  have hn : n ≤ more.length := by omega
  have htake : c.pending.take n = more.take n := by
    rw [hpending, List.take_append_of_le_length hn]
  have hdrop : c.pending.drop n = more.drop n ++ encode rest := by
    rw [hpending, List.drop_append_of_le_length hn]
  have hchunk : (more.take n).length = n := List.length_take_of_le hn
  rw [read, hreading]
  simp only [htake, hdrop, Reading.completed, onPacketBodyRecv, hchunk, hoffset, hsize,
    List.take_length, true_and]
  split
  · -- more of the body is to come
    next hlt =>
    have hfits : (UInt32.ofNat (data.length + n)).toNat = data.length + n := by
      have := (L.bodySize p.head).toNat_lt
      rw [UInt32.toNat_ofNat']
      exact Nat.mod_eq_of_lt (by omega)
    refine ⟨⟨p, more.drop n, rest, rfl, ?_, ?_, ?_, rfl, hps⟩, by simp [react]⟩
    · rw [List.append_assoc, List.take_append_drop, hbody]
    · intro hnil
      have := List.drop_eq_nil_iff.mp hnil
      omega
    · rw [hfits, List.length_append, hchunk]
  · -- the body is complete
    next hge =>
    have hall : n = more.length := by omega
    have hwhole : data ++ more.take n = p.body := by rw [hall, List.take_length, hbody]
    rw [if_pos (by omega)]
    refine ⟨⟨rest, ?_, ?_⟩, by simp [react]⟩
    · rw [react, hall, List.drop_length, List.nil_append]
    · rw [hps, react, hwhole, List.append_assoc]
      rfl

/-- A read keeps in step with the stream, and stops reading exactly if it splits a head. -/
theorem follows_read (h : c.Follows ps) (hr : c.CanRead L n) : (c.read L n).Follows ps ∧
    ((c.read L n).reading ≠ none ↔ (c.reading = some .head → n = L.headSize)) := by
  cases hreading : c.reading with
  | none => simp [CanRead, hreading] at hr
  | some r =>
    cases r with
    | head =>
      obtain ⟨hfollows, hstop⟩ := follows_read_head hreading h hr
      refine ⟨hfollows, ?_⟩
      rw [Ne, hstop]
      simp
    | body head offset data =>
      obtain ⟨hfollows, hgoes⟩ := follows_read_body hreading h hr
      exact ⟨hfollows, by simp [hgoes]⟩

/-! ## A whole schedule -/

/-- Nothing is read any more once the connection has stopped. -/
theorem reads_of_none {ns : List Nat} (hreading : c.reading = none) (h : c.Reads L ns c') :
    ns = [] := by
  cases ns with
  | nil => rfl
  | cons n ns =>
    have hcan := h.1
    simp [CanRead, hreading] at hcan

/-- A schedule keeps in step with the stream, and the connection goes on reading exactly if
no head is split. -/
theorem follows_reads {ns : List Nat} (hgoes : c.reading ≠ none) (h : c.Follows ps)
    (hr : c.Reads L ns c') :
    c'.Follows ps ∧ (c'.reading ≠ none ↔ c.WholeHeads L ns) := by
  induction ns generalizing c with
  | nil =>
    obtain rfl := hr
    simp [h, WholeHeads, hgoes]
  | cons n ns ih =>
    obtain ⟨hcan, hrest⟩ := hr
    obtain ⟨hfollows, hiff⟩ := follows_read h hcan
    by_cases hstop : (c.read L n).reading = none
    · obtain rfl := reads_of_none hstop hrest
      obtain rfl := hrest
      refine ⟨hfollows, ?_⟩
      rw [hiff]
      simp [WholeHeads]
    · obtain ⟨hend, hwhole⟩ := ih hstop hfollows hrest
      refine ⟨hend, ?_⟩
      rw [hwhole, WholeHeads, ← hiff]
      simp [hstop]

/-- When no read can complete any more, all packets have been received, unless the
connection has stopped reading. -/
theorem received_of_done (h : c.Follows ps) (hdone : c.Done L) :
    c.received = ps.map WirePacket.raw ↔ c.reading ≠ none := by
  rw [Follows] at h
  cases hreading : c.reading with
  | none =>
    rw [hreading] at h
    obtain ⟨rest, hne, hps⟩ := h
    simp only [ne_eq, not_true_eq_false, iff_false]
    intro heq
    rw [← heq, List.self_eq_append_right, List.map_eq_nil_iff] at hps
    exact hne hps
  | some r =>
    rw [hreading] at h
    have hcan : ∀ n, ¬ (0 < n ∧ n ≤ r.window L ∧ n ≤ c.pending.length) := by
      intro n hn
      refine hdone n ?_
      rw [CanRead, hreading]
      exact hn
    cases r with
    | head =>
      obtain ⟨rest, hpending, hps⟩ := h
      have hnil : c.pending = [] := by
        by_contra hne
        have hlen := List.length_pos_iff.mpr hne
        exact hcan 1 ⟨Nat.one_pos, L.headSize_pos, hlen⟩
      rw [hpending] at hnil
      rw [encode_eq_nil hnil] at hps
      simp [hps]
    | body head offset data =>
      obtain ⟨p, more, rest, rfl, hbody, hmore, hoffset, hpending, hps⟩ := h
      have hlen := List.length_pos_iff.mpr hmore
      have hsize : (L.bodySize p.head).toNat = data.length + more.length := by
        rw [← p.body_length, hbody, List.length_append]
      refine absurd ⟨Nat.one_pos, ?_, ?_⟩ (hcan 1)
      · show 1 ≤ (L.bodySize p.head).toNat - offset.toNat
        omega
      · rw [hpending, List.length_append]
        omega

end

end Incoming

open Incoming

/-- **Framing.**  Whatever the chunks in which the bytes of a stream of packets arrive, once
none is left that could be read, the packets that were handed to `onPacketRecv` are
those of the stream, if and only if every read that asked for a head got the whole head. -/
theorem framing_iff (L : Layout) (ps : List (WirePacket L)) (ns : List Nat) (c : Incoming)
    (hreads : (start (encode ps)).Reads L ns c) (hdone : c.Done L) :
    c.received = ps.map WirePacket.raw ↔ (start (encode ps)).WholeHeads L ns := by
  obtain ⟨hfollows, hwhole⟩ := follows_reads (by simp [start]) (follows_start ps) hreads
  rw [received_of_done hfollows hdone, hwhole]

/-! ## A head in two chunks -/

/-- Heads of two bytes, of which the second is the size of the body. -/
def sampleLayout : Layout where
  headSize := 2
  headSize_pos := by decide
  bodySize head := (head.getD 1 0).toUInt32

/-- A packet with a body of three bytes. -/
def samplePacket : WirePacket sampleLayout where
  head := [7, 3]
  body := [1, 2, 3]
  head_length := rfl
  body_length := rfl

/-- A body in two chunks is received. -/
theorem framing_splitBody :
    (⟨some .head, [], [([7, 3], [1, 2, 3])]⟩ : Incoming).received =
        [samplePacket].map WirePacket.raw ↔
      (start (encode [samplePacket])).WholeHeads sampleLayout [2, 1, 2] := by
  refine framing_iff sampleLayout [samplePacket] [2, 1, 2] _ ?_ ?_
  · refine ⟨⟨?_, ?_, ?_⟩, ⟨?_, ?_, ?_⟩, ⟨?_, ?_, ?_⟩, rfl⟩ <;> decide
  · rintro n ⟨hpos, _, hlen⟩
    have hlen : n ≤ 0 := hlen
    omega

/-- A head in two chunks is the last thing that is read: the packet has arrived, no read can
complete any more, and `onPacketRecv` has got nothing. -/
theorem not_framing_splitHead : ∃ c : Incoming,
    (start (encode [samplePacket])).Reads sampleLayout [1] c ∧ c.Done sampleLayout ∧
      c.received ≠ [samplePacket].map WirePacket.raw := by
  refine ⟨(start (encode [samplePacket])).read sampleLayout 1, ⟨⟨?_, ?_, ?_⟩, rfl⟩, ?_, ?_⟩
  · decide
  · decide
  · decide
  · intro n h
    exact h
  · decide

end ZwayServer
