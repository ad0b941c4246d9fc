import ZwayServer.Footprint
import ZwayServer.NoLogin
import ZwayServer.Payload

/-!
# Access to resources

The streams that are sent to a client are the ones its own acknowledgement of a push names;
what the sender listed is not looked at.

* `startedIds` — the entries of an acknowledgement that make a sender.
* `senders_response` — what a response does to the senders, and `senders_next`, that nothing
  else makes one.
* `AccessLaw` — every sender serves a push that its account was sent and that lists the stream.
* `accessLaw_iff` — the law holds of a run exactly if its acknowledgements name only such
  streams.
-/

namespace ZwayServer

open ClientSession

/-! ## What makes a sender -/

/-- The entries of an acknowledgement that make a sender: the sender can be initialised, and the
engine of the session takes it. -/
def startedIds (ids : List UInt32) (tape : Nat → Choice) : List UInt32 :=
  ((initialised ids tape).filter Prod.snd).map Prod.fst

/-- Only one operation makes the list of senders longer. -/
theorem length_senders_exec (env : Env) {o : Op} (h : ∀ x, o ≠ .addSender x) (c : Choice)
    (σ : ServerState) : (exec env o c σ).2.senders.length ≤ σ.senders.length := by
  by_cases hreads : o.Reads
  · rw [exec_of_reads env hreads]
  cases o with
  | addSender x => exact absurd rfl (h x)
  | setSender k x =>
    show (σ.senders.set k x).length ≤ _
    rw [List.length_set]
  | dropSenders completed => exact List.length_filter_le _ _
  | insertAccount | setFcmToken | insertRequest | removeRequest =>
    exact dbCall_cases (P := fun τ => τ.senders.length ≤ σ.senders.length) (le_refl _)
      fun _ => le_refl _
  | addReceiver | addEngineSender | fopenAppend =>
    rw [exec]
    split <;> exact le_refl _
  | removeSession s =>
    rw [exec, ServerState.removeSession_eq]
  | _ => first | exact le_refl _ | exact absurd trivial hreads

/-- Only responses make senders. -/
theorem response_of_footprint {env : Env} {e : Event} {x : Sender}
    (h : e.Footprint env (.addSender x)) : ∃ s k head, e = .response s k head := by
  cases e with
  | response s k head => exact ⟨s, k, head, rfl⟩
  | request s head =>
    obtain ⟨t, -, ht⟩ := h
    cases t <;> simp at ht
  | userRequests k =>
    obtain ⟨s, hs⟩ := h
    exact hs.elim
  | _ => exact h.elim

/-- Opening a buffer makes no sender. -/
theorem senders_getStreamBuffer (env : Env) (id : UInt32) (w : World) :
    (Proc.run (step env) (Server.getStreamBuffer env id) w).2.server.senders =
      w.server.senders := by
  cases hbuffer : w.server.buffers[id]? with
  | some ref => rw [run_getStreamBuffer_of_some env hbuffer]
  | none =>
    cases hfile : w.server.files (tmpFile id) with
    | none => rw [run_getStreamBuffer_of_none env hbuffer hfile]
    | some bytes =>
      rw [run_getStreamBuffer_of_file env hbuffer hfile]
      rfl

/-- The entries of an acknowledgement that start make one sender each, in their order. -/
theorem senders_forM_sendResource (env : Env) (s : SessionId) (items : List UBJ.Value) (w : World) :
    ∃ new, (Proc.run (step env) (forM items (sendResource env s)) w).2.server.senders =
        w.server.senders ++ new ∧
      new.map (fun x => (x.session, x.streamId)) =
        (startedIds (items.map UBJ.Value.toInt) w.tape).map fun id => (s, id) := by
  induction items generalizing w with
  | nil => exact ⟨[], by simp, rfl⟩
  | cons it items ih =>
    rw [Proc.run_forM_cons, run_sendResource]
    dsimp only
    by_cases hid : it.toInt = 0
    · simpa only [startedIds, initialised, List.map_cons, if_pos hid] using ih w
    by_cases hinit : (w.tape 0).fails = true
    · have hrest := ih w.next
      simp only [startedIds, initialised, List.map_cons, if_neg hid, if_pos hinit] at hrest ⊢
      exact hrest
    have hsenders := senders_getStreamBuffer env it.toInt w.next
    have htape := (run_getStreamBuffer env it.toInt w.next).2.2
    have hcons : startedIds ((it :: items).map UBJ.Value.toInt) w.tape =
        (if (w.tape 1).fails then [] else [it.toInt]) ++
          startedIds (items.map UBJ.Value.toInt) fun n => w.tape (n + 2) := by
      by_cases hadds : (w.tape 1).fails = true <;> simp [startedIds, initialised, hid, hinit, hadds]
    rw [hcons, if_neg hid, if_neg hinit]
    generalize Proc.run (step env) (Server.getStreamBuffer env it.toInt) w.next = out
      at hsenders htape
    have hrest : out.2.next.tape = fun n => w.tape (n + 2) := by
      funext n
      rw [World.next_tape, htape]
      rfl
    by_cases hadds : (w.tape 1).fails = true
    · obtain ⟨new, hnew, hids⟩ := ih out.2.next
      rw [hrest] at hids
      rw [if_pos hadds, if_pos hadds, hnew, World.next_server, hsenders]
      exact ⟨new, rfl, hids⟩
    · obtain ⟨new, hnew, hids⟩ :=
        ih (out.2.next.addSender s { session := s, streamId := it.toInt, buffer := out.1 })
      have hadded : (out.2.next.addSender s
          { session := s, streamId := it.toInt, buffer := out.1 }).server.senders =
            w.server.senders ++ [{ session := s, streamId := it.toInt, buffer := out.1 }] := by
        rw [← World.next_server w, ← hsenders]
        rfl
      have htape' : (out.2.next.addSender s
          { session := s, streamId := it.toInt, buffer := out.1 }).tape =
            fun n => w.tape (n + 2) := hrest
      rw [htape'] at hids
      rw [if_neg hadds, if_neg hadds, hnew, hadded, List.append_assoc]
      refine ⟨_, rfl, ?_⟩
      rw [List.map_append, List.map_append, hids]
      rfl

/-! ## What a step makes -/

/-- The senders that a step makes. -/
def newSenders (env : Env) (σ : ServerState) (a : Act) : List Sender :=
  (next env σ a).senders.drop σ.senders.length

/-- Nothing but a response makes a sender. -/
theorem senders_next {env : Env} {σ : ServerState} {a : Act}
    (ha : ∀ s k head, a.event ≠ .response s k head) : newSenders env σ a = [] := by
  rw [newSenders, List.drop_eq_nil_iff]
  by_cases hp : a.Possible σ
  swap
  · rw [next_of_not_possible hp]
  have hnote : (a.event.note σ).senders.length ≤ σ.senders.length := by
    cases a.event <;> exact le_refl _
  refine footprint_next (P := fun σ' => σ'.senders.length ≤ σ.senders.length) hp hnote ?_
  intro o c σ' ho hle
  refine (length_senders_exec env (fun x hx => ?_) c σ').trans hle
  subst hx
  obtain ⟨s, k, head, he⟩ := response_of_footprint ho
  exact ha s k head he

/-- The acknowledgement of a push makes a sender for each entry that starts a transfer, and no
other response makes one. -/
theorem senders_response (env : Env) {σ : ServerState} {s : SessionId} {k : Nat}
    {head : UBJ.Object} {tape : Nat → Choice} (hp : (Act.mk (.response s k head) tape).Possible σ) :
    ∃ p, (σ.sessions s).posted[k]? = some p ∧
      (newSenders env σ ⟨.response s k head, tape⟩).map (fun x => (x.session, x.streamId)) =
        if Acknowledges p head ∧ p.type = .push then
          (startedIds ((head.get "resources").toArray.map UBJ.Value.toInt)
            fun n => tape (n + 1)).map fun id => (s, id)
        else [] := by
  obtain ⟨p, hposted, hnext⟩ := next_response_eq env hp
  refine ⟨p, hposted, ?_⟩
  have hremoval : ∀ (w : World) q, (w.removeRequest q).server.senders = w.server.senders := by
    intro w q
    rw [World.removeRequest]
    split <;> rfl
  have htake : (σ.takePosted s k).senders = σ.senders := rfl
  rw [newSenders, hnext, run_processResponse]
  by_cases hack : Acknowledges p head
  · by_cases hpush : p.type = .push
    · simp only [hack, hpush, if_true, and_self]
      obtain ⟨new, hsenders, hnew⟩ := senders_forM_sendResource env s
        (head.get "resources").toArray
        ((World.mk (σ.takePosted s k) tape []).removeRequest
          (ackQuery p ((σ.takePosted s k).sessions s).accountId))
      rw [hsenders, hremoval, htake, List.drop_left, hnew]
      rfl
    · simp only [hack, hpush, if_true, if_false, and_false]
      rw [hremoval, htake, List.drop_length, List.map_nil]
  · simp only [hack, if_false, false_and]
    rw [htake, List.drop_length, List.map_nil]

/-! ## The law -/

/-- The ids of the resources that a stored push lists, as `processPushRequest` reads them. -/
def Record.resourceIds (r : Record) : List UInt32 :=
  (((r.data.map bsonObjToUbj).getD []).get "resources").toArray.map fun it => (it.get "id").toInt

/-- The record is a push to the account `x` that lists the stream. -/
structure Record.Offers (r : Record) (x id : UInt32) : Prop where
  type : r.type = .push
  dst : r.dst = some x
  listed : id ∈ r.resourceIds

/-- Every sender that a step of the run makes serves a push that was posted to its session,
that an account had stored for the account of the session, and that lists the stream. -/
def AccessLaw (env : Env) (tr : List Act) : Prop :=
  ∀ later a earlier, tr = later ++ a :: earlier →
    ∀ x ∈ newSenders env (after env earlier) a, ∃ k head p,
      a.event = .response x.session k head ∧
      ((after env earlier).sessions x.session).posted[k]? = some p ∧
      InsertedBy env earlier p.record ∧
      p.record.Offers ((after env earlier).sessions x.session).accountId x.streamId

/-- The acknowledgement of a push names, of the streams that it starts, only those that the
push offers to the account that the session has by then. -/
def NamesOffered (σ : ServerState) (a : Act) : Prop :=
  match a.event with
  | .response s k head => ∀ p, (σ.sessions s).posted[k]? = some p → Acknowledges p head →
      p.type = .push → ∀ id ∈ startedIds ((head.get "resources").toArray.map UBJ.Value.toInt)
        (fun n => a.tape (n + 1)),
        p.record.dst = some (σ.sessions s).accountId ∧ id ∈ p.record.resourceIds
  | _ => True

/-- Every posted push was stored by a session that had authenticated its sender. -/
theorem insertedBy_posted (env : Env) (tr : List Act) :
    ∀ s, ∀ p ∈ ((after env tr).sessions s).posted, p.record.type = .push →
      InsertedBy env tr p.record := by
  induction tr with
  | nil => exact fun s p hp => absurd hp List.not_mem_nil
  | cons a tr ih =>
    intro s p hmem htype
    by_cases hp : a.Possible (after env tr)
    · rcases posted_next hp hmem with hold | ⟨-, hstored⟩
      · exact (ih s p hold htype).cons a
      · have hrecord : p.record ∈ (after env (a :: tr)).requests := hstored
        exact (stored_authentic env (a :: tr) hrecord (by rw [htype]; decide)).1
    · rw [after_cons, next_of_not_possible hp] at hmem
      exact (ih s p hmem htype).cons a

/-- **Access to resources.**  In every run, every sender serves a push that offers its stream to
its account, exactly if every acknowledgement of the run names only streams that the push it
acknowledges offers to the account that acknowledges. -/
theorem accessLaw_iff (env : Env) (tr : List Act) :
    AccessLaw env tr ↔
      EveryStep env (fun earlier a => NamesOffered (after env earlier) a) tr := by
  rw [everyStep_iff]
  refine forall_congr' fun later => forall_congr' fun a => forall_congr' fun earlier =>
    forall_congr' fun htr => ?_
  by_cases hp : a.Possible (after env earlier)
  swap
  · have hnil : newSenders env (after env earlier) a = [] := by
      rw [newSenders, next_of_not_possible hp, List.drop_length]
    simp [hnil, hp]
  rw [forall_prop_of_true hp]
  obtain ⟨event, tape⟩ := a
  cases event with
  | response s k head =>
    obtain ⟨p, hposted, hids⟩ := senders_response env hp
    constructor
    · intro h q hq hack hpush id hid
      obtain rfl : p = q := Option.some.inj (hposted.symm.trans hq)
      rw [if_pos ⟨hack, hpush⟩] at hids
      have hmem : (s, id) ∈ (newSenders env (after env earlier)
          ⟨.response s k head, tape⟩).map fun x => (x.session, x.streamId) := by
        rw [hids]
        exact List.mem_map_of_mem hid
      obtain ⟨x, hx, he⟩ := List.mem_map.mp hmem
      obtain ⟨hs, hstream⟩ := Prod.mk.inj he
      obtain ⟨k', head', p', hevent, hposted', -, hoffers⟩ := h x hx
      rw [hs] at hevent hposted' hoffers
      rw [hstream] at hoffers
      obtain ⟨-, rfl, rfl⟩ := Event.response.inj hevent
      obtain rfl : p = p' := Option.some.inj (hposted.symm.trans hposted')
      exact ⟨hoffers.dst, hoffers.listed⟩
    · intro h x hx
      have hmem : (x.session, x.streamId) ∈ (newSenders env (after env earlier)
          ⟨.response s k head, tape⟩).map fun x => (x.session, x.streamId) :=
        List.mem_map_of_mem hx
      rw [hids] at hmem
      split at hmem
      · next hack =>
        obtain ⟨id, hid, he⟩ := List.mem_map.mp hmem
        obtain ⟨hs, rfl⟩ := Prod.mk.inj he
        obtain ⟨hdst, hids'⟩ := h p hposted hack.1 hack.2 _ hid
        have hmemp : p ∈ ((after env earlier).sessions s).posted := List.mem_of_getElem? hposted
        have htype : p.record.type = .push := by
          rw [← (genuine_after env earlier s p hmemp).type]
          exact hack.2
        rw [← hs]
        exact ⟨k, head, p, rfl, hposted, insertedBy_posted env earlier s p hmemp htype,
          htype, hdst, hids'⟩
      · exact absurd hmem List.not_mem_nil
  | _ =>
    rw [senders_next fun _ _ _ => Event.noConfusion]
    simp [NamesOffered]

/-- Two accounts join, one pushes to the other without any resource, and the acknowledgement
names the stream 9. -/
def namedRun : List Act :=
  ⟨.response 1 0 [("status", .int32 1), ("resources", .array [.int32 9])], calm 0⟩ ::
    ⟨.userRequests 0, calm 0⟩ :: samplePush 0 7 2 :: (sampleJoin 1 "b" 2 ++ sampleJoin 0 "a" 1)

/-- A client is sent a stream that no push listed. -/
theorem not_accessLaw_named : ¬ AccessLaw sampleEnv namedRun := by
  intro h
  have hlaw := h [] _ _ rfl
  have hsender : (newSenders sampleEnv (after sampleEnv (namedRun.drop 1))
      ⟨.response 1 0 [("status", .int32 1), ("resources", .array [.int32 9])], calm 0⟩).any
        (fun x => x.session == 1 && x.streamId == 9) = true := by
    decide +kernel
  obtain ⟨x, hx, hid⟩ := List.any_eq_true.mp hsender
  simp only [Bool.and_eq_true, beq_iff_eq] at hid
  obtain ⟨k, head, p, -, hposted, -, hoffers⟩ := hlaw x hx
  have hempty : ((after sampleEnv (namedRun.drop 1)).sessions 1).posted.all
      (·.record.resourceIds.isEmpty) = true := by
    decide +kernel
  rw [hid.1] at hposted
  have hlist := List.all_eq_true.mp hempty p (List.mem_of_getElem? hposted)
  rw [List.isEmpty_iff] at hlist
  have hlisted := hoffers.listed
  rw [hlist] at hlisted
  exact absurd hlisted List.not_mem_nil

end ZwayServer
