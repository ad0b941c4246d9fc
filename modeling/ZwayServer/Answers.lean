import ZwayServer.Removal

/-!
# Answers to contact requests

A contact request is answered by accepting or rejecting it.  The handlers look the
request up by the id that the client names and by the addressee, whatever its type,
and remove by the id alone.

* `Answers` — a step stores an answer to a record.
* `Corresponds` — every answer is to a contact request, and none is answered twice.
* `corresponds_of_answersWell` — the law holds of every run whose answers read a
  contact request and remove the record they have read.
-/

namespace ZwayServer

open ClientSession

/-! ## Answers -/

/-- The step stores an answer, and the record that it has read for it is `d`. -/
def Answers (env : Env) (σ : ServerState) (a : Act) (d : Record) : Prop :=
  a.Possible σ ∧ ∃ s head, a.event = .request s head ∧
    answered env ⟨σ, a.tape, []⟩ s head = some d ∧ (a.tape (insertSlot env head)).fails = false

/-- The request answers the record: it names its id, and sender and addressee are swapped. -/
structure Request.AnswerTo (q : Request) (d : Record) : Prop where
  id : q.contactRequestId = some d.id
  dst : q.dst = some d.src
  src : d.dst = some q.src

/-- Is it an answer to a contact request? -/
def RequestType.IsAnswer (t : RequestType) : Prop := t = .acceptContact ∨ t = .rejectContact

section

variable {env : Env} {w : World} {s : SessionId} {head : UBJ.Object}

/-- An answer is the only request that its handler stores, and it names what was read. -/
theorem wanted_answer {q : Request} (hq : q ∈ wanted env w s head) (ht : q.type.IsAnswer) :
    ∃ d, answered env w s head = some d ∧ wanted env w s head = [q] ∧ q.AnswerTo d := by
  have hother : ∀ t, q.type = t → t ≠ .acceptContact → t ≠ .rejectContact → False := by
    intro t htype haccept hreject
    rcases ht with h | h
    · exact haccept (htype.symm.trans h)
    · exact hreject (htype.symm.trans h)
  cases hd : env.decode (head.get "requestType").toInt with
  | none => simp [wanted, hd] at hq
  | some t =>
    cases t with
    | acceptContact =>
      simp only [wanted, hd, List.mem_map, Option.mem_toList] at hq
      obtain ⟨i, hi, rfl⟩ := hq
      obtain ⟨_, hread⟩ := answeredRecord_of_acceptInput hi
      obtain ⟨_, hid, hdst, _⟩ := mem_of_answeredRecord hread
      refine ⟨i.request, by simp [answered, hd, hi], by simp [wanted, hd, hi], ?_, rfl, hdst⟩
      exact congrArg some hid.symm
    | rejectContact =>
      simp only [wanted, hd, List.mem_map, Option.mem_toList] at hq
      obtain ⟨d, hi, rfl⟩ := hq
      obtain ⟨_, hread⟩ := answeredRecord_of_rejectInput hi
      obtain ⟨_, hid, hdst, _⟩ := mem_of_answeredRecord hread
      refine ⟨d, by simp [answered, hd, hi], by simp [wanted, hd, hi], ?_, rfl, hdst⟩
      exact congrArg some hid.symm
    | addContact =>
      simp only [wanted, hd, List.mem_map, Option.mem_toList] at hq
      obtain ⟨i, _, rfl⟩ := hq
      exact (hother .addContact rfl (by decide) (by decide)).elim
    | createAddCode =>
      simp only [wanted, hd, List.mem_map, Option.mem_toList] at hq
      obtain ⟨i, _, rfl⟩ := hq
      exact (hother .addContact rfl (by decide) (by decide)).elim
    | push =>
      simp only [wanted, hd] at hq
      split at hq
      · obtain ⟨it, _, _, rfl⟩ := (mem_pushedRequests head).mp hq
        exact (hother .push rfl (by decide) (by decide)).elim
      · cases hq
    | _ => simp [wanted, hd] at hq

/-- An answer that is stored by a step answers the record that the step has read. -/
theorem answers_of_new {σ : ServerState} (h : StoreInv σ) {a : Act} {r : Record}
    (hr : r ∈ (next env σ a).requests) (hnew : σ.nextOid ≤ r.oid) (ht : r.type.IsAnswer) :
    ∃ d, Answers env σ a d ∧ d ∈ σ.requests ∧ r.toRequest.AnswerTo d := by
  obtain ⟨hp, ⟨hdispatch, -⟩ | ⟨s, head, he, hmem⟩⟩ := new_next env h hr hnew
  · rw [hdispatch] at ht
    simp [RequestType.IsAnswer] at ht
  obtain ⟨event, tape⟩ := a
  obtain rfl : event = .request s head := he
  obtain ⟨d, hd, hwanted, hanswer⟩ := wanted_answer (oid_of_mem_storedFrom hmem).2 ht
  have hfails : (tape (insertSlot env head)).fails = false := by
    by_contra hf
    rw [hwanted] at hmem
    simp [storedFrom, hf] at hmem
  have hread := (mem_of_answered hd).1
  exact ⟨d, ⟨hp, s, head, rfl, hd, hfails⟩, (mem_of_answeredRecord hread).1, hanswer⟩

end

/-! ## The law -/

/-- Every answer that the run has stored answers a contact request that was stored then, and
no contact request has been answered twice. -/
structure Corresponds (env : Env) (tr : List Act) : Prop where
  answers : ∀ later a earlier, tr = later ++ a :: earlier →
    ∀ r ∈ (after env (a :: earlier)).requests, (after env earlier).nextOid ≤ r.oid →
      r.type.IsAnswer →
      ∃ d ∈ (after env earlier).requests, Answers env (after env earlier) a d ∧
        d.type = .addContact ∧ r.toRequest.AnswerTo d
  once : ∀ later a middle b earlier, tr = later ++ a :: (middle ++ b :: earlier) →
    ∀ d d', Answers env (after env (middle ++ b :: earlier)) a d →
      Answers env (after env earlier) b d' → d.type = .addContact → d.oid ≠ d'.oid

/-- If the step stores an answer, it has read a contact request, and the first record with
the id of that request is addressed to the same account and can be removed. -/
def AnswersWell (env : Env) (tr : List Act) (a : Act) : Prop :=
  match a.event with
  | .request s head =>
    let w : World := ⟨after env tr, a.tape, []⟩
    ∀ d ∈ answered env w s head, (a.tape (insertSlot env head)).fails = false →
      d.type = .addContact ∧ (removalChoice env w s head).fails = false ∧
        ∃ f ∈ w.server.first { id := some (head.get "contactRequestId").toInt },
          f.dst = some (w.server.sessions s).accountId
  | _ => True

instance (env : Env) (tr : List Act) : (a : Act) → Decidable (AnswersWell env tr a)
  | ⟨.request _ _, _⟩ => by
    unfold AnswersWell
    infer_instance
  | ⟨.connect _, _⟩ | ⟨.handshake .., _⟩ | ⟨.response .., _⟩ | ⟨.createReceiver .., _⟩
  | ⟨.receive .., _⟩ | ⟨.received .., _⟩ | ⟨.userRequests _, _⟩ | ⟨.send .., _⟩ | ⟨.timer _, _⟩
  | ⟨.disconnect _, _⟩ | ⟨.removeSessions, _⟩ => instDecidableTrue

section

variable {env : Env} {tr : List Act} {a : Act} {d : Record}

theorem AnswersWell.type (h : AnswersWell env tr a) (ha : Answers env (after env tr) a d) :
    d.type = .addContact := by
  obtain ⟨hp, s, head, he, hd, hf⟩ := ha
  rw [AnswersWell, he] at h
  exact (h d hd hf).1

/-- What has been answered is gone. -/
theorem AnswersWell.gone (h : AnswersWell env tr a) (ha : Answers env (after env tr) a d)
    {r : Record} (hr : r ∈ (after env (a :: tr)).requests) : r.oid ≠ d.oid := by
  obtain ⟨hp, s, head, he, hd, hf⟩ := ha
  obtain ⟨event, tape⟩ := a
  obtain rfl : event = .request s head := he
  have hinv := storeInv_after env tr
  have hremoved : removed env ⟨after env tr, tape, []⟩ s head = some d :=
    (removed_answered_iff hd).mpr (h d hd hf).2
  have hfresh := hinv.fresh d (mem_of_answeredRecord (mem_of_answered hd).1).1
  rw [after_cons, requests_next_request env hinv hp] at hr
  rcases List.mem_append.mp hr with hold | hnew
  · exact (mem_without.mp hold).2 d hremoved
  · have := (oid_of_mem_storedFrom hnew).1
    omega

theorem mem_of_answers (ha : Answers env (after env tr) a d) : d ∈ (after env tr).requests := by
  obtain ⟨hp, s, head, he, hd, hf⟩ := ha
  exact (mem_of_answeredRecord (mem_of_answered hd).1).1

end

/-- **Contact requests and their answers correspond.**  In every run each of whose answers
reads a contact request, and can remove the first record with the id it names, which is
addressed to the same account, every answer is to a contact request stored at that moment,
and no contact request is answered twice. -/
theorem corresponds_of_answersWell (env : Env) (tr : List Act)
    (h : EveryStep env (AnswersWell env) tr) : Corresponds env tr := by
  refine ⟨?_, ?_⟩
  · rintro later a earlier rfl r hr hnew ht
    obtain ⟨d, ha, hmem, hanswer⟩ := answers_of_new (storeInv_after env earlier) hr hnew ht
    have hpart : EveryStep env (AnswersWell env) (a :: earlier) := h.earlier
    exact ⟨d, hmem, ha, (hpart.1 ha.1).type ha, hanswer⟩
  · rintro later a middle b earlier rfl d d' ha hb _ ho
    have hlast : EveryStep env (AnswersWell env) (a :: (middle ++ b :: earlier)) := h.earlier
    have hpart : EveryStep env (AnswersWell env) (b :: earlier) := hlast.2.earlier
    have hwell := hpart.1 hb.1
    rcases mem_earlier env middle (b :: earlier) (mem_of_answers ha) with hold | hnew
    · exact hwell.gone hb hold ho
    · have hfresh := (storeInv_after env earlier).fresh d' (mem_of_answers hb)
      have hmono := nextOid_next env hb.1
      rw [after_cons] at hnew
      omega

/-! ## A contact request and its answer -/

/-- The second of two accounts uses an add code of the first, under the id 7. -/
def askedRun : List Act :=
  sampleStep 1 (sampleRequest .addContact 7 [("addCode", .string "00000000"), sampleKey]) ::
  sampleStep 0 (sampleRequest .createAddCode 6 [sampleKey]) ::
  (sampleJoin 1 "b" 2 ++ sampleJoin 0 "a" 1)

/-- The first account answers the request with the id 7. -/
def sampleAnswer (t : RequestType) : Act :=
  sampleStep 0 (sampleRequest t 8 [("contactRequestId", .int32 7), sampleKey])

/-- Accepting the contact request keeps the law. -/
theorem corresponds_asked : Corresponds sampleEnv (sampleAnswer .acceptContact :: askedRun) :=
  corresponds_of_answersWell sampleEnv _ (by decide +kernel)

/-- Rejecting a push under its id stores an answer to a contact request that never was. -/
theorem not_corresponds_push : ¬ Corresponds sampleEnv
    (sampleAnswer .rejectContact :: samplePush 1 7 1 ::
      (sampleJoin 1 "b" 2 ++ sampleJoin 0 "a" 1)) := by
  intro h
  have hnone : ∀ d ∈ (after sampleEnv
      (samplePush 1 7 1 :: (sampleJoin 1 "b" 2 ++ sampleJoin 0 "a" 1))).requests,
      d.type ≠ .addContact := by decide +kernel
  have hnew : ∃ r ∈ (after sampleEnv (sampleAnswer .rejectContact :: samplePush 1 7 1 ::
      (sampleJoin 1 "b" 2 ++ sampleJoin 0 "a" 1))).requests,
      (after sampleEnv (samplePush 1 7 1 :: (sampleJoin 1 "b" 2 ++ sampleJoin 0 "a" 1))).nextOid ≤
        r.oid ∧ r.type = .rejectContact := by decide +kernel
  obtain ⟨r, hr, hoid, ht⟩ := hnew
  obtain ⟨d, hd, _, htype, _⟩ := h.answers [] _ _ rfl r hr hoid (Or.inr ht)
  exact hnone d hd htype

end ZwayServer
