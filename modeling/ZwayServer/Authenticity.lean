import ZwayServer.Invariants

/-!
# The sender of a request

Whoever reads a stored request, or is sent a push, learns who it came from: the
account that the session which stored the request had authenticated.

* `new_record`, `new_push` — where the records and the pushes of one step come from.
* `InsertedBy` — a record was stored by a session that had authenticated its sender.
* `sender_authentic` — every record of a run was, and every push carries that sender.
-/

namespace ZwayServer

open ClientSession

/-! ## One step -/

/-- The work of a session stores requests in the name of its account only. -/
theorem Edits.new_record {x : UInt32} {σ σ' : ServerState} (h : Edits x σ σ') :
    σ.nextOid ≤ σ'.nextOid ∧ ∀ r ∈ σ'.requests, r ∈ σ.requests ∨
      σ.nextOid ≤ r.oid ∧ Authored x r.toRequest := by
  induction h with
  | refl => exact ⟨le_refl _, fun r hr => Or.inl hr⟩
  | quiet _ hq ih =>
    rw [hq.nextOid, hq.requests]
    exact ih
  | @insert σ' _ r hr ih =>
    refine ⟨Nat.le_succ_of_le ih.1, fun r' hr' => ?_⟩
    rcases List.mem_append.mp hr' with hr' | hr'
    · exact ih.2 r' hr'
    · obtain rfl := List.mem_singleton.mp hr'
      exact Or.inr ⟨ih.1, hr⟩
  | remove _ q ih => exact ⟨ih.1, fun r hr => ih.2 r (List.mem_of_mem_eraseP hr)⟩
  | schedule _ _ ih => exact ih

/-- The work of a session posts nothing. -/
theorem Edits.mem_outbox {x : UInt32} {σ σ' : ServerState} (h : Edits x σ σ') {s : SessionId}
    {t : RequestType} {id : UInt32} {head : UBJ.Object}
    (hm : .request t id head ∈ (σ'.sessions s).outbox) :
    .request t id head ∈ (σ.sessions s).outbox := by
  induction h with
  | refl => exact hm
  | quiet _ hq ih =>
    rcases hq.mem_outbox hm with hold | ⟨p, hp, _⟩
    · exact ih hold
    · exact hp.elim
  | insert _ _ ih | remove _ _ ih | schedule _ _ ih => exact ih hm

/-- A record that a step leaves in the store was there before, or tells the client of an
upload, or was stored in the name of the account that the session of the step is logged
in to. -/
theorem new_record (env : Env) {σ : ServerState} {a : Act} (hp : a.Possible σ) {r : Record}
    (hr : r ∈ (next env σ a).requests) :
    r ∈ σ.requests ∨ r.type = .dispatch ∨
      ∃ s head, a.event = .request s head ∧ (σ.sessions s).status = .loggedIn ∧
        σ.nextOid ≤ r.oid ∧ Authored (σ.sessions s).accountId r.toRequest := by
  by_cases hlife : a.event.IsLife
  · rw [(sameStore_next env hp hlife).requests] at hr
    exact Or.inl hr
  obtain ⟨event, tape⟩ := a
  cases event with
  | connect | handshake | disconnect | removeSessions => exact absurd trivial hlife
  | request s head =>
    cases next_request env hp with
    | refused _ hq =>
      rw [hq.requests] at hr
      exact Or.inl hr
    | edited hst _ he =>
      rcases he.new_record.2 r hr with hold | ⟨hoid, hauthored⟩
      · exact Or.inl hold
      · exact Or.inr (Or.inr ⟨s, head, rfl, hst, hoid, hauthored⟩)
    | loggedOut _ _ hq =>
      rw [hq.requests] at hr
      exact Or.inl hr
    | created account _ _ _ hq =>
      rw [hq.requests] at hr
      exact Or.inl hr
    | loggedIn x _ _ hd =>
      rw [hd.requests, ServerState.login_eq] at hr
      exact Or.inl hr
  | response s k head =>
    obtain ⟨p, hmem, hresp⟩ := next_response env hp
    split at hresp
    · rw [hresp.requests, World.removeRequest] at hr
      split at hr
      · exact Or.inl hr
      · exact Or.inl (List.mem_of_mem_eraseP hr)
    · rw [hresp] at hr
      exact Or.inl hr
  | createReceiver s pkt =>
    rw [(next_createReceiver env hp).requests] at hr
    exact Or.inl hr
  | receive s id body =>
    rw [(next_receive env hp).requests] at hr
    exact Or.inl hr
  | received s id =>
    have hrecv := next_received env hp
    split at hrecv
    · rw [hrecv] at hr
      exact Or.inl hr
    · rw [hrecv.requests, World.insertRequest] at hr
      split at hr
      · exact Or.inl hr
      · rcases List.mem_append.mp hr with hr | hr
        · exact Or.inl hr
        · obtain rfl := List.mem_singleton.mp hr
          exact Or.inr (Or.inl rfl)
  | userRequests k =>
    rw [(next_userRequests env hp).requests] at hr
    exact Or.inl hr
  | send k size offset =>
    rw [(next_send env hp).requests] at hr
    exact Or.inl hr
  | timer completed =>
    rw [(next_timer env hp).requests] at hr
    exact Or.inl hr

/-- A posted request was made from a record that is stored. -/
def FromStored (env : Env) (σ : ServerState) (t : RequestType) (id : UInt32)
    (head : UBJ.Object) : Prop :=
  ∃ r ∈ σ.requests, r.type = t ∧ r.id = id ∧ ∃ contactStatus, head = postedHead env r contactStatus

theorem Delivers.new_post (env : Env) {F : SessionId → Posted → Prop} {σ σ₀ σ' : ServerState}
    (hd : Delivers F σ₀ σ') (hF : ∀ t p, F t p → ∃ x, MadeFrom env σ₀.requests x p)
    (hsame : ∀ t, (σ₀.sessions t).outbox = (σ.sessions t).outbox) {s : SessionId}
    {t : RequestType} {id : UInt32} {head : UBJ.Object}
    (hm : .request t id head ∈ (σ'.sessions s).outbox) :
    .request t id head ∈ (σ.sessions s).outbox ∨ FromStored env σ' t id head := by
  rcases hd.mem_outbox hm with hold | ⟨p, hFp, rfl, rfl, rfl⟩
  · rw [hsame] at hold
    exact Or.inl hold
  · obtain ⟨x, hmade⟩ := hF s p hFp
    refine Or.inr ⟨p.record, ?_, hmade.type.symm, hmade.id.symm, hmade.head⟩
    rw [hd.requests]
    exact hmade.mem

theorem Quiet.new_post (env : Env) {σ σ₀ σ' : ServerState} (hq : Quiet σ₀ σ')
    (hsame : ∀ t, (σ₀.sessions t).outbox = (σ.sessions t).outbox) {s : SessionId}
    {t : RequestType} {id : UInt32} {head : UBJ.Object}
    (hm : .request t id head ∈ (σ'.sessions s).outbox) :
    .request t id head ∈ (σ.sessions s).outbox ∨ FromStored env σ' t id head :=
  Delivers.new_post env hq (fun _ _ => False.elim) hsame hm

/-- A request that a step posts to a session was made from a stored record. -/
theorem new_post (env : Env) {σ : ServerState} {a : Act} (hp : a.Possible σ) {s : SessionId}
    {t : RequestType} {id : UInt32} {head : UBJ.Object}
    (hm : .request t id head ∈ ((next env σ a).sessions s).outbox) :
    .request t id head ∈ (σ.sessions s).outbox ∨ FromStored env (next env σ a) t id head := by
  by_cases hlife : a.event.IsLife
  · rw [(sameStore_next env hp hlife).outbox] at hm
    exact Or.inl hm
  obtain ⟨event, tape⟩ := a
  cases event with
  | connect | handshake | disconnect | removeSessions => exact absurd trivial hlife
  | request u head' =>
    cases next_request env hp with
    | refused _ hq => exact hq.new_post env (fun _ => rfl) hm
    | edited _ _ he => exact Or.inl (he.mem_outbox hm)
    | loggedOut _ _ hq =>
      refine hq.new_post env (fun v => ?_) hm
      by_cases hv : v = u <;> simp [ServerState.setStatus, hv]
    | created account _ _ _ hq => exact hq.new_post env (fun _ => rfl) hm
    | loggedIn x _ _ hd =>
      refine hd.new_post env (fun v p hF => ⟨x, ?_⟩) (fun v => ?_) hm
      · rw [ServerState.login_eq]
        exact hF.2
      · by_cases hv : v = u <;> simp [hv]
  | response u k head' =>
    obtain ⟨p, hmem, hresp⟩ := next_response env hp
    have htake : ∀ v, ((σ.takePosted u k).sessions v).outbox = (σ.sessions v).outbox := fun v => by
      by_cases hv : v = u <;> simp [ServerState.takePosted, hv]
    split at hresp
    · refine hresp.new_post env (fun v => ?_) hm
      rw [← htake v, World.removeRequest]
      split <;> rfl
    · rw [hresp, htake] at hm
      exact Or.inl hm
  | createReceiver u pkt =>
    exact (next_createReceiver env hp).new_post env (fun _ => rfl) hm
  | receive u id body =>
    exact (next_receive env hp).new_post env (fun _ => rfl) hm
  | received u id =>
    have hrecv := next_received env hp
    split at hrecv
    · rw [hrecv] at hm
      exact Or.inl hm
    · refine hrecv.new_post env (fun _ _ hF => ⟨_, hF.2⟩) (fun v => ?_) hm
      rw [sessions_insertRequest]
  | userRequests k =>
    exact (next_userRequests env hp).new_post env (fun _ _ hF => ⟨_, hF.2⟩) (fun _ => rfl) hm
  | send k size offset =>
    exact (next_send env hp).new_post env (fun _ => rfl) hm
  | timer completed =>
    exact (next_timer env hp).new_post env (fun _ => rfl) hm

/-! ## Runs -/

/-- The record was stored by a request of a session that had, at that moment,
authenticated the sender that the record names. -/
def InsertedBy (env : Env) (tr : List Act) (r : Record) : Prop :=
  ∃ later a earlier s head, tr = later ++ a :: earlier ∧ a.Possible (after env earlier) ∧
    a.event = .request s head ∧ authenticated env earlier s = some r.src ∧
    r ∉ (after env earlier).requests ∧ r ∈ (after env (a :: earlier)).requests

theorem InsertedBy.cons {env : Env} {tr : List Act} {r : Record} (h : InsertedBy env tr r)
    (a : Act) : InsertedBy env (a :: tr) r := by
  obtain ⟨later, b, earlier, s, head, rfl, h⟩ := h
  exact ⟨a :: later, b, earlier, s, head, rfl, h⟩

/-- What a stored push carries names the sender of the record. -/
def CarriesSender (r : Record) : Prop :=
  r.type = .push → ∃ doc, r.data = some doc ∧ (bsonObjToUbj doc).get "src" = .int32 r.src

/-- Every stored record that is not about an upload has an authenticated sender. -/
theorem stored_authentic (env : Env) (tr : List Act) {r : Record}
    (hr : r ∈ (after env tr).requests) (ht : r.type ≠ .dispatch) :
    InsertedBy env tr r ∧ CarriesSender r := by
  induction tr with
  | nil => exact absurd hr List.not_mem_nil
  | cons a tr ih =>
    by_cases hp : a.Possible (after env tr)
    · rcases new_record env hp hr with hold | hdispatch | ⟨s, head, he, hst, hoid, hauthored⟩
      · obtain ⟨hins, hcarries⟩ := ih hold
        exact ⟨hins.cons a, hcarries⟩
      · exact absurd hdispatch ht
      · have hauth := authenticated_of_loggedIn env tr hst
        have hfresh : r ∉ (after env tr).requests := fun hmem => by
          have := (storeInv_after env tr).fresh r hmem
          omega
        refine ⟨⟨[], a, tr, s, head, rfl, hp, he, ?_, hfresh, hr⟩, fun htype => ?_⟩
        · rw [hauth, hauthored.src]
        · obtain ⟨doc, hdoc, hsrc⟩ := hauthored.inner htype
          exact ⟨doc, hdoc, by rw [hsrc, hauthored.src]⟩
    · rw [after_cons, next, if_neg hp] at hr
      obtain ⟨hins, hcarries⟩ := ih hr
      exact ⟨hins.cons a, hcarries⟩

/-- Every posted push names an authenticated sender. -/
theorem pushed_authentic (env : Env) (tr : List Act) {s : SessionId} {id : UInt32}
    {head : UBJ.Object} (hm : .request .push id head ∈ ((after env tr).sessions s).outbox) :
    ∃ r, r.type = .push ∧ r.id = id ∧ InsertedBy env tr r ∧ head.get "src" = .int32 r.src := by
  induction tr with
  | nil => exact absurd hm List.not_mem_nil
  | cons a tr ih =>
    by_cases hp : a.Possible (after env tr)
    · rcases new_post env hp hm with hold | ⟨r, hr, ht, hid, contactStatus, hhead⟩
      · obtain ⟨r, ht, hid, hins, hsrc⟩ := ih hold
        exact ⟨r, ht, hid, hins.cons a, hsrc⟩
      · have hr' : r ∈ (after env (a :: tr)).requests := hr
        obtain ⟨hins, hcarries⟩ := stored_authentic env (a :: tr) hr' (by rw [ht]; decide)
        obtain ⟨doc, hdoc, hsrc⟩ := hcarries ht
        refine ⟨r, ht, hid, hins, ?_⟩
        rw [hhead]
        simp [postedHead, ht, hdoc, hsrc]
    · rw [after_cons, next, if_neg hp] at hm
      obtain ⟨r, ht, hid, hins, hsrc⟩ := ih hm
      exact ⟨r, ht, hid, hins.cons a, hsrc⟩

/-- **Sender authenticity.**  After any run, every stored contact request, answer and push
names as its sender the account that the session which stored it had authenticated, and
every push that was ever posted to a client carries such a sender. -/
theorem sender_authentic (env : Env) (tr : List Act) :
    (∀ r ∈ (after env tr).requests,
      r.type = .addContact ∨ r.type = .acceptContact ∨ r.type = .rejectContact ∨ r.type = .push →
      InsertedBy env tr r) ∧
    ∀ s id head, .request .push id head ∈ ((after env tr).sessions s).outbox →
      ∃ r, r.type = .push ∧ r.id = id ∧ InsertedBy env tr r ∧
        head.get "src" = .int32 r.src := by
  refine ⟨fun r hr ht => ?_, fun s id head hm => pushed_authentic env tr hm⟩
  refine (stored_authentic env tr hr fun hdispatch => ?_).1
  rw [hdispatch] at ht
  simp at ht

end ZwayServer
