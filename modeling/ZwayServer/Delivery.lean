import ZwayServer.Authenticity

/-!
# Who is handed stored requests

Delivery looks a session up in the registry by an account id and asks no further.
That is right as long as nobody is registered under the id of an account without
being logged in to it.

* `DeliveryLaw` — only sessions logged in to an account are registered under it, and
  only they are handed its requests.
* `handed_next` — whoever is handed a request is live, and has its account's id.
* `deliveryLaw_of_keepsApart` — the law holds as long as temporary ids keep clear of
  the accounts and nobody logs out.
* `not_deliveryLaw_logout` — a session that has logged out is handed a push.
-/

namespace ZwayServer

open ClientSession

/-! ## The law -/

/-- The request `p` is handed to the session `s` on the way from `σ` to `σ'`. -/
def Handed (σ σ' : ServerState) (s : SessionId) (p : Posted) : Prop :=
  ∃ ps, (σ'.sessions s).posted = (σ.sessions s).posted ++ ps ∧ p ∈ ps

/-- The session is logged in to the account. -/
def LoggedInAs (σ : ServerState) (s : SessionId) (x : UInt32) : Prop :=
  (σ.sessions s).status = .loggedIn ∧ (σ.sessions s).accountId = x

instance (σ : ServerState) (s : SessionId) (x : UInt32) : Decidable (LoggedInAs σ s x) := by
  unfold LoggedInAs
  infer_instance

/-- Whoever is registered under an existing account is logged in to it, and nobody else is
ever handed a request for that account. -/
def DeliveryLaw (env : Env) (tr : List Act) : Prop :=
  (∀ x ∈ (after env tr).accountIds, ∀ s ∈ (after env tr).getSessions x,
    LoggedInAs (after env tr) s x ∧ authenticated env tr s = some x) ∧
  ∀ later a earlier, tr = later ++ a :: earlier → ∀ s p,
    Handed (after env earlier) (after env (a :: earlier)) s p →
    ∀ x ∈ (after env (a :: earlier)).accountIds, p.record.dst = some x →
      LoggedInAs (after env (a :: earlier)) s x ∧ authenticated env (a :: earlier) s = some x

/-! ## What is handed over -/

/-- A delivery hands over what it posts, and nothing else. -/
theorem Delivers.handed {F : SessionId → Posted → Prop} {σ σ₀ σ' : ServerState}
    (hd : Delivers F σ₀ σ') (hsame : ∀ t, (σ₀.sessions t).posted = (σ.sessions t).posted)
    {s : SessionId} {p : Posted} (h : Handed σ σ' s p) : F s p := by
  obtain ⟨ps, hps, hmem⟩ := h
  obtain ⟨ps', hps', hF⟩ := hd.posted s
  rw [hsame, hps] at hps'
  obtain rfl := List.append_cancel_left hps'
  exact hF p hmem

theorem not_handed_of_length {σ σ' : ServerState} {s : SessionId} {p : Posted}
    (hlen : (σ'.sessions s).posted.length ≤ (σ.sessions s).posted.length) : ¬ Handed σ σ' s p := by
  rintro ⟨ps, hps, hmem⟩
  have hps' := congrArg List.length hps
  rw [List.length_append] at hps'
  have hpos := List.length_pos_of_mem hmem
  omega

theorem Edits.posted {x : UInt32} {σ σ' : ServerState} (h : Edits x σ σ') (s : SessionId) :
    (σ'.sessions s).posted = (σ.sessions s).posted := by
  induction h with
  | refl => rfl
  | quiet _ hq ih => rw [hq.posted_eq, ih]
  | insert _ _ ih | remove _ _ ih | schedule _ _ ih => exact ih

/-- Whoever is handed a request is live, and the request is for the account id that the
session has. -/
theorem handed_next (env : Env) {σ : ServerState} (h : SessionInv σ) {a : Act}
    (hp : a.Possible σ) {s : SessionId} {p : Posted} (hh : Handed σ (next env σ a) s p) :
    p.record.dst = some ((next env σ a).sessions s).accountId ∧
      ((next env σ a).sessions s).Live := by
  by_cases hlife : a.event.IsLife
  · have hposted := (sameStore_next env hp hlife).posted s
    exact absurd hh (not_handed_of_length (by rw [hposted]))
  have hinv : SessionInv (next env σ a) := h.next hp
  obtain ⟨event, tape⟩ := a
  cases event with
  | connect | handshake | disconnect | removeSessions => exact absurd trivial hlife
  | request u head =>
    cases next_request env hp with
    | refused _ hq => exact (hq.handed (fun _ => rfl) hh).elim
    | edited _ _ he => exact absurd hh (not_handed_of_length (by rw [he.posted]))
    | loggedOut _ _ hq =>
      refine (hq.handed (fun t => ?_) hh).elim
      by_cases ht : t = u <;> simp [ServerState.setStatus, ht]
    | created account _ _ _ hq => exact (hq.handed (fun _ => rfl) hh).elim
    | loggedIn x _ _ hd =>
      obtain ⟨rfl, hmade⟩ := hd.handed (fun t => by by_cases ht : t = u <;> simp [ht]) hh
      have hst : ((next env σ ⟨.request s head, tape⟩).sessions s).status = .loggedIn := by
        rw [hd.status]
        simp
      refine ⟨?_, ((hinv s).listed _ ((hinv s).registered hst)).2⟩
      rw [hmade.dst, hd.accountId]
      simp
  | response u k head =>
    obtain ⟨q, hq, hresp⟩ := next_response env hp
    refine absurd hh (not_handed_of_length ?_)
    have htake : ((next env σ ⟨.response u k head, tape⟩).sessions s).posted =
        ((σ.takePosted u k).sessions s).posted := by
      split at hresp
      · rw [hresp.posted_eq, World.removeRequest]
        split <;> rfl
      · rw [hresp]
    rw [htake]
    by_cases hs : s = u
    · subst hs
      simpa [ServerState.takePosted] using List.length_eraseIdx_le _ _
    · simp [ServerState.takePosted, hs]
  | createReceiver u pkt => exact ((next_createReceiver env hp).handed (fun _ => rfl) hh).elim
  | receive u id body => exact ((next_receive env hp).handed (fun _ => rfl) hh).elim
  | received u id =>
    have hu := unmoved_next env hp fun hm => hm.elim
    have hrecv := next_received env hp
    split at hrecv
    · rw [hrecv] at hh
      exact absurd hh (not_handed_of_length (le_refl _))
    · obtain ⟨rfl, hmade⟩ := hrecv.handed (fun t => by rw [sessions_insertRequest]) hh
      rw [hu.accountId, hu.live]
      have hshaken := (h s).connected hp.2
      exact ⟨hmade.dst, (h s).shaken hshaken, fun _ => hp.2⟩
  | userRequests k =>
    have hu := unmoved_next env hp fun hm => hm.elim
    obtain ⟨hmem, hmade⟩ := (next_userRequests env hp).handed (fun _ => rfl) hh
    rw [hu.accountId, hu.live]
    exact ⟨hmade.dst, ((h s).listed _ hmem).2⟩
  | send k size offset => exact ((next_send env hp).handed (fun _ => rfl) hh).elim
  | timer completed => exact ((next_timer env hp).handed (fun _ => rfl) hh).elim

/-! ## When the law holds -/

/-- A session that is live and not logged in. -/
def Anonymous (σ : ServerState) (s : SessionId) : Prop :=
  (σ.sessions s).Live ∧ (σ.sessions s).status ≠ .loggedIn

/-- The step keeps temporary ids and accounts apart: the id drawn for a connection is not
that of an account, the id of a new account is not that of an anonymous session, and
nobody who is logged in logs out. -/
def Act.KeepsApart (env : Env) (tr : List Act) (a : Act) : Prop :=
  match a.event with
  | .connect _ => (a.tape 0).word ∉ (after env tr).accountIds
  | .request s head =>
    match env.decode (head.get "requestType").toInt with
    | some .createAccount =>
      ∀ account, createInput env (a.world (after env tr)) s head = some account →
        (a.tape 3).fails = false → ∀ t, Anonymous (after env tr) t →
          ((after env tr).sessions t).accountId ≠ account.id
    | some .logout => ((after env tr).sessions s).status ≠ .loggedIn
    | _ => True
  | _ => True

/-- No anonymous session has the id of an account. -/
def Apart (σ : ServerState) : Prop :=
  ∀ s, Anonymous σ s → (σ.sessions s).accountId ∉ σ.accountIds

/-- Anonymous sessions and accounts stay apart where neither changes. -/
theorem Apart.unmoved {σ σ' : ServerState} (h : Apart σ) (hu : Unmoved σ σ') : Apart σ' := by
  intro s hs
  rw [Anonymous, hu.live, hu.status] at hs
  rw [hu.accountId, hu.accountIds]
  exact h s hs

/-- An anonymous session was anonymous before, under the same id, unless it has just been
connected. -/
theorem anonymous_life {env : Env} {σ : ServerState} (h : SessionInv σ) {a : Act}
    (hp : a.Possible σ) (hlife : a.event.IsLife) {s : SessionId}
    (hs : Anonymous (next env σ a) s) :
    a.event = .connect s ∧ ((next env σ a).sessions s).accountId = (a.tape 0).word ∨
      Anonymous σ s ∧ ((next env σ a).sessions s).accountId = (σ.sessions s).accountId := by
  have hfresh : ∀ t, (σ.sessions t).started = true → (σ.sessions t).handshaken = false →
      Anonymous σ t := by
    intro t hstarted hshaken
    refine ⟨⟨hstarted, fun hsh => by rw [hshaken] at hsh; cases hsh⟩, fun hin => ?_⟩
    have hconnected := (h t).connected (by rw [hin]; exact Status.noConfusion)
    rw [hshaken] at hconnected
    cases hconnected
  obtain ⟨event, tape⟩ := a
  cases event with
  | connect t =>
    rw [next_connect env hp] at hs ⊢
    by_cases hst : s = t
    · subst hst
      exact Or.inl ⟨rfl, by simp [ServerState.connect]⟩
    · have hsess : (σ.connect t (tape 0).word).sessions s = σ.sessions s := by
        simp [ServerState.connect, hst]
      rw [Anonymous, hsess] at hs
      exact Or.inr ⟨hs, by rw [hsess]⟩
  | handshake t error =>
    refine Or.inr ?_
    rw [next_handshake env hp] at hs ⊢
    by_cases hst : s = t
    · subst hst
      refine ⟨hfresh s hp.2.1 hp.2.2, ?_⟩
      cases error <;> simp [ServerState.close, ServerState.setStatus]
    · cases error <;> simp_all [Anonymous, ServerState.close, ServerState.setStatus]
  | disconnect t =>
    refine Or.inr ?_
    rw [next_disconnect env hp] at hs ⊢
    by_cases hst : s = t
    · subst hst
      have hshaken := (h s).connected hp.2
      have hlive := hs.1.2
      simp [ServerState.close, ServerState.setStatus, hshaken] at hlive
    · simp_all [Anonymous, ServerState.close, ServerState.setStatus]
  | removeSessions =>
    refine Or.inr ?_
    rw [next_removeSessions env hp] at hs ⊢
    by_cases hlisted : s ∈ σ.listed
    · have hsess : σ.closeAll.sessions s = { σ.sessions s with status := .disconnected } := by
        simp only [ServerState.closeAll, if_pos hlisted]
      rw [Anonymous, hsess] at hs
      have hshaken : (σ.sessions s).handshaken = false := by
        by_contra hne
        exact hs.1.2 (by simpa using hne) rfl
      exact ⟨hfresh s hs.1.1 hshaken, by rw [hsess]⟩
    · have hsess : σ.closeAll.sessions s = σ.sessions s := by
        simp only [ServerState.closeAll, if_neg hlisted]
      rw [Anonymous, hsess] at hs
      exact ⟨hs, by rw [hsess]⟩
  | _ => exact hlife.elim

/-- A step that keeps them apart does. -/
theorem apart_next {env : Env} {tr : List Act} {a : Act} (hp : a.Possible (after env tr))
    (hkeep : a.KeepsApart env tr) (h : Apart (after env tr)) : Apart (after env (a :: tr)) := by
  rw [after_cons]
  by_cases hlife : a.event.IsLife
  · intro s hs
    have hids : (next env (after env tr) a).accountIds = (after env tr).accountIds := by
      rw [ServerState.accountIds, (sameStore_next env hp hlife).accounts, ServerState.accountIds]
    rw [hids]
    rcases anonymous_life (sessionInv_after env tr) hp hlife hs with ⟨he, hid⟩ | ⟨hold, hid⟩
    · rw [hid]
      rw [Act.KeepsApart, he] at hkeep
      exact hkeep
    · rw [hid]
      exact h s hold
  obtain ⟨event, tape⟩ := a
  cases event with
  | connect | handshake | disconnect | removeSessions => exact absurd trivial hlife
  | request s head =>
    cases next_request env hp with
    | refused _ hq => exact h.unmoved (.of_delivers hq)
    | edited _ _ he => exact h.unmoved (.of_edits he)
    | loggedOut hst ht _ =>
      simp only [Act.KeepsApart, ht] at hkeep
      exact absurd hst hkeep
    | created account ht ha hins hq =>
      simp only [Act.KeepsApart, ht] at hkeep
      have hnew : Apart ((after env tr).insertAccount account) := by
        intro t hanon hmem
        simp only [ServerState.accountIds, ServerState.insertAccount, List.map_append,
          List.map_cons, List.map_nil, List.mem_append, List.mem_singleton] at hmem
        rcases hmem with hmem | hmem
        · exact h t hanon hmem
        · exact hkeep account ha hins t hanon hmem
      exact hnew.unmoved (.of_delivers hq)
    | loggedIn x _ _ hd =>
      have hlogin : Apart ((after env tr).login s x) := by
        intro t hanon
        have hts : t ≠ s := by
          rintro rfl
          exact hanon.2 (by simp)
        have hsess : ((after env tr).login s x).sessions t = (after env tr).sessions t := by
          simp [hts]
        rw [Anonymous, hsess] at hanon
        rw [hsess, ServerState.login_eq]
        exact h t hanon
      exact hlogin.unmoved (.of_delivers hd)
  | _ => exact h.unmoved (unmoved_next env hp fun hm => hm.elim)

/-- Temporary ids and accounts stay apart in every run made of such steps. -/
theorem apart_after {env : Env} {tr : List Act}
    (h : EveryStep env (fun tr a => a.KeepsApart env tr) tr) : Apart (after env tr) := by
  refine invariant_everyStep (I := fun tr => Apart (after env tr)) ?_ ?_ ?_ h
  · intro s hs
    exact List.not_mem_nil
  · intro tr a hp hapart
    rw [after_cons, next_of_not_possible hp]
    exact hapart
  · exact fun tr a hp hkeep hapart => apart_next hp hkeep hapart

/-- Where they are apart, a live session with the id of an account is logged in to it. -/
theorem Apart.loggedInAs {σ : ServerState} (h : Apart σ) {s : SessionId} {x : UInt32}
    (hlive : (σ.sessions s).Live) (hid : (σ.sessions s).accountId = x) (hx : x ∈ σ.accountIds) :
    LoggedInAs σ s x := by
  refine ⟨?_, hid⟩
  by_contra hst
  exact h s ⟨hlive, hst⟩ (hid ▸ hx)

/-- **Delivery only to those who are logged in.**  In every run whose steps keep temporary
ids and accounts apart, whoever is registered under an account is logged in to it, and
nobody else is handed its requests. -/
theorem deliveryLaw_of_keepsApart (env : Env) (tr : List Act)
    (h : EveryStep env (fun tr a => a.KeepsApart env tr) tr) : DeliveryLaw env tr := by
  refine ⟨fun x hx s hs => ?_, ?_⟩
  · obtain ⟨hid, hlive⟩ := (sessionInv_after env tr s).listed x hs
    have hin := (apart_after h).loggedInAs hlive hid hx
    refine ⟨hin, ?_⟩
    rw [authenticated_of_loggedIn env tr hin.1, hin.2]
  · rintro later a earlier rfl s p hh x hx hdst
    have hpre := h.earlier
    by_cases hp : a.Possible (after env earlier)
    · obtain ⟨hid, hlive⟩ := handed_next env (sessionInv_after env earlier) hp hh
      rw [hdst] at hid
      have hin := (apart_after hpre).loggedInAs hlive (Option.some.inj hid).symm hx
      refine ⟨hin, ?_⟩
      rw [authenticated_of_loggedIn env (a :: earlier) hin.1, hin.2]
    · rw [after_cons, next_of_not_possible hp] at hh
      exact absurd hh (not_handed_of_length (le_refl _))

/-! ## Runs -/

/-- Most requests have no say in who is who. -/
theorem keepsApart_of_decode {env : Env} {tr : List Act} {s : SessionId} {head : UBJ.Object}
    {tape : Nat → Choice} {t : RequestType}
    (ht : env.decode (head.get "requestType").toInt = some t) (hcreate : t ≠ .createAccount)
    (hlogout : t ≠ .logout) : Act.KeepsApart env tr ⟨.request s head, tape⟩ := by
  simp only [Act.KeepsApart, ht]
  cases t <;> simp_all

/-- A client joins, and all is well. -/
theorem deliveryLaw_join :
    (0 ∈ (after sampleEnv (sampleJoin 0 "a" 1)).getSessions 1) ∧
      DeliveryLaw sampleEnv (sampleJoin 0 "a" 1) := by
  refine ⟨by decide +kernel, deliveryLaw_of_keepsApart sampleEnv _ ?_⟩
  refine ⟨fun _ => ?_, fun _ => ?_, fun _ => trivial, fun _ => ?_, trivial⟩
  · exact keepsApart_of_decode (t := .login) (by decide +kernel) (by decide) (by decide)
  · have ht : sampleEnv.decode
        ((sampleRequest .createAccount 1
          [("name", .string "a"), ("password", .buffer (List.replicate 32 0))]).get
            "requestType").toInt = some .createAccount := by decide +kernel
    simp only [sampleStep, Act.KeepsApart, ht]
    intro account ha _ t hanon
    obtain ⟨b, hmem, he⟩ := started_after sampleEnv _ hanon.1.1
    obtain rfl : t = 0 := by
      simp only [sampleConnect, List.mem_cons, List.not_mem_nil, or_false] at hmem
      rcases hmem with rfl | rfl
      · cases he
      · cases he
        rfl
    have hid : some account.id = some 1 :=
      (congrArg (Option.map Account.id) ha).symm.trans (by decide +kernel)
    rw [Option.some.inj hid]
    decide +kernel
  · show _ ∉ _
    decide +kernel

/-- A client logs out, and stays registered under its account. -/
def logoutRun : List Act := sampleStep 0 (sampleRequest .logout 3 []) :: sampleJoin 0 "a" 1

/-- Without the condition the law fails: the session that has logged out of the account 1 is
still the one that its requests are handed to. -/
theorem not_deliveryLaw_logout : ¬ DeliveryLaw sampleEnv logoutRun := fun h => by
  have hlaw := (h.1 1 (by decide +kernel) 0 (by decide +kernel)).1
  exact absurd hlaw (by decide +kernel)

end ZwayServer
