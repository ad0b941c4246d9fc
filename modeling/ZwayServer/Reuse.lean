import ZwayServer.Proc.TwoRuns
import ZwayServer.Presence
import ZwayServer.Registry
import ZwayServer.Storing

/-!
# A connection that is used again

After a logout the connection stays, and the next login on it may be to another account.  The
session of the new login is compared with one on a fresh connection: the same server, but
with a new session in the place of the old one.

* `Alike` — two states of the server that nobody can tell apart who talks to it, but for what
  the session had been sent before.
* `alike_exec` — every operation of a handler answers them alike and keeps them alike.
* `ServerState.reconnect` — the server with a fresh connection.
* `Clean` — what the session may have kept when the new login arrives.
* `reused_like_fresh` — if it has kept no more, then the login and everything after it is as on
  a fresh connection.
-/

namespace ZwayServer

open ClientSession

/-! ## States that are alike -/

/-- Two sessions that differ in what they have sent before, and in streams. -/
structure Twins (old old' : List Message) (x x' : Session) : Prop where
  status : x'.status = x.status
  accountId : x'.accountId = x.accountId
  contacts : x'.contacts.Equiv x.contacts
  notifies : x'.notifies = x.notifies
  posted : x'.posted = x.posted
  outbox : ∃ ms, x.outbox = old ++ ms ∧ x'.outbox = old' ++ ms

/-- The server without its sessions. -/
def ServerState.rest (σ : ServerState) : ServerState :=
  { σ with sessions := fun _ => {}, registry := ∅ }

/-- What is not of a session is the same in states with the same rest. -/
theorem eq_of_rest {α : Type} {σ σ' : ServerState} (h : σ'.rest = σ.rest) (field : ServerState → α)
    (hfield : ∀ τ, field τ.rest = field τ) : field σ' = field σ := by
  rw [← hfield, h, hfield]

/-- Two states that differ in the session `s` only. -/
structure SameBut (s : SessionId) (σ σ' : ServerState) : Prop where
  rest : σ'.rest = σ.rest
  others : ∀ t, t ≠ s → σ'.sessions t = σ.sessions t
  lists : ∀ k, σ'.getSessions k = σ.getSessions k

/-- Two states that differ in the session `s` only, and there not in what counts. -/
structure Alike (s : SessionId) (old old' : List Message) (σ σ' : ServerState) : Prop
    extends SameBut s σ σ' where
  twins : Twins old old' (σ.sessions s) (σ'.sessions s)

/-- A configuration that says no more than this. -/
def notifying (notifies : Bool) : UBJ.Object :=
  if notifies then [("notifyStatus", .int32 1)] else []

/-- What a handler makes of an answer: of a configuration, whether it notifies. -/
def observe : (o : Op) → o.Res → o.Res
  | .config _, config => notifying (UBJ.Object.get config "notifyStatus").toBool
  | _, r => r

/-- The operations that ask nothing about streams received or about all sessions at once. -/
def Op.Common : Op → Prop
  | .addReceiver .. | .findReceiver .. | .allSessions | .clearSessions => False
  | _ => True

section

variable {env : Env} {s : SessionId} {old old' : List Message} {σ σ' : ServerState}

/-- The session itself does not matter. -/
theorem SameBut.left (h : SameBut s σ σ') (f : Session → Session) :
    SameBut s (σ.modify s f) σ' where
  rest := h.rest
  others u hu := by
    rw [ServerState.sessions_modify, if_neg hu]
    exact h.others u hu
  lists := h.lists

/-- A change that leaves the session with twins. -/
theorem SameBut.modify (h : SameBut s σ σ') {f : Session → Session}
    (htwins : Twins old old' (f (σ.sessions s)) (f (σ'.sessions s))) :
    Alike s old old' (σ.modify s f) (σ'.modify s f) where
  rest := h.rest
  others u hu := by
    rw [ServerState.sessions_modify, ServerState.sessions_modify, if_neg hu, if_neg hu]
    exact h.others u hu
  lists := h.lists
  twins := by
    rw [ServerState.sessions_modify, ServerState.sessions_modify, if_pos rfl, if_pos rfl]
    exact htwins

namespace Alike

/-- A change of the same fields of a session. -/
theorem modify (h : Alike s old old' σ σ') (t : SessionId) (f : Session → Session)
    (hf : ∀ x x', Twins old old' x x' → Twins old old' (f x) (f x')) :
    Alike s old old' (σ.modify t f) (σ'.modify t f) where
  rest := h.rest
  others u hu := by
    rw [ServerState.sessions_modify, ServerState.sessions_modify]
    split
    · next hut =>
      subst hut
      rw [h.others u hu]
    · exact h.others u hu
  lists := h.lists
  twins := by
    rw [ServerState.sessions_modify, ServerState.sessions_modify]
    split
    · next hst =>
      subst hst
      exact hf _ _ h.twins
    · exact h.twins

/-- What a session reads of itself. -/
theorem field {α : Type} (h : Alike s old old' σ σ') (t : SessionId) (field : Session → α)
    (hf : ∀ x x', Twins old old' x x' → field x' = field x) :
    field (σ'.sessions t) = field (σ.sessions t) := by
  by_cases ht : t = s
  · subst ht
    exact hf _ _ h.twins
  · rw [h.others t ht]

theorem accountId (h : Alike s old old' σ σ') (t : SessionId) :
    (σ'.sessions t).accountId = (σ.sessions t).accountId :=
  h.field t Session.accountId fun _ _ hx => hx.accountId

theorem appendSession (h : Alike s old old' σ σ') (t : SessionId) :
    Alike s old old' (σ.appendSession t) (σ'.appendSession t) where
  rest := h.rest
  others := h.others
  lists k := by
    rw [ServerState.getSessions_appendSession, ServerState.getSessions_appendSession,
      h.accountId, h.lists]
  twins := h.twins

theorem removeSession (h : Alike s old old' σ σ') (t : SessionId) :
    Alike s old old' (σ.removeSession t) (σ'.removeSession t) where
  rest := by
    rw [ServerState.removeSession_eq, ServerState.removeSession_eq σ]
    exact h.rest
  others u hu := by
    rw [ServerState.sessions_removeSession, ServerState.sessions_removeSession]
    exact h.others u hu
  lists k := by
    rw [ServerState.getSessions_removeSession, ServerState.getSessions_removeSession,
      h.accountId, h.lists]
  twins := by
    rw [ServerState.sessions_removeSession, ServerState.sessions_removeSession]
    exact h.twins

end Alike

/-- The operations on the collections, on tasks, files, buffers and senders, and on the world
outside. -/
def Op.OfRest : Op → Prop
  | .status _ | .setStatus .. | .accountId _ | .setAccountId .. | .contacts _ | .clearContacts _
  | .putContact .. | .config _ | .setConfig .. | .respond .. | .requestPending ..
  | .postRequest .. | .takePosted .. | .addUbjSender .. | .addReceiver .. | .findReceiver ..
  | .addEngineSender .. | .appendSession _ | .removeSession _ | .getSessions _ | .allSessions
  | .clearSessions => False
  | _ => True

/-- They neither look at a session nor change one. -/
theorem exec_rest (env : Env) {o : Op} (ho : o.OfRest) (c : Choice) (σ : ServerState) :
    (exec env o c σ).1 = (exec env o c σ.rest).1 ∧
      (exec env o c σ).2.rest = (exec env o c σ.rest).2.rest ∧
      (exec env o c σ).2.sessions = σ.sessions ∧ (exec env o c σ).2.registry = σ.registry := by
  have hdb : ∀ {α : Type} (a : α) (τ τ' : ServerState), τ.rest = τ'.rest → τ.sessions = σ.sessions →
      τ.registry = σ.registry → (dbCall c σ a τ).1 = (dbCall c σ.rest a τ').1 ∧
        (dbCall c σ a τ).2.rest = (dbCall c σ.rest a τ').2.rest ∧
        (dbCall c σ a τ).2.sessions = σ.sessions ∧ (dbCall c σ a τ).2.registry = σ.registry := by
    intro α a τ τ' hrest hsessions hregistry
    unfold dbCall
    split
    · exact ⟨rfl, rfl, rfl, rfl⟩
    · exact ⟨rfl, hrest, hsessions, hregistry⟩
  cases o with
  | findAccount q =>
    rw [exec, exec]
    split
    · exact ⟨rfl, rfl, rfl, rfl⟩
    · exact hdb _ _ _ rfl rfl rfl
  | findAccounts q limit =>
    rw [exec, exec]
    split <;> exact ⟨rfl, rfl, rfl, rfl⟩
  | maxAccountId | insertAccount | setFcmToken | findRequest | inboxRequests | countRequests
  | insertRequest | removeRequest => exact hdb _ _ _ rfl rfl rfl
  | fopenAppend =>
    rw [exec, exec]
    split <;> exact ⟨rfl, rfl, rfl, rfl⟩
  | _ => first | exact ⟨rfl, rfl, rfl, rfl⟩ | exact ho.elim

/-- A change that an operation makes to a session is the same for twins. -/
theorem Twins.edit {o : Op} (ho : o.Common) {c : Choice} {t : SessionId} {f : Session → Session}
    (he : o.edit c = some (t, f)) {x x' : Session} (h : Twins old old' x x') :
    Twins old old' (f x) (f x') := by
  have houtbox : ∀ m : Message,
      ∃ ms, x.outbox ++ [m] = old ++ ms ∧ x'.outbox ++ [m] = old' ++ ms := by
    intro m
    obtain ⟨ms, hms, hms'⟩ := h.outbox
    refine ⟨ms ++ [m], ?_, ?_⟩
    · rw [hms, List.append_assoc]
    · rw [hms', List.append_assoc]
  cases o with
  | setStatus t st =>
    obtain ⟨-, rfl⟩ := Prod.mk.inj (Option.some.inj he)
    exact { h with status := rfl }
  | setAccountId t id =>
    obtain ⟨-, rfl⟩ := Prod.mk.inj (Option.some.inj he)
    exact { h with accountId := rfl }
  | clearContacts t =>
    obtain ⟨-, rfl⟩ := Prod.mk.inj (Option.some.inj he)
    exact { h with contacts := .rfl }
  | putContact t id v =>
    obtain ⟨-, rfl⟩ := Prod.mk.inj (Option.some.inj he)
    exact { h with contacts := h.contacts.insert id v }
  | setConfig t v =>
    obtain ⟨-, rfl⟩ := Prod.mk.inj (Option.some.inj he)
    exact { h with notifies := rfl }
  | respond t r =>
    obtain ⟨-, rfl⟩ := Prod.mk.inj (Option.some.inj he)
    exact { h with outbox := houtbox _ }
  | postRequest t p =>
    obtain ⟨-, rfl⟩ := Prod.mk.inj (Option.some.inj he)
    exact { h with outbox := houtbox _, posted := congrArg (· ++ [p]) h.posted }
  | takePosted t k =>
    obtain ⟨-, rfl⟩ := Prod.mk.inj (Option.some.inj he)
    exact { h with posted := congrArg (·.eraseIdx k) h.posted }
  | addUbjSender t head =>
    obtain ⟨-, rfl⟩ := Prod.mk.inj (Option.some.inj he)
    exact { h with outbox := houtbox _ }
  | addEngineSender t y =>
    rw [Op.edit] at he
    split at he
    · cases he
    · obtain ⟨-, rfl⟩ := Prod.mk.inj (Option.some.inj he)
      exact { h with }
  | addReceiver => exact ho.elim
  | _ => cases he

/-- An operation of that kind sees no difference. -/
theorem Alike.exec_rest (env : Env) (h : Alike s old old' σ σ') {o : Op} (ho : o.OfRest)
    (c : Choice) :
    (exec env o c σ').1 = (exec env o c σ).1 ∧
      Alike s old old' (exec env o c σ).2 (exec env o c σ').2 := by
  obtain ⟨hanswer, hrest, hsessions, hregistry⟩ := ZwayServer.exec_rest env ho c σ
  obtain ⟨hanswer', hrest', hsessions', hregistry'⟩ := ZwayServer.exec_rest env ho c σ'
  rw [h.rest] at hanswer' hrest'
  refine ⟨hanswer'.trans hanswer.symm, ⟨hrest'.trans hrest.symm, ?_, ?_⟩, ?_⟩
  · intro t ht
    rw [hsessions, hsessions']
    exact h.others t ht
  · intro k
    rw [ServerState.getSessions, hregistry', ServerState.getSessions, hregistry]
    exact h.lists k
  · rw [hsessions, hsessions']
    exact h.twins

/-- **One operation.**  It answers states that are alike in the same way, as far as anybody
makes use of it, and leaves them alike. -/
theorem alike_exec (env : Env) (h : Alike s old old' σ σ') {o : Op} (ho : o.Common) (c : Choice) :
    observe o (exec env o c σ').1 = observe o (exec env o c σ).1 ∧
      Alike s old old' (exec env o c σ).2 (exec env o c σ').2 := by
  have hedit : ∀ t f, o.edit c = some (t, f) →
      Alike s old old' (exec env o c σ).2 (exec env o c σ').2 := by
    intro t f he
    rw [exec_of_edit he, exec_of_edit he]
    exact h.modify t f fun _ _ hx => hx.edit ho he
  by_cases hrest : o.OfRest
  · obtain ⟨hanswer, halike⟩ := h.exec_rest env hrest c
    exact ⟨congrArg (observe o) hanswer, halike⟩
  cases o with
  | status t => exact ⟨h.field t Session.status fun _ _ hx => hx.status, h⟩
  | accountId t => exact ⟨h.accountId t, h⟩
  | contacts t =>
    exact ⟨h.field t (fun x => x.contacts.toList) fun _ _ hx => hx.contacts.toList_eq, h⟩
  | config t =>
    have hnotifies := h.field t Session.notifies fun _ _ hx => hx.notifies
    exact ⟨congrArg notifying hnotifies, h⟩
  | requestPending t type id =>
    refine ⟨?_, h⟩
    exact h.field t (fun x => x.posted.any fun p => p.type == type && p.id == id)
      fun _ _ hx => by rw [hx.posted]
  | getSessions id => exact ⟨h.lists id, h⟩
  | takePosted t k =>
    exact ⟨h.field t (fun x => x.posted[k]?) fun _ _ hx => by rw [hx.posted], hedit t _ rfl⟩
  | addEngineSender t y =>
    by_cases hf : c.fails = true
    · simp only [exec, if_pos hf, true_and]
      exact h
    · refine ⟨?_, hedit t _ (if_neg hf)⟩
      simp only [exec, if_neg hf]
  | appendSession t => exact ⟨rfl, h.appendSession t⟩
  | removeSession t => exact ⟨rfl, h.removeSession t⟩
  | setStatus t | setAccountId t | clearContacts t | putContact t | setConfig t | respond t
  | postRequest t | addUbjSender t => exact ⟨rfl, hedit t _ rfl⟩
  | addReceiver | findReceiver | allSessions | clearSessions => exact ho.elim
  | _ => exact absurd trivial hrest

end

/-! ## What the handlers make of a configuration -/

theorem get_notifying (b : Bool) : ((notifying b).get "notifyStatus").toBool = b := by
  cases b <;> rfl

/-- All answers but a configuration are used as they are. -/
theorem observe_of_ne {o : Op} (ho : ∀ t, o ≠ .config t) (r : o.Res) : observe o r = r := by
  cases o with
  | config t => exact absurd rfl (ho t)
  | _ => rfl

/-- The program makes no more of a configuration. -/
abbrev Prog.Discreet {α : Type} (p : Prog α) : Prop := Proc.Blind observe p

/-- Reading nothing but whether a configuration notifies. -/
theorem discreet_config {α : Type} (s : SessionId) {q : Bool → Prog α} (hq : ∀ b, (q b).Discreet) :
    Prog.Discreet (do
      let config ← config s
      q (config.get "notifyStatus").toBool) := by
  refine Proc.Blind.perform_bind ?_ fun _ => hq _
  intro config
  simp only [observe, get_notifying]

/-- A program that reads no configuration. -/
theorem discreet_of_plain {α : Type} {p : Prog α}
    (hp : Proc.Within (fun o : Op => ∀ t, o ≠ .config t) p) : p.Discreet :=
  Proc.Blind.of_within hp fun _ r ho => observe_of_ne ho r

theorem discreet_of_within {α : Type} {G : Op → Prop} {p : Prog α} (hp : Proc.Within G p)
    (hG : ∀ t, ¬ G (.config t)) : p.Discreet := by
  refine discreet_of_plain (hp.sub fun o ho => ?_)
  rintro t rfl
  exact hG t ho

theorem discreet_statusOfSessions (sessions : List SessionId) :
    (statusOfSessions sessions).Discreet := by
  induction sessions with
  | nil => exact trivial
  | cons s sessions ih =>
    refine discreet_config s
      (q := fun b => if b = true then return 1 else statusOfSessions sessions) ?_
    intro b
    cases b with
    | true => exact trivial
    | false => exact ih

theorem discreet_getContactStatus (id : UInt32) : (getContactStatus id).Discreet := by
  unfold getContactStatus
  refine Proc.Blind.perform_bind (fun _ => rfl) fun sessions => ?_
  exact discreet_statusOfSessions sessions

theorem discreet_contactStatusList (s : SessionId) : (contactStatusList s).Discreet := by
  unfold contactStatusList
  refine Proc.Blind.perform_bind (fun _ => rfl) fun contacts => Proc.Blind.mapM fun it _ => ?_
  exact (discreet_getContactStatus it.1).bind fun _ => trivial

section

variable (env : Env) (s : SessionId) (head : UBJ.Object)

theorem discreet_broadcastStatus (status : UInt32) (check : Bool) :
    (broadcastStatus env s status check).Discreet := by
  have hround : ∀ it, (broadcastTo env s status it).Discreet := by
    intro it
    refine discreet_of_plain ?_
    have hsend : ∀ (sessions : List SessionId) (obj : UBJ.Object),
        Proc.Within (fun o : Op => ∀ t, o ≠ .config t)
          (forM sessions fun session =>
            Proc.perform (Op.addUbjSender session obj) : Prog PUnit) := by
      intro sessions obj
      exact Proc.Safe.forM fun _ _ => ⟨by simp, fun _ _ => trivial⟩
    simp [broadcastTo, hsend]
  unfold broadcastStatus
  refine Proc.Blind.perform_bind ?_ fun config => ?_
  · intro config
    simp only [observe, get_notifying]
  split
  · exact trivial
  · refine Proc.Blind.perform_bind (fun _ => rfl) fun contacts => ?_
    exact Proc.Blind.forM fun it _ => hround it

theorem discreet_setConfig (newConfig : UBJ.Object) : (setConfig env s newConfig).Discreet := by
  have hfcm : ∀ id token, (DB.setFcmToken id token).Discreet := by
    intro id token
    exact discreet_of_plain (by simp)
  have hput : ∀ items : List UBJ.Value, Prog.Discreet
      (forM items fun it => putContact s (it.get "contactId").toInt it.toObject) := by
    intro items
    refine Proc.Blind.forM fun it _ => ?_
    exact Proc.Blind.perform_bind (fun _ => rfl) fun _ => trivial
  have hset : ∀ b : Bool, Prog.Discreet (do
      Proc.perform (Op.setConfig s newConfig)
      if (newConfig.get "notifyStatus").toBool ≠ b then
        broadcastStatus env s (if (newConfig.get "notifyStatus").toBool then 1 else 0) false
      return true) := by
    intro b
    refine Proc.Blind.perform_bind (fun _ => rfl) fun _ => ?_
    dsimp only
    split
    · exact (discreet_broadcastStatus env s _ _).bind fun _ => trivial
    · exact trivial
  have hrest : Prog.Discreet (do
      let curStatus := ((← config s).get "notifyStatus").toBool
      if newConfig.hasField "fcmToken" then
        let _ ← DB.setFcmToken (← accountId s) (newConfig.get "fcmToken").toStr
      Proc.perform (Op.setConfig s newConfig)
      if (newConfig.get "notifyStatus").toBool ≠ curStatus then
        broadcastStatus env s (if (newConfig.get "notifyStatus").toBool then 1 else 0) false
      return true) := by
    refine Proc.Blind.perform_bind ?_ fun config => ?_
    · intro config
      simp only [observe, get_notifying]
    dsimp only
    split
    · refine Proc.Blind.perform_bind (fun _ => rfl) fun x => ?_
      exact (hfcm _ _).bind fun _ => hset _
    · exact hset _
  unfold setConfig
  dsimp only
  split
  · refine Proc.Blind.perform_bind (fun _ => rfl) fun _ => ?_
    exact (hput _).bind fun _ => hrest
  · exact hrest

theorem discreet_processRequests : (processRequests env s).Discreet := by
  have hround : ∀ request, (processRequest env s request).Discreet := by
    intro request
    unfold processRequest
    refine Proc.Blind.perform_bind (fun _ => rfl) fun pending => ?_
    split
    · exact trivial
    have hpost : ∀ p, (postRequest s p).Discreet := by
      intro p
      exact Proc.Blind.perform_bind (fun _ => rfl) fun _ => trivial
    split
    · exact hpost _
    · exact hpost _
    · exact hpost _
    · exact hpost _
    · refine (discreet_getContactStatus _).bind fun status => ?_
      exact Proc.Blind.perform_bind (fun _ => rfl) fun _ => hpost _
    · exact trivial
  unfold processRequests
  refine Proc.Blind.perform_bind (fun _ => rfl) fun x => ?_
  have hget : (DB.getRequests s { dst := some x }).Discreet := by
    exact discreet_of_plain (by simp)
  refine hget.bind fun requests => ?_
  exact (Proc.Blind.forM fun request _ => hround request).bind fun _ => trivial

theorem discreet_afterLogin (x : UInt32) : (afterLogin env s head x).Discreet := by
  have hrest : Prog.Discreet (answerLogin env s head x) := by
    have hinbox : (DB.getInbox x).Discreet := by
      refine discreet_of_plain ?_
      simp [DB.getInbox, forall_answer]
    unfold answerLogin
    refine (discreet_contactStatusList s).bind fun status => hinbox.bind fun inbox => ?_
    refine Proc.Blind.perform_bind (fun _ => rfl) fun _ => ?_
    exact (discreet_processRequests env s).bind fun _ => trivial
  rw [afterLogin_eq]
  split
  · exact (discreet_setConfig env s _).bind fun _ => hrest
  · exact hrest

theorem discreet_processLogin : (processLogin env s head).Discreet := by
  have hfail : ∀ id code text, Prog.Discreet (do
      postRequestFailure s id code text
      return false) := by
    intro id code text
    exact Proc.Blind.perform_bind (fun _ => rfl) fun _ => trivial
  have hget : ∀ q, (DB.getAccount q).Discreet := by
    intro q
    exact discreet_of_plain (by simp)
  unfold processLogin
  refine Proc.Blind.perform_bind (fun _ => rfl) fun st => ?_
  dsimp only
  split
  · exact hfail _ _ _
  split
  · exact hfail _ _ _
  split
  · exact hfail _ _ _
  refine (hget _).bind fun account => ?_
  cases account with
  | none => exact hfail _ _ _
  | some account =>
    dsimp only
    split
    · exact Proc.Blind.perform_bind (fun _ => rfl) fun _ => trivial
    · exact hfail _ _ _
    · refine Proc.Blind.perform_bind (fun _ => rfl) fun _ => ?_
      refine Proc.Blind.perform_bind (fun _ => rfl) fun _ => ?_
      refine Proc.Blind.perform_bind (fun _ => rfl) fun _ => ?_
      refine Proc.Blind.perform_bind (fun _ => rfl) fun _ => ?_
      exact (discreet_afterLogin env s head _).bind fun _ => trivial

theorem discreet_processLogout : (processLogout env s head).Discreet := by
  have hfcm : ∀ id token, (DB.setFcmToken id token).Discreet := by
    intro id token
    exact discreet_of_plain (by simp)
  unfold processLogout
  refine Proc.Blind.perform_bind (fun _ => rfl) fun st => ?_
  split
  · exact Proc.Blind.perform_bind (fun _ => rfl) fun _ => trivial
  · refine Proc.Blind.perform_bind (fun _ => rfl) fun _ => ?_
    refine Proc.Blind.perform_bind (fun _ => rfl) fun x => ?_
    refine (hfcm _ _).bind fun _ => ?_
    refine Proc.Blind.perform_bind (fun _ => rfl) fun _ => ?_
    exact (discreet_broadcastStatus env s 0 true).bind fun _ => trivial

theorem discreet_processConfigRequest : (processConfigRequest env s head).Discreet := by
  unfold processConfigRequest
  refine Proc.Blind.perform_bind (fun _ => rfl) fun st => ?_
  dsimp only
  split
  · exact Proc.Blind.perform_bind (fun _ => rfl) fun _ => trivial
  split
  · refine (discreet_setConfig env s _).bind fun done => ?_
    split
    · exact Proc.Blind.perform_bind (fun _ => rfl) fun _ => trivial
    · exact Proc.Blind.perform_bind (fun _ => rfl) fun _ => trivial
  · exact Proc.Blind.perform_bind (fun _ => rfl) fun _ => trivial

theorem discreet_processContactStatusRequest : (processContactStatusRequest s head).Discreet := by
  unfold processContactStatusRequest
  refine Proc.Blind.perform_bind (fun _ => rfl) fun st => ?_
  split
  · exact Proc.Blind.perform_bind (fun _ => rfl) fun _ => trivial
  · refine (discreet_contactStatusList s).bind fun status => ?_
    exact Proc.Blind.perform_bind (fun _ => rfl) fun _ => trivial

theorem discreet_processAcceptContact : (processAcceptContact s head).Discreet := by
  unfold processAcceptContact
  refine Proc.Blind.perform_bind (fun _ => rfl) fun st => ?_
  dsimp only
  split
  · exact discreet_of_plain (by simp)
  refine Proc.Blind.bind (discreet_of_plain (by simp)) fun x => ?_
  refine Proc.Blind.bind (discreet_of_plain (by simp)) fun request => ?_
  cases request with
  | none => exact discreet_of_plain (by simp)
  | some request =>
    refine Proc.Blind.bind (discreet_of_plain (by simp)) fun x => ?_
    refine Proc.Blind.bind (discreet_of_plain (by simp)) fun account => ?_
    cases account with
    | none => exact discreet_of_plain (by simp)
    | some account =>
      dsimp only
      cases request.publicKey with
      | none => exact discreet_of_plain (by simp)
      | some contactKey =>
        cases publicKeyOf head with
        | none => exact discreet_of_plain (by simp)
        | some key =>
          refine Proc.Blind.bind (discreet_of_plain (by simp)) fun x => ?_
          refine Proc.Blind.bind (discreet_of_plain (by simp)) fun stored => ?_
          split
          · exact discreet_of_plain (by simp)
          · refine (discreet_getContactStatus _).bind fun n => discreet_of_plain (by simp)

theorem discreet_processIncomingRequest : (processIncomingRequest env s head).Discreet := by
  have hreturning : ∀ {t : RequestType} {p : Prog Bool}, t ≠ .contactStatus →
      Proc.Within (Op.OfReturning s t) p → p.Discreet :=
    fun ht hp => discreet_of_within hp fun _ ho => ht ho
  unfold processIncomingRequest
  split
  · exact hreturning (by decide) (within_processDispatchRequest s head)
  · have hcreate : Proc.Within (Op.OfCreateAccount s) (processCreateAccount env s head) := by
      simp [processCreateAccount]
    exact discreet_of_within hcreate fun _ ho => ho
  · exact discreet_processLogin env s head
  · exact discreet_processLogout env s head
  · exact discreet_processConfigRequest env s head
  · exact hreturning (by decide) (within_processAddContactRequest s head)
  · exact hreturning (by decide) (within_processCreateAddCode s head)
  · exact hreturning (by decide) (within_processFindContactRequest s head)
  · exact discreet_processAcceptContact s head
  · exact hreturning (by decide) (within_processRejectContact s head)
  · exact discreet_processContactStatusRequest s head
  · exact hreturning (by decide) (within_processPushRequest s head)
  · exact trivial

theorem discreet_processUserRequests (x : UInt32) :
    (Server.processUserRequests env x).Discreet := by
  have hnotify : (Server.notifyUser env x).Discreet := by
    refine discreet_of_plain ?_
    simp [Server.notifyUser, DB.getFcmToken, DB.numContactRequests, DB.numPushRequests,
      forall_answer, Option.forall]
  unfold Server.processUserRequests
  refine Proc.Blind.perform_bind (fun _ => rfl) fun sessions => ?_
  split
  · refine Proc.Blind.forM fun t _ => ?_
    exact (discreet_processRequests env t).bind fun _ => trivial
  · exact hnotify

end

/-! ## Steps and runs from states that are alike -/

/-- What clients say, and what the server then looks up for them. -/
def Event.Talk : Event → Prop
  | request .. | response .. | userRequests _ => True
  | _ => False

section

variable {env : Env} {s : SessionId} {old old' : List Message} {σ σ' : ServerState}

/-- Two worlds with states that are alike and the same choices to come. -/
structure WorldsAlike (s : SessionId) (old old' : List Message) (w w' : World) : Prop where
  server : Alike s old old' w.server w'.server
  tape : w'.tape = w.tape

/-- Two runs of such a program. -/
theorem WorldsAlike.run {α : Type} {p : Prog α} {w w' : World} (h : WorldsAlike s old old' w w')
    (hp : Proc.Within Op.Common p) (hd : p.Discreet) :
    WorldsAlike s old old' (Proc.run (step env) p w).2 (Proc.run (step env) p w').2 := by
  refine (hd.run hp (fun o w w' ho hw => ?_) h).2
  have hexec := alike_exec env hw.server ho (w.tape 0)
  unfold step
  dsimp only
  rw [hw.tape]
  exact ⟨hexec.1, hexec.2, rfl⟩

/-- A step happens in both or in neither. -/
theorem Alike.possible (h : Alike s old old' σ σ') {a : Act} (ha : a.event.Talk) :
    a.Possible σ' ↔ a.Possible σ := by
  have hterminated : σ'.terminated = σ.terminated :=
    eq_of_rest h.rest ServerState.terminated fun _ => rfl
  have htasks : σ'.tasks = σ.tasks := eq_of_rest h.rest ServerState.tasks fun _ => rfl
  have hstatus := fun t => h.field t Session.status fun _ _ hx => hx.status
  have hposted := fun t => h.field t Session.posted fun _ _ hx => hx.posted
  unfold Act.Possible
  rw [hterminated]
  cases he : a.event <;> rw [he] at ha <;>
    first
    | exact ha.elim
    | simp only [Event.Enabled, hstatus, hposted, htasks]

/-- The handlers ask for nothing else. -/
theorem within_common (env : Env) {e : Event} (he : e.Talk) (σ : ServerState) :
    Proc.Within Op.Common (e.handler env σ) := by
  refine (within_handler env e σ).sub fun o ho => ?_
  cases e with
  | request t head =>
    obtain ⟨type, -, ho⟩ := ho
    cases type <;> cases o <;> first | exact trivial | exact ho.elim | exact ho.elim id id
  | response t k head => cases o <;> first | exact trivial | exact ho.elim
  | userRequests k => cases o <;> first | exact trivial | exact ho.choose_spec.elim
  | _ => exact he.elim

theorem discreet_handler (env : Env) {e : Event} (he : e.Talk) (σ : ServerState) :
    (e.handler env σ).Discreet := by
  cases e with
  | request t head => exact (discreet_processIncomingRequest env t head).bind fun _ => trivial
  | response t k head =>
    exact discreet_of_within (within_handler env (.response t k head) σ) fun _ ho => ho
  | userRequests k => exact discreet_processUserRequests env _
  | _ => exact he.elim

/-- **One step.** -/
theorem Alike.next (h : Alike s old old' σ σ') {a : Act} (ha : a.event.Talk) :
    Alike s old old' (next env σ a) (next env σ' a) := by
  by_cases hp : a.Possible σ
  swap
  · rw [next_of_not_possible hp, next_of_not_possible fun hp' => hp ((h.possible ha).mp hp')]
    exact h
  rw [next_of_possible env hp, next_of_possible env ((h.possible ha).mpr hp)]
  have htasks : σ'.tasks = σ.tasks := eq_of_rest h.rest ServerState.tasks fun _ => rfl
  have hnote : Alike s old old' (a.event.note σ) (a.event.note σ') := by
    cases he : a.event with
    | userRequests k =>
      have hrest :
          (Event.note σ' (.userRequests k)).rest = (Event.note σ (.userRequests k)).rest := by
        have hold := h.rest
        simp only [ServerState.rest, Event.note, ServerState.mk.injEq] at hold ⊢
        simp [hold]
      exact { h with rest := hrest }
    | request | response => exact h
    | _ =>
      rw [he] at ha
      exact ha.elim
  have hhandler : a.event.handler env σ' = a.event.handler env σ := by
    cases he : a.event with
    | userRequests k => simp only [Event.handler, htasks]
    | request | response => rfl
    | _ =>
      rw [he] at ha
      exact ha.elim
  rw [hhandler]
  have hworlds : WorldsAlike s old old' (a.world σ) (a.world σ') := ⟨hnote, rfl⟩
  exact (hworlds.run (within_common env ha σ) (discreet_handler env ha σ)).server

/-- Where a run leads that does not start at the beginning, newest first. -/
def afterFrom (env : Env) (σ : ServerState) : List Act → ServerState
  | [] => σ
  | a :: tr => ZwayServer.next env (afterFrom env σ tr) a

/-- **A run.** -/
theorem Alike.afterFrom (env : Env) (h : Alike s old old' σ σ') {later : List Act}
    (hlater : ∀ a ∈ later, a.event.Talk) :
    Alike s old old' (afterFrom env σ later) (afterFrom env σ' later) := by
  induction later with
  | nil => exact h
  | cons a later ih =>
    refine (ih fun b hb => hlater b (List.mem_cons_of_mem a hb)).next ?_
    exact hlater a (List.mem_cons_self ..)

end

/-! ## The login -/

/-- The server with a fresh connection, which has finished its handshake, in the place of the
session `s`; `w` is its temporary id. -/
def ServerState.reconnect (σ : ServerState) (s : SessionId) (w : UInt32) : ServerState :=
  ((σ.removeSession s).modify s fun _ =>
    { started := true, handshaken := true, status := .connected, accountId := w }).appendSession s

/-- The login brings a list of contacts. -/
def BringsContacts (head : UBJ.Object) : Prop :=
  head.hasField "config" = true ∧ (head.get "config").toObject.hasField "contacts" = true

instance (head : UBJ.Object) : Decidable (BringsContacts head) := by
  unfold BringsContacts
  infer_instance

/-- None of the contacts that are to be told of a status is connected. -/
def AllDeaf (σ : ServerState) (contacts : Std.TreeMap UInt32 UBJ.Object) : Prop :=
  ∀ it ∈ contacts.toList, (it.2.get "notifyStatus").toBool = true → σ.getSessions it.1 = []

/-- The login brings a configuration, and when it is set nobody hears what it broadcasts. -/
def Unheard (σ : ServerState) (s : SessionId) (head : UBJ.Object) (id : UInt32) : Prop :=
  head.hasField "config" = true ∧
    AllDeaf (σ.login s id) ((σ.sessions s).contactsAfter (head.get "config").toObject)

instance (σ : ServerState) (contacts : Std.TreeMap UInt32 UBJ.Object) :
    Decidable (AllDeaf σ contacts) := by
  unfold AllDeaf
  infer_instance

instance (σ : ServerState) (s : SessionId) (head : UBJ.Object) (id : UInt32) :
    Decidable (Unheard σ s head id) := by
  unfold Unheard
  infer_instance

/-- What a session may have kept when the login to the account `id` arrives: no request that
waits for an answer, contacts only if the login replaces them, and a configuration that
notifies only if nobody hears of its end. -/
def Clean (σ : ServerState) (s : SessionId) (head : UBJ.Object) (id : UInt32) : Prop :=
  (σ.sessions s).posted = [] ∧
    ((σ.sessions s).contacts.isEmpty = true ∨ BringsContacts head) ∧
    ((σ.sessions s).notifies = false ∨ Unheard σ s head id)

instance (σ : ServerState) (s : SessionId) (head : UBJ.Object) (id : UInt32) :
    Decidable (Clean σ s head id) := by
  unfold Clean
  infer_instance

section

variable {env : Env} {s : SessionId} {head : UBJ.Object} {σ : ServerState}

theorem reconnect_rest (w : UInt32) : (σ.reconnect s w).rest = σ.rest := by
  unfold ServerState.reconnect
  rw [ServerState.removeSession_eq]
  rfl

theorem sessions_reconnect (w : UInt32) (t : SessionId) : (σ.reconnect s w).sessions t =
    if t = s then { started := true, handshaken := true, status := .connected, accountId := w }
    else σ.sessions t := by
  simp [ServerState.reconnect]

/-- The others of an account do not notice. -/
theorem others_reconnect (w k : UInt32) : (σ.reconnect s w).others s k = σ.others s k := by
  unfold ServerState.reconnect ServerState.others
  rw [ServerState.getSessions_appendSession, ServerState.getSessions_modify,
    ServerState.getSessions_removeSession]
  have hself : ∀ l : List SessionId, (l ++ [s]).filter (· ≠ s) = l.filter (· ≠ s) := by
    intro l
    simp
  have htwice : ∀ l : List SessionId,
      (l.filter (· ≠ s)).filter (· ≠ s) = l.filter (· ≠ s) := by
    intro l
    rw [List.filter_filter]
    simp
  split <;> split <;> simp only [hself, htwice]

theorem registryInv_reconnect (hσ : RegistryInv σ) (w : UInt32) :
    RegistryInv (σ.reconnect s w) := by
  have hout : ∀ k, s ∉ (σ.removeSession s).getSessions k := hσ.not_mem_removeSession s
  refine RegistryInv.appendSession ?_ hout ?_
  · refine (hσ.removeSession s).of_eq rfl (fun t k ht => ?_) fun t ht => ?_
    · have hts : t ≠ s := by
        rintro rfl
        exact hout k ht
      rw [ServerState.sessions_modify, if_neg hts]
    · rw [ServerState.sessions_modify]
      split
      · rfl
      · exact ht
  · rw [ServerState.sessions_modify, if_pos rfl]

/-- After the login, the new session is listed where the old one would be. -/
theorem getSessions_login_reconnect (hσ : RegistryInv σ) (w x k : UInt32) :
    ((σ.reconnect s w).login s x).getSessions k = (σ.login s x).getSessions k := by
  rw [hσ.getSessions_login, (registryInv_reconnect hσ w).getSessions_login, others_reconnect]

/-- The two connections after the login, but for what they have left. -/
theorem sameBut_login (hσ : RegistryInv σ) (w x : UInt32) :
    SameBut s (σ.login s x) ((σ.reconnect s w).login s x) where
  rest := by
    have hlogin : ∀ τ : ServerState, (τ.login s x).rest = τ.rest := by
      intro τ
      rw [ServerState.login_eq]
      rfl
    rw [hlogin, hlogin, reconnect_rest]
  others t ht := by
    rw [ServerState.sessions_login, ServerState.sessions_login, if_neg ht, if_neg ht,
      sessions_reconnect, if_neg ht]
  lists k := getSessions_login_reconnect hσ w x k

/-- A login that brings contacts first forgets the old ones. -/
theorem afterLogin_clears (env : Env) (s : SessionId) {head : UBJ.Object} (h : BringsContacts head)
    (x : UInt32) : ∃ k, afterLogin env s head x = .op (Op.clearContacts s) k := by
  unfold afterLogin setConfig
  dsimp only
  rw [if_pos h.1, if_pos h.2]
  exact ⟨_, rfl⟩

/-- From there on it does not matter what the contacts were, if the login brings its own. -/
theorem alike_afterLogin {σ' : ServerState} {old old' : List Message} (h : SameBut s σ σ')
    (htwins : Twins old old' { σ.sessions s with contacts := ∅ }
      { σ'.sessions s with contacts := ∅ })
    (hcontacts : (σ'.sessions s).contacts.Equiv (σ.sessions s).contacts ∨ BringsContacts head)
    (x : UInt32) (tape : Nat → Choice) :
    Alike s old old' (Proc.run (step env) (afterLogin env s head x) ⟨σ, tape, []⟩).2.server
      (Proc.run (step env) (afterLogin env s head x) ⟨σ', tape, []⟩).2.server := by
  have hwithin : Proc.Within Op.Common (afterLogin env s head x) := by
    refine (within_afterLogin env s head x).sub fun o ho => ?_
    cases o <;> first | exact trivial | exact ho.elim | exact ho.elim id id
  have hdiscreet := discreet_afterLogin env s head x
  rcases hcontacts with hequiv | hbrings
  · have halike : Alike s old old' σ σ' := { h with twins := { htwins with contacts := hequiv } }
    have hworlds : WorldsAlike s old old' ⟨σ, tape, []⟩ ⟨σ', tape, []⟩ := ⟨halike, rfl⟩
    exact (hworlds.run hwithin hdiscreet).server
  · obtain ⟨k, hk⟩ := afterLogin_clears env s hbrings x
    rw [hk] at hwithin hdiscreet ⊢
    rw [Proc.run_op, Proc.run_op]
    have hworlds : WorldsAlike s old old' (step env (Op.clearContacts s) ⟨σ, tape, []⟩).2
        (step env (Op.clearContacts s) ⟨σ', tape, []⟩).2 :=
      ⟨h.modify (f := fun x => { x with contacts := ∅ }) htwins, rfl⟩
    exact (hworlds.run (hwithin.2 _ trivial) (hdiscreet _).2).server

/-- A status that nobody hears. -/
theorem run_broadcastTo_unheard (env : Env) (s : SessionId) (status : UInt32)
    {items : List (UInt32 × UBJ.Object)} {w : World}
    (h : ∀ it ∈ items, (it.2.get "notifyStatus").toBool = true → w.server.getSessions it.1 = []) :
    (Proc.run (step env) (forM items (broadcastTo env s status)) w).2 = w := by
  induction items with
  | nil => rfl
  | cons it items ih =>
    have hfirst : (Proc.run (step env) (broadcastTo env s status it) w).2 = w := by
      have hsessions : step env (.getSessions it.1) w = (w.server.getSessions it.1, w) := rfl
      rw [broadcastTo, Proc.run_ite]
      split
      · next hnotify =>
        rw [Proc.run_bind, Proc.run_perform, hsessions, h it (List.mem_cons_self ..) hnotify]
        rfl
      · rfl
    rw [Proc.run_forM_cons, hfirst]
    exact ih fun it' hit => h it' (List.mem_cons_of_mem _ hit)

/-- `setConfig` of a configuration whose status nobody hears. -/
theorem run_setConfig_unheard (env : Env) (s : SessionId) (newConfig : UBJ.Object) (w : World)
    (h : AllDeaf w.server ((w.server.sessions s).contactsAfter newConfig)) :
    (Proc.run (step env) (setConfig env s newConfig) w).2 =
      (tokenWorld env s newConfig w).update (·.modify s fun x =>
        { x with contacts := x.contactsAfter newConfig, config := newConfig }) := by
  rw [run_setConfig]
  split
  · refine run_broadcastTo_unheard env s _ fun it hit hnotify => ?_
    rw [World.update_server, ServerState.getSessions_modify, ServerState.getSessions,
      (sessions_tokenWorld env s newConfig w).2]
    exact h it hit hnotify
  · rfl

/-- What the configuration was does not matter to a login whose status nobody hears. -/
theorem run_afterLogin_unheard (env : Env) {s : SessionId} {head : UBJ.Object} {w : World}
    (hconfig : head.hasField "config" = true)
    (h : AllDeaf w.server ((w.server.sessions s).contactsAfter (head.get "config").toObject))
    (v : UBJ.Object) (x : UInt32) :
    (Proc.run (step env) (afterLogin env s head x)
        (w.update (·.modify s fun x => { x with config := v }))).2 =
      (Proc.run (step env) (afterLogin env s head x) w).2 := by
  have hdeaf : AllDeaf (w.update (·.modify s fun x => { x with config := v })).server
      (((w.update (·.modify s fun x => { x with config := v })).server.sessions s).contactsAfter
        (head.get "config").toObject) := by
    rw [World.update_server, ServerState.sessions_modify, if_pos rfl]
    exact h
  have hset := run_setConfig_unheard env s (head.get "config").toObject _ hdeaf
  rw [tokenWorld_modify env s _ w (f := fun x => { x with config := v }) (fun _ => rfl)] at hset
  have hsame : (Proc.run (step env) (setConfig env s (head.get "config").toObject)
        (w.update (·.modify s fun x => { x with config := v }))).2 =
      (Proc.run (step env) (setConfig env s (head.get "config").toObject) w).2 := by
    rw [hset, run_setConfig_unheard env s _ w h]
    simp only [World.update, ServerState.modify_modify]
    rfl
  obtain ⟨q, hq⟩ : ∃ q : Prog Unit, afterLogin env s head x =
      (setConfig env s (head.get "config").toObject >>= fun _ => q) := by
    unfold afterLogin
    dsimp only
    rw [if_pos hconfig]
    exact ⟨_, rfl⟩
  rw [hq, Proc.run_bind, Proc.run_bind, hsame]

/-! ## The law -/

/-- The login on the connection makes it alike a fresh one. -/
theorem alike_next_login (hσ : RegistryInv σ) (w x : UInt32) (tape : Nat → Choice)
    (hpossible : (Act.mk (.request s head) tape).Possible σ)
    (ht : env.decode (head.get "requestType").toInt = some .login)
    (hlogin : loginInput env ⟨σ, tape, []⟩ s head = some x) (hclean : Clean σ s head x) :
    Alike s (σ.sessions s).outbox [] (next env σ ⟨.request s head, tape⟩)
      (next env (σ.reconnect s w) ⟨.request s head, tape⟩) := by
  have hfresh : ((σ.reconnect s w).sessions s).status = .connected := by
    rw [sessions_reconnect, if_pos rfl]
  have hpossible' : (Act.mk (.request s head) tape).Possible (σ.reconnect s w) := by
    have hterminated : (σ.reconnect s w).terminated = σ.terminated :=
      eq_of_rest (reconnect_rest w) ServerState.terminated fun _ => rfl
    refine ⟨hterminated.trans hpossible.1, ?_⟩
    show ((σ.reconnect s w).sessions s).status ≠ .disconnected
    rw [hfresh]
    decide
  have hlogin' : loginInput env ⟨σ.reconnect s w, tape, []⟩ s head = some x := by
    have haccounts : (σ.reconnect s w).accounts = σ.accounts :=
      eq_of_rest (reconnect_rest w) ServerState.accounts fun _ => rfl
    have hstatus : (σ.sessions s).status ≠ .loggedIn := by
      intro hst
      simp [loginInput, hst] at hlogin
    rw [← hlogin]
    simp [loginInput, World.account, haccounts, hfresh, hstatus]
  have hrun : ∀ τ : ServerState, (Act.mk (.request s head) tape).Possible τ →
      loginInput env ⟨τ, tape, []⟩ s head = some x → next env τ ⟨.request s head, tape⟩ =
        (Proc.run (step env) (afterLogin env s head x)
          ⟨τ.login s x, fun n => tape (n + 1), []⟩).2.server := by
    intro τ hp hl
    have hprocess := run_processLogin env ⟨τ, tape, []⟩ s head
    rw [hl] at hprocess
    dsimp only at hprocess
    rw [next_request_eq env hp, processIncomingRequest, ht]
    dsimp only
    rw [hprocess]
    rfl
  rw [hrun σ hpossible hlogin, hrun _ hpossible' hlogin']
  obtain ⟨hposted, hcontacts, hnotifies⟩ := hclean
  have hsame := sameBut_login (s := s) hσ w x
  have hself : (σ.login s x).sessions s =
      { σ.sessions s with status := .loggedIn, accountId := x } := by
    rw [ServerState.sessions_login, if_pos rfl]
  have hnew : ((σ.reconnect s w).login s x).sessions s =
      { started := true, handshaken := true, status := .loggedIn, accountId := x } := by
    rw [ServerState.sessions_login, if_pos rfl, sessions_reconnect, if_pos rfl]
  have hbrings : (((σ.reconnect s w).login s x).sessions s).contacts.Equiv
      ((σ.login s x).sessions s).contacts ∨ BringsContacts head := by
    rw [hself, hnew]
    exact hcontacts.imp_left fun he => (Std.TreeMap.equiv_empty_iff_isEmpty.mpr he).symm
  have htwins : ∀ v : UBJ.Object, (v.get "notifyStatus").toBool = false →
      Twins (σ.sessions s).outbox []
        { (σ.login s x).sessions s with config := v, contacts := ∅ }
        { ((σ.reconnect s w).login s x).sessions s with contacts := ∅ } := by
    intro v hv
    rw [hself, hnew]
    exact { status := rfl, accountId := rfl, contacts := .rfl, notifies := hv.symm
            posted := hposted.symm, outbox := ⟨[], (List.append_nil _).symm, rfl⟩ }
  rcases hnotifies with hnotifies | ⟨hconfig, hdeaf⟩
  · refine alike_afterLogin hsame ?_ hbrings x _
    have hquiet := htwins (σ.sessions s).config hnotifies
    rw [hself] at hquiet ⊢
    exact hquiet
  · -- nobody hears of the end of the old configuration, so it might as well not be there
    have hdeaf' : AllDeaf (σ.login s x)
        (((σ.login s x).sessions s).contactsAfter (head.get "config").toObject) := by
      rw [hself]
      exact hdeaf
    rw [← run_afterLogin_unheard env (w := ⟨σ.login s x, fun n => tape (n + 1), []⟩) hconfig
      hdeaf' [] x]
    refine alike_afterLogin (hsame.left fun y => { y with config := [] }) ?_ ?_ x _
    · rw [ServerState.sessions_modify, if_pos rfl]
      exact htwins [] rfl
    · rw [ServerState.sessions_modify, if_pos rfl]
      exact hbrings

end

theorem afterFrom_append_singleton (env : Env) (σ : ServerState) (later : List Act) (a : Act) :
    afterFrom env σ (later ++ [a]) = afterFrom env (next env σ a) later := by
  induction later with
  | nil => rfl
  | cons b later ih => rw [List.cons_append, afterFrom, ih, afterFrom]

/-- A process that has ended stays as it is. -/
theorem afterFrom_of_terminated (env : Env) {σ : ServerState} (h : σ.terminated = true)
    (acts : List Act) : afterFrom env σ acts = σ := by
  induction acts with
  | nil => rfl
  | cons a acts ih =>
    rw [afterFrom, ih]
    refine next_of_not_possible fun hp => ?_
    rw [hp.1] at h
    exact Bool.false_ne_true h

/-- **Law.**  A session that is no longer logged in and has kept nothing that counts: the login
to the account `b`, and what clients say after it, have the same effects as if the session were
on a fresh connection. -/
theorem reused_like_fresh (env : Env) (tr : List Act) (s : SessionId) (w b : UInt32)
    (head : UBJ.Object) (tape : Nat → Choice) (later : List Act)
    (hstatus : ((after env tr).sessions s).status = .connected)
    (ht : env.decode (head.get "requestType").toInt = some .login)
    (hlogin : loginInput env ⟨after env tr, tape, []⟩ s head = some b)
    (hlater : ∀ a ∈ later, a.event.Talk) (hclean : Clean (after env tr) s head b) :
    let σ := after env tr
    let fresh := σ.reconnect s w
    let run := later ++ [⟨.request s head, tape⟩]
    (∀ t, newMessages σ (afterFrom env σ run) t = newMessages fresh (afterFrom env fresh run) t) ∧
      (afterFrom env σ run).requests = (afterFrom env fresh run).requests ∧
      (afterFrom env σ run).accounts = (afterFrom env fresh run).accounts ∧
      (afterFrom env σ run).fcm = (afterFrom env fresh run).fcm := by
  intro σ fresh run
  have hrest : fresh.rest = σ.rest := reconnect_rest w
  have hfields : ∀ {τ τ' : ServerState}, τ'.rest = τ.rest →
      τ.requests = τ'.requests ∧ τ.accounts = τ'.accounts ∧ τ.fcm = τ'.fcm := by
    intro τ τ' h
    exact ⟨eq_of_rest h.symm ServerState.requests fun _ => rfl,
      eq_of_rest h.symm ServerState.accounts fun _ => rfl,
      eq_of_rest h.symm ServerState.fcm fun _ => rfl⟩
  by_cases hterminated : σ.terminated = true
  · have hterminated' : fresh.terminated = true :=
      (eq_of_rest hrest ServerState.terminated fun _ => rfl).trans hterminated
    rw [afterFrom_of_terminated env hterminated, afterFrom_of_terminated env hterminated']
    refine ⟨fun t => ?_, hfields hrest⟩
    simp [newMessages]
  have hpossible : (Act.mk (.request s head) tape).Possible σ := by
    refine ⟨Bool.eq_false_of_not_eq_true hterminated, ?_⟩
    show (σ.sessions s).status ≠ .disconnected
    rw [hstatus]
    decide
  have hnext := alike_next_login (registryInv_after env tr) w b tape hpossible ht hlogin hclean
  have halike := hnext.afterFrom env hlater
  rw [afterFrom_append_singleton, afterFrom_append_singleton]
  refine ⟨fun t => ?_, hfields halike.rest⟩
  by_cases hts : t = s
  · subst hts
    obtain ⟨ms, hms, hms'⟩ := halike.twins.outbox
    have hfresh : (fresh.sessions t).outbox = [] := by
      rw [sessions_reconnect, if_pos rfl]
    rw [newMessages_of_append ms hms, newMessages_of_append ms (hms'.trans (by rw [hfresh]))]
  · have hfresh : fresh.sessions t = σ.sessions t := by
      rw [sessions_reconnect, if_neg hts]
    rw [newMessages, newMessages, halike.others t hts, hfresh]

/-! ## What a former account leaves -/

/-- Two accounts; the first logs out again. -/
def reusedRun : List Act := sampleLogout 0 :: (sampleJoin 1 "b" 2 ++ sampleJoin 0 "a" 1)

/-- A second login on its connection, and a question. -/
def reusedLater : List Act := [sampleStep 0 (sampleRequest .contactStatus 5 []), sampleLogin 0 2]

theorem reused_like_fresh_sample :
    let σ := after sampleEnv reusedRun
    let fresh := σ.reconnect 0 1000
    (∀ t, newMessages σ (afterFrom sampleEnv σ reusedLater) t =
        newMessages fresh (afterFrom sampleEnv fresh reusedLater) t) ∧
      (afterFrom sampleEnv σ reusedLater).requests =
        (afterFrom sampleEnv fresh reusedLater).requests ∧
      (afterFrom sampleEnv σ reusedLater).accounts =
        (afterFrom sampleEnv fresh reusedLater).accounts ∧
      (afterFrom sampleEnv σ reusedLater).fcm = (afterFrom sampleEnv fresh reusedLater).fcm :=
  reused_like_fresh sampleEnv reusedRun 0 1000 2 (sampleRequest .login 2
    [("account", .int32 2), ("password", .buffer (List.replicate 32 0))]) (calm 0)
    [sampleStep 0 (sampleRequest .contactStatus 5 [])] (by decide +kernel) (by decide +kernel)
    (by decide +kernel) (by simp [sampleStep, Event.Talk]) (by decide +kernel)

/-- The configuration that the session 0 is given. -/
def sampleConfig (id : UInt32) (config : UBJ.Object) : Act :=
  sampleStep 0 (sampleRequest .config id [("config", .object config)])

/-- The account 2, as a contact that wants to be told. -/
def sampleContacts : String × UBJ.Value :=
  ("contacts", .array [.object [("contactId", .int32 2), ("notifyStatus", .int32 1)]])

/-- The first account has a contact when it logs out. -/
def contactsRun : List Act :=
  sampleLogout 0 :: sampleConfig 3 [sampleContacts] :: (sampleJoin 1 "b" 2 ++ sampleJoin 0 "a" 1)

/-- It has asked that its contacts be notified. -/
def notifyingRun : List Act :=
  sampleLogout 0 :: sampleConfig 3 [("notifyStatus", .int32 1)] ::
    (sampleJoin 1 "b" 2 ++ sampleJoin 0 "a" 1)

/-- It has not answered a push, which has gone to a third account too. -/
def unansweredRun : List Act :=
  sampleLogout 0 :: ⟨.userRequests 0, calm 0⟩ ::
    sampleStep 1 (sampleRequest .push 7 [("keys", .array
      [.object [("dst", .int32 1)], .object [("dst", .int32 3)]])]) ::
    (sampleJoin 2 "c" 3 ++ sampleJoin 1 "b" 2 ++ sampleJoin 0 "a" 1)

/-- The statuses that a message shows. -/
def Message.shown : Message → Nat
  | .response (.success _ data) => (UBJ.Object.get data "contactStatus").toArray.length
  | _ => 0

/-- What the session `t` is sent when the run goes on. -/
def sentFrom (σ : ServerState) (acts : List Act) (t : SessionId) : List Message :=
  newMessages σ (afterFrom sampleEnv σ acts) t

/-- The second account is shown the contacts of the first, is not handed a push that the first
has not answered, and does not notify its contacts, as the first already did. -/
theorem not_reused_like_fresh :
    (loginInput sampleEnv ⟨after sampleEnv contactsRun, calm 0, []⟩ 0 (sampleRequest .login 2
        [("account", .int32 2), ("password", .buffer (List.replicate 32 0))]) = some 2 ∧
      sentFrom (after sampleEnv contactsRun) [sampleLogin 0 2] 0 ≠
        sentFrom ((after sampleEnv contactsRun).reconnect 0 1000) [sampleLogin 0 2] 0) ∧
    sentFrom (after sampleEnv unansweredRun) [sampleLogin 0 3] 0 ≠
      sentFrom ((after sampleEnv unansweredRun).reconnect 0 1000) [sampleLogin 0 3] 0 ∧
    sentFrom (after sampleEnv notifyingRun)
        [sampleConfig 4 [("notifyStatus", .int32 1), sampleContacts], sampleLogin 0 2] 1 ≠
      sentFrom ((after sampleEnv notifyingRun).reconnect 0 1000)
        [sampleConfig 4 [("notifyStatus", .int32 1), sampleContacts], sampleLogin 0 2] 1 := by
  have hne : ∀ {ms ms' : List Message},
      ms.map Message.shown ≠ ms'.map Message.shown → ms ≠ ms' := by
    rintro ms _ h rfl
    exact h rfl
  refine ⟨⟨?_, hne ?_⟩, hne ?_, hne ?_⟩ <;> decide +kernel

end ZwayServer
