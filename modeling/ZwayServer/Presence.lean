import ZwayServer.Footprint
import ZwayServer.Registry

/-!
# Presence

A contact learns whether an account is present in two ways: it is told when a session
broadcasts its status, and it asks by `getContactStatus`.

* `ServerState.contactStatus` — the answer of `getContactStatus`.
* `broadcast` — the broadcast that a step makes, and `heard_next`, that these are the status
  messages that the step hands to anybody.
* `PresenceLaw` — what is broadcast is what one is told on asking, and no change of that goes
  without a broadcast.
* `presenceLaw_iff` — the steps that keep the law.
-/

namespace ZwayServer

open ClientSession

/-! ## Presence on asking -/

/-- Does the session want its contacts to know that it is there? -/
def Session.notifies (x : Session) : Bool := (x.config.get "notifyStatus").toBool

namespace ServerState

variable (σ : ServerState)

/-- Does a session of the account want its contacts to know? -/
def present (x : UInt32) : Bool := (σ.getSessions x).any fun t => (σ.sessions t).notifies

/-- What `getContactStatus` answers. -/
def contactStatus (x : UInt32) : UInt32 := if σ.present x then 1 else 0

/-- Does a session of the account other than `s` want its contacts to know? -/
def othersPresent (s : SessionId) (x : UInt32) : Bool :=
  (σ.others s x).any fun t => (σ.sessions t).notifies

/-- The status objects handed to a session. -/
def heard (t : SessionId) : List UBJ.Object :=
  (σ.sessions t).outbox.filterMap fun
    | .ubj head => some head
    | _ => none

theorem present_eq (s : SessionId) (x : UInt32) :
    σ.present x = (σ.othersPresent s x ||
      (decide (s ∈ σ.getSessions x) && (σ.sessions s).notifies)) := by
  rw [Bool.eq_iff_iff]
  simp only [present, othersPresent, others, List.any_eq_true, List.mem_filter, Bool.or_eq_true,
    Bool.and_eq_true, decide_eq_true_eq, ne_eq]
  constructor
  · rintro ⟨t, ht, hnotifies⟩
    by_cases hts : t = s
    · subst hts
      exact Or.inr ⟨ht, hnotifies⟩
    · exact Or.inl ⟨t, ⟨ht, hts⟩, hnotifies⟩
  · rintro (⟨t, ⟨ht, -⟩, hnotifies⟩ | ⟨hs, hnotifies⟩)
    · exact ⟨t, ht, hnotifies⟩
    · exact ⟨s, hs, hnotifies⟩

end ServerState

/-! ## Broadcasts -/

/-- A status that is broadcast: the account that it is about, the status, and the contacts of
the session that broadcasts it. -/
structure Broadcast where
  account : UInt32
  status : UInt32
  contacts : Std.TreeMap UInt32 UBJ.Object

/-- The contacts of a session after it has been given a configuration. -/
def Session.contactsAfter (x : Session) (newConfig : UBJ.Object) : Std.TreeMap UInt32 UBJ.Object :=
  if newConfig.hasField "contacts" then
    (newConfig.get "contacts").toArray.foldl
      (fun m it => m.insert (it.get "contactId").toInt it.toObject) ∅
  else x.contacts

/-- The broadcast of `setConfig`, for a session that has the account `id`. -/
def Session.configBroadcast (x : Session) (id : UInt32) (newConfig : UBJ.Object) :
    Option Broadcast :=
  if (newConfig.get "notifyStatus").toBool ≠ x.notifies then
    some { account := id, status := if (newConfig.get "notifyStatus").toBool then 1 else 0,
           contacts := x.contactsAfter newConfig }
  else none

/-- The broadcast that a step makes, if it makes one. -/
def broadcast (env : Env) (σ : ServerState) (a : Act) : Option Broadcast :=
  match a.event with
  | .request s head =>
    let x := σ.sessions s
    match env.decode (head.get "requestType").toInt with
    | some .login =>
      match loginInput env (a.world σ) s head with
      | some id =>
        if head.hasField "config" then x.configBroadcast id (head.get "config").toObject else none
      | none => none
    | some .logout =>
      if x.status = .loggedIn ∧ x.notifies = true then
        some { account := x.accountId, status := 0, contacts := x.contacts }
      else none
    | some .config =>
      if x.status = .loggedIn ∧ head.hasField "config" = true then
        x.configBroadcast x.accountId (head.get "config").toObject
      else none
    | _ => none
  | _ => none

/-- The object that tells the status of an account. -/
def statusObject (env : Env) (account status : UInt32) : UBJ.Object :=
  [("requestType", .int32 (env.code .contactStatus)),
    ("contactStatus", .array [.object [("contactId", .int32 account), ("status", .int32 status)]])]

/-- The sessions that it goes to: those of the contacts that want to be notified. -/
def Broadcast.hearers (b : Broadcast) (σ : ServerState) : List SessionId :=
  b.contacts.toList.flatMap fun it =>
    if (it.2.get "notifyStatus").toBool then σ.getSessions it.1 else []

/-- What a session hears of it. -/
def Broadcast.heardBy (env : Env) (b : Broadcast) (σ : ServerState) (t : SessionId) :
    List UBJ.Object :=
  List.replicate ((b.hearers σ).count t) (statusObject env b.account b.status)

/-! ## What has no part in presence -/

/-- The registry, the configurations and the status objects handed over are the same. -/
structure SamePresence (σ σ' : ServerState) : Prop where
  registry : σ'.registry = σ.registry
  config : ∀ t, (σ'.sessions t).config = (σ.sessions t).config
  heard : ∀ t, σ'.heard t = σ.heard t

namespace SamePresence

variable {σ σ' σ'' : ServerState}

theorem refl (σ : ServerState) : SamePresence σ σ := ⟨rfl, fun _ => rfl, fun _ => rfl⟩

theorem trans (h : SamePresence σ σ') (h' : SamePresence σ' σ'') : SamePresence σ σ'' where
  registry := h'.registry.trans h.registry
  config t := (h'.config t).trans (h.config t)
  heard t := (h'.heard t).trans (h.heard t)

theorem getSessions (h : SamePresence σ σ') (x : UInt32) : σ'.getSessions x = σ.getSessions x := by
  rw [ServerState.getSessions, h.registry, ServerState.getSessions]

theorem notifies (h : SamePresence σ σ') (t : SessionId) :
    (σ'.sessions t).notifies = (σ.sessions t).notifies := by
  rw [Session.notifies, h.config, Session.notifies]

theorem present (h : SamePresence σ σ') (x : UInt32) : σ'.present x = σ.present x := by
  simp only [ServerState.present, h.getSessions, h.notifies]

theorem contactStatus (h : SamePresence σ σ') (x : UInt32) :
    σ'.contactStatus x = σ.contactStatus x := by
  rw [ServerState.contactStatus, h.present, ServerState.contactStatus]

theorem modify (σ : ServerState) (s : SessionId) {f : Session → Session}
    (hconfig : ∀ x, (f x).config = x.config) (hheard : ∀ x, (f x).outbox = x.outbox) :
    SamePresence σ (σ.modify s f) := by
  refine ⟨rfl, fun t => ?_, fun t => ?_⟩
  · rw [ServerState.sessions_modify]
    split
    · next ht => rw [ht, hconfig]
    · rfl
  · rw [ServerState.heard, ServerState.sessions_modify]
    split
    · next ht => rw [hheard, ht, ServerState.heard]
    · rfl

/-- A message that is no status object is handed over. -/
theorem send (σ : ServerState) (s : SessionId) {m : Message} (hm : ∀ head, m ≠ .ubj head) :
    SamePresence σ (σ.send s m) := by
  refine ⟨rfl, fun t => ?_, fun t => ?_⟩
  · rw [ServerState.send, ServerState.sessions_modify]
    split
    · next ht => rw [ht]
    · rfl
  · rw [ServerState.heard, ServerState.send, ServerState.sessions_modify]
    split
    · next ht =>
      subst ht
      cases m with
      | ubj head => exact absurd rfl (hm head)
      | _ => simp [ServerState.heard]
    · rfl

end SamePresence

/-- The operations that have no part in presence. -/
@[simp] def Op.KeepsPresence : Op → Prop
  | .setConfig .. | .appendSession _ | .removeSession _ | .clearSessions | .addUbjSender .. => False
  | _ => True

theorem samePresence_exec (env : Env) {o : Op} (h : o.KeepsPresence) (c : Choice)
    (σ : ServerState) : SamePresence σ (exec env o c σ).2 := by
  by_cases hreads : o.Reads
  · rw [exec_of_reads env hreads]
    exact .refl σ
  cases o with
  | setConfig | appendSession | removeSession | clearSessions | addUbjSender => exact h.elim
  | insertAccount | setFcmToken | insertRequest | removeRequest =>
    exact dbCall_cases (P := SamePresence σ) (.refl σ) fun _ => ⟨rfl, fun _ => rfl, fun _ => rfl⟩
  | setStatus | setAccountId | clearContacts | putContact | takePosted =>
    dsimp only [exec]
    apply SamePresence.modify <;> exact fun _ => rfl
  | respond s r =>
    exact .send σ s fun _ => Message.noConfusion
  | postRequest s p =>
    dsimp only [exec]
    refine (SamePresence.send σ s (m := .request p.type p.id p.head) fun _ =>
      Message.noConfusion).trans ?_
    apply SamePresence.modify <;> exact fun _ => rfl
  | addReceiver | addEngineSender =>
    rw [exec]
    split
    · exact .refl σ
    · dsimp only
      apply SamePresence.modify <;> exact fun _ => rfl
  | fopenAppend =>
    rw [exec]
    split <;> exact ⟨rfl, fun _ => rfl, fun _ => rfl⟩
  | _ => first | exact ⟨rfl, fun _ => rfl, fun _ => rfl⟩ | exact absurd trivial hreads

/-- A program of such operations. -/
theorem samePresence_run (env : Env) {α : Type} {p : Prog α} (h : Proc.Within Op.KeepsPresence p)
    (w : World) : SamePresence w.server (Proc.run (step env) p w).2.server :=
  h.run (P := fun w' : World => SamePresence w.server w'.server)
    (fun _ w' ho hw => hw.trans (samePresence_exec env ho (w'.tape 0) w'.server)) (.refl _)

/-! ## What a broadcast hands over -/

/-- Nothing of presence has changed, but each session has been handed the object so many
times. -/
structure Hands (σ : ServerState) (object : UBJ.Object) (n : SessionId → Nat) (σ' : ServerState) :
    Prop where
  registry : σ'.registry = σ.registry
  config : ∀ t, (σ'.sessions t).config = (σ.sessions t).config
  accountId : ∀ t, (σ'.sessions t).accountId = (σ.sessions t).accountId
  heard : ∀ t, σ'.heard t = σ.heard t ++ List.replicate (n t) object

namespace Hands

variable {σ σ' σ'' : ServerState} {object : UBJ.Object} {n n' : SessionId → Nat}

theorem refl (σ : ServerState) (object : UBJ.Object) : Hands σ object (fun _ => 0) σ where
  registry := rfl
  config _ := rfl
  accountId _ := rfl
  heard _ := (List.append_nil _).symm

theorem trans (h : Hands σ object n σ') (h' : Hands σ' object n' σ'') :
    Hands σ object (fun t => n t + n' t) σ'' where
  registry := h'.registry.trans h.registry
  config t := (h'.config t).trans (h.config t)
  accountId t := (h'.accountId t).trans (h.accountId t)
  heard t := by rw [h'.heard, h.heard, List.append_assoc, List.replicate_append_replicate]

theorem send (σ : ServerState) (object : UBJ.Object) (s : SessionId) :
    Hands σ object (fun t => if s = t then 1 else 0) (σ.send s (.ubj object)) where
  registry := rfl
  config t := by
    rw [ServerState.send, ServerState.sessions_modify]
    split
    · next ht => rw [ht]
    · rfl
  accountId t := by
    rw [ServerState.send, ServerState.sessions_modify]
    split
    · next ht => rw [ht]
    · rfl
  heard t := by
    rw [ServerState.heard, ServerState.send, ServerState.sessions_modify]
    by_cases ht : t = s
    · subst ht
      simp [ServerState.heard]
    · simp [ht, Ne.symm ht, ServerState.heard]

theorem getSessions (h : Hands σ object n σ') (x : UInt32) :
    σ'.getSessions x = σ.getSessions x := by
  rw [ServerState.getSessions, h.registry, ServerState.getSessions]

end Hands

section

variable (env : Env) (s : SessionId)

/-- A status object is handed to one session after another. -/
theorem hands_forM_addUbjSender (sessions : List SessionId) (object : UBJ.Object) (w : World) :
    Hands w.server object (sessions.count ·) (Proc.run (step env)
      (forM sessions fun t => Proc.perform (Op.addUbjSender t object) : Prog PUnit)
      w).2.server := by
  induction sessions generalizing w with
  | nil => exact .refl _ _
  | cons t sessions ih =>
    rw [Proc.run_forM_cons, Proc.run_perform]
    have hrest := (Hands.send w.server object t).trans (ih (step env (.addUbjSender t object) w).2)
    have hcount : ((t :: sessions).count ·) =
        fun u => (if t = u then 1 else 0) + sessions.count u := by
      funext u
      rw [List.count_cons, Nat.add_comm]
      simp
    rw [hcount]
    exact hrest

/-- One contact is told, if it wants to be notified. -/
theorem hands_broadcastTo (status : UInt32) (it : UInt32 × UBJ.Object) (w : World) :
    Hands w.server (statusObject env (w.server.sessions s).accountId status)
      ((if (it.2.get "notifyStatus").toBool then w.server.getSessions it.1 else []).count ·)
      (Proc.run (step env) (broadcastTo env s status it) w).2.server := by
  have hsessions : step env (.getSessions it.1) w = (w.server.getSessions it.1, w) := rfl
  rw [broadcastTo, Proc.run_ite]
  split
  · rw [Proc.run_bind, Proc.run_perform, hsessions, Proc.run_ite]
    split
    · simp only [Proc.run_bind, Proc.run_perform, step_accountId, step_random]
      exact hands_forM_addUbjSender env (w.server.getSessions it.1) _ w.next
    · next hnil =>
      have hempty : w.server.getSessions it.1 = [] := not_not.mp hnil
      rw [hempty]
      exact .refl _ _
  · exact .refl _ _

/-- `broadcastStatus`, unless it is to check and the session does not want it. -/
theorem hands_forM_broadcastTo (status : UInt32) (items : List (UInt32 × UBJ.Object)) (w : World) :
    Hands w.server (statusObject env (w.server.sessions s).accountId status)
      ((items.flatMap fun it =>
        if (it.2.get "notifyStatus").toBool then w.server.getSessions it.1 else []).count ·)
      (Proc.run (step env) (forM items (broadcastTo env s status)) w).2.server := by
  induction items generalizing w with
  | nil => exact .refl _ _
  | cons it items ih =>
    rw [Proc.run_forM_cons]
    have hfirst := hands_broadcastTo env s status it w
    have hrest := ih (Proc.run (step env) (broadcastTo env s status it) w).2
    rw [hfirst.accountId] at hrest
    simp only [hfirst.getSessions] at hrest
    simp only [List.flatMap_cons, List.count_append]
    exact hfirst.trans hrest

theorem run_broadcastStatus (status : UInt32) (check : Bool) (w : World) :
    (Proc.run (step env) (broadcastStatus env s status check) w).2 =
      if check && !(w.server.sessions s).notifies then w
      else (Proc.run (step env)
        (forM (w.server.sessions s).contacts.toList (broadcastTo env s status)) w).2 := by
  have hcontacts : step env (.contacts s) w = ((w.server.sessions s).contacts.toList, w) := rfl
  have hconfig : step env (.config s) w = ((w.server.sessions s).config, w) := rfl
  rw [broadcastStatus, Proc.run_bind, Proc.run_perform, hconfig, Proc.run_ite]
  dsimp only
  rw [Proc.run_bind, Proc.run_perform, hcontacts, Session.notifies]
  split <;> rfl

/-- The session has been given a configuration, and the status has been broadcast if need be. -/
structure Configures (newConfig : UBJ.Object) (b : Option Broadcast) (σ σ' : ServerState) :
    Prop where
  registry : σ'.registry = σ.registry
  config : ∀ t, (σ'.sessions t).config = if t = s then newConfig else (σ.sessions t).config
  heard : ∀ t, σ'.heard t = σ.heard t ++ b.elim [] fun b => b.heardBy env σ t

variable {env s} in
theorem Configures.after {newConfig : UBJ.Object} {b : Option Broadcast} {σ σ' σ'' : ServerState}
    (h : Configures env s newConfig b σ' σ'') (hsame : SamePresence σ σ') :
    Configures env s newConfig b σ σ'' where
  registry := h.registry.trans hsame.registry
  config t := by rw [h.config, hsame.config]
  heard t := by
    rw [h.heard, hsame.heard]
    cases b with
    | none => rfl
    | some b => simp only [Option.elim_some, Broadcast.heardBy, Broadcast.hearers,
        hsame.getSessions]

variable {env s} in
theorem Configures.then {newConfig : UBJ.Object} {b : Option Broadcast} {σ σ' σ'' : ServerState}
    (h : Configures env s newConfig b σ σ') (hsame : SamePresence σ' σ'') :
    Configures env s newConfig b σ σ'' where
  registry := hsame.registry.trans h.registry
  config t := by rw [hsame.config, h.config]
  heard t := by rw [hsame.heard, h.heard]

/-- The broadcast after it. -/
theorem Configures.broadcast {newConfig : UBJ.Object} {σ : ServerState} {w : World}
    (h : Configures env s newConfig none σ w.server) (b : Broadcast)
    (haccount : (w.server.sessions s).accountId = b.account) :
    Configures env s newConfig (some b) σ
      (Proc.run (step env) (forM b.contacts.toList (broadcastTo env s b.status)) w).2.server := by
  have hhands := hands_forM_broadcastTo env s b.status b.contacts.toList w
  rw [haccount] at hhands
  refine ⟨hhands.registry.trans h.registry, fun t => ?_, fun t => ?_⟩
  · rw [hhands.config, h.config]
  · rw [hhands.heard, h.heard]
    simp only [Option.elim_none, List.append_nil, Option.elim_some, Broadcast.heardBy,
      Broadcast.hearers, ServerState.getSessions, h.registry]

/-- The contacts of a session are replaced one after another. -/
theorem run_forM_putContact (items : List UBJ.Value) (w : World) :
    (Proc.run (step env)
      (forM items fun it => putContact s (it.get "contactId").toInt it.toObject) w).2 =
      w.update fun σ => σ.modify s fun x => { x with
        contacts := items.foldl
          (fun m it => m.insert (it.get "contactId").toInt it.toObject) x.contacts } := by
  induction items generalizing w with
  | nil => simp [World.update, ServerState.modify]
  | cons it items ih =>
    have hput : step env (.putContact s (it.get "contactId").toInt it.toObject) w =
        ((), w.update fun σ => σ.modify s fun x => { x with
          contacts := x.contacts.insert (it.get "contactId").toInt it.toObject }) := rfl
    rw [Proc.run_forM_cons, Proc.run_perform, hput, ih]
    simp only [World.update, ServerState.modify_modify, List.foldl_cons]

/-- A token is a matter of the accounts only. -/
theorem run_setFcmToken (id : UInt32) (token : String) (w : World) :
    let σ' := (Proc.run (step env) (DB.setFcmToken id token) w).2.server
    σ'.sessions = w.server.sessions ∧ σ'.registry = w.server.registry := by
  cases hf : (w.tape 0).fails <;>
    simp [DB.setFcmToken, Proc.run_bind, step, exec, dbCall, hf]

/-- The token that a configuration may bring has been stored. -/
def tokenWorld (newConfig : UBJ.Object) (w : World) : World :=
  if newConfig.hasField "fcmToken" then
    (Proc.run (step env)
      (DB.setFcmToken (w.server.sessions s).accountId (newConfig.get "fcmToken").toStr) w).2
  else w

theorem sessions_tokenWorld (newConfig : UBJ.Object) (w : World) :
    (tokenWorld env s newConfig w).server.sessions = w.server.sessions ∧
      (tokenWorld env s newConfig w).server.registry = w.server.registry := by
  unfold tokenWorld
  split
  · exact run_setFcmToken env _ _ w
  · exact ⟨rfl, rfl⟩

theorem tokenWorld_modify (newConfig : UBJ.Object) (w : World) {f : Session → Session}
    (hf : ∀ x, (f x).accountId = x.accountId) :
    tokenWorld env s newConfig (w.update (·.modify s f)) =
      (tokenWorld env s newConfig w).update (·.modify s f) := by
  have haccount : ((w.update (·.modify s f)).server.sessions s).accountId =
      (w.server.sessions s).accountId := by
    rw [World.update_server, ServerState.sessions_modify, if_pos rfl, hf]
  unfold tokenWorld
  rw [haccount]
  split
  · cases hfails : (w.tape 0).fails <;>
      simp [DB.setFcmToken, Proc.run_bind, step, exec, dbCall, hfails, World.update,
        ServerState.modify]
  · rfl

/-- `setConfig`, once the contacts have been replaced. -/
theorem run_setConfig_rest (newConfig : UBJ.Object) (w : World) :
    let x := w.server.sessions s
    let w' := (tokenWorld env s newConfig w).update
      (·.modify s fun y => { y with config := newConfig })
    (Proc.run (step env) (do
      let newStatus := (newConfig.get "notifyStatus").toBool
      let curStatus := ((← config s).get "notifyStatus").toBool
      if newConfig.hasField "fcmToken" then
        let _ ← DB.setFcmToken (← accountId s) (newConfig.get "fcmToken").toStr
      Proc.perform (Op.setConfig s newConfig)
      if newStatus ≠ curStatus then
        broadcastStatus env s (if newStatus then 1 else 0) false
      return true : Prog Bool) w).2 =
      if (newConfig.get "notifyStatus").toBool ≠ x.notifies then
        (Proc.run (step env) (forM x.contacts.toList
          (broadcastTo env s (if (newConfig.get "notifyStatus").toBool then 1 else 0))) w').2
      else w' := by
  intro x w'
  have hconfig : step env (.config s) w = (x.config, w) := rfl
  have hset : step env (.setConfig s newConfig) (tokenWorld env s newConfig w) = ((), w') := rfl
  have hcontacts : (w'.server.sessions s).contacts = x.contacts := by
    simp [w', (sessions_tokenWorld env s newConfig w).1, x]
  have hgiven : (Proc.run (step env) (do
      Proc.perform (Op.setConfig s newConfig)
      if (newConfig.get "notifyStatus").toBool ≠ (x.config.get "notifyStatus").toBool then
        broadcastStatus env s (if (newConfig.get "notifyStatus").toBool then 1 else 0) false
      return true : Prog Bool) (tokenWorld env s newConfig w)).2 =
        if (newConfig.get "notifyStatus").toBool ≠ x.notifies then
          (Proc.run (step env) (forM x.contacts.toList
            (broadcastTo env s (if (newConfig.get "notifyStatus").toBool then 1 else 0))) w').2
        else w' := by
    rw [Proc.run_bind, Proc.run_perform, hset, Proc.run_ite, Session.notifies]
    split
    · rw [Proc.run_bind, Proc.run_pure, run_broadcastStatus, hcontacts]
      simp only [Bool.false_and, Bool.false_eq_true, if_false]
    · rfl
  rw [← hgiven, Proc.run_bind, Proc.run_perform, hconfig, tokenWorld]
  dsimp only
  rw [Proc.run_ite]
  split
  · rw [Proc.run_bind, Proc.run_bind]
    rfl
  · rfl

/-- `setConfig`: the contacts, the token and the configuration, and then the broadcast. -/
theorem run_setConfig (newConfig : UBJ.Object) (w : World) :
    let x := w.server.sessions s
    let w' := (tokenWorld env s newConfig w).update (·.modify s fun y =>
      { y with contacts := y.contactsAfter newConfig, config := newConfig })
    (Proc.run (step env) (setConfig env s newConfig) w).2 =
      if (newConfig.get "notifyStatus").toBool ≠ x.notifies then
        (Proc.run (step env) (forM (x.contactsAfter newConfig).toList
          (broadcastTo env s (if (newConfig.get "notifyStatus").toBool then 1 else 0))) w').2
      else w' := by
  intro x w'
  rw [setConfig, Proc.run_ite]
  by_cases hcontacts : newConfig.hasField "contacts" = true
  · have hclear : step env (.clearContacts s) w =
        ((), w.update (·.modify s fun y => { y with contacts := ∅ })) := rfl
    have hafter : ∀ y : Session, y.contactsAfter newConfig =
        (newConfig.get "contacts").toArray.foldl
          (fun m it => m.insert (it.get "contactId").toInt it.toObject) ∅ := fun y => by
      rw [Session.contactsAfter, if_pos hcontacts]
    rw [if_pos hcontacts, Proc.run_bind, Proc.run_perform, hclear, Proc.run_bind,
      run_forM_putContact]
    refine (run_setConfig_rest env s newConfig _).trans ?_
    rw [tokenWorld_modify, tokenWorld_modify]
    · simp only [World.update, ServerState.modify_modify, ServerState.sessions_modify, if_true,
        Session.notifies, hafter, w', x]
    · exact fun _ => rfl
    · exact fun _ => rfl
  · have hafter : ∀ y : Session, y.contactsAfter newConfig = y.contacts := fun y => by
      rw [Session.contactsAfter, if_neg hcontacts]
    rw [if_neg hcontacts]
    simp only [w', hafter]
    exact run_setConfig_rest env s newConfig w

/-- So it configures the session. -/
theorem configures_setConfig (newConfig : UBJ.Object) (w : World) :
    let x := w.server.sessions s
    Configures env s newConfig (x.configBroadcast x.accountId newConfig) w.server
      (Proc.run (step env) (setConfig env s newConfig) w).2.server := by
  intro x
  obtain ⟨hsessions, hregistry⟩ := sessions_tokenWorld env s newConfig w
  have hgiven : Configures env s newConfig none w.server
      ((tokenWorld env s newConfig w).server.modify s fun y =>
        { y with contacts := y.contactsAfter newConfig, config := newConfig }) := by
    refine ⟨hregistry, fun t => ?_, fun t => ?_⟩
    · rw [ServerState.sessions_modify, hsessions]
      split <;> rfl
    · rw [ServerState.heard, ServerState.sessions_modify, hsessions]
      simp only [Option.elim_none, List.append_nil, ServerState.heard]
      split
      · next ht => rw [ht]
      · rfl
  rw [run_setConfig, Session.configBroadcast]
  by_cases hchange : (newConfig.get "notifyStatus").toBool ≠ x.notifies
  · rw [if_pos hchange, if_pos hchange]
    refine hgiven.broadcast env s (w := (tokenWorld env s newConfig w).update (·.modify s fun y =>
      { y with contacts := y.contactsAfter newConfig, config := newConfig })) ⟨_, _, _⟩ ?_
    simp [hsessions, x]
  · rw [if_neg hchange, if_neg hchange]
    exact hgiven

/-! ## What the handlers do -/

theorem Op.OfDelivery.keepsPresence {o : Op} (h : o.OfDelivery s) : o.KeepsPresence := by
  cases o <;> first | exact trivial | exact h.elim

/-- After a login, only the configuration has a part in presence. -/
theorem presence_afterLogin (head : UBJ.Object) (x : UInt32) (w : World) :
    let y := w.server.sessions s
    let σ' := (Proc.run (step env) (afterLogin env s head x) w).2.server
    if head.hasField "config" then
      Configures env s (head.get "config").toObject
        (y.configBroadcast y.accountId (head.get "config").toObject) w.server σ'
    else SamePresence w.server σ' := by
  have hlist : Proc.Within Op.KeepsPresence (contactStatusList s) :=
    within_contactStatusList (fun _ => trivial) (fun _ => trivial) (fun _ => trivial) s
  have hinbox : Proc.Within Op.KeepsPresence (DB.getInbox x) := by simp [DB.getInbox, forall_answer]
  have hrequests : Proc.Within Op.KeepsPresence (processRequests env s) :=
    (within_processRequests env s).sub fun _ => Op.OfDelivery.keepsPresence s
  have hrest : Proc.Within Op.KeepsPresence (answerLogin env s head x) := by
    rw [answerLogin]
    refine hlist.bind fun _ => hinbox.bind fun _ => ?_
    exact Proc.safe_bind.mpr ⟨trivial, fun _ _ => hrequests.bind fun _ => trivial⟩
  rw [afterLogin_eq]
  by_cases hconfig : head.hasField "config" = true
  · rw [if_pos hconfig, if_pos hconfig, Proc.run_bind]
    exact (configures_setConfig env s (head.get "config").toObject w).then
      (samePresence_run env hrest _)
  · rw [if_neg hconfig, if_neg hconfig]
    exact samePresence_run env hrest w

/-- A session that is turned down. -/
theorem Refused.samePresence {w : World} {out : Bool × World} (h : Refused s w out) :
    SamePresence w.server out.2.server := by
  obtain ⟨id, code, text, hs⟩ | hs := h.server
  · rw [hs]
    exact .send _ s fun _ => Message.noConfusion
  · rw [hs]
    exact ⟨rfl, fun _ => rfl, fun _ => rfl⟩

/-- `processLogin`. -/
theorem presence_processLogin (head : UBJ.Object) (w : World) :
    let σ' := (Proc.run (step env) (processLogin env s head) w).2.server
    match loginInput env w s head with
    | none => SamePresence w.server σ'
    | some x =>
      if head.hasField "config" then
        Configures env s (head.get "config").toObject
          ((w.server.sessions s).configBroadcast x (head.get "config").toObject)
          (w.server.login s x) σ'
      else SamePresence (w.server.login s x) σ' := by
  have hlogin := @run_processLogin env w s head
  cases hinput : loginInput env w s head with
  | none =>
    rw [hinput] at hlogin
    exact hlogin.samePresence
  | some x =>
    rw [hinput] at hlogin
    dsimp only at hlogin ⊢
    rw [hlogin]
    have hafter := presence_afterLogin env s head x (w.next.update (·.login s x))
    rw [World.update_server, World.next_server] at hafter
    have hbroadcast : ∀ c, ((w.server.login s x).sessions s).configBroadcast
        ((w.server.login s x).sessions s).accountId c =
          (w.server.sessions s).configBroadcast x c := by
      intro c
      rw [ServerState.sessions_login, if_pos rfl]
      rfl
    dsimp only at hafter
    rw [hbroadcast] at hafter
    exact hafter

/-- `processLogout`: the registry and the configuration stay as they are. -/
theorem presence_processLogout (head : UBJ.Object) (w : World) :
    let x := w.server.sessions s
    Configures env s x.config
      (if x.status = .loggedIn ∧ x.notifies = true then
        some { account := x.accountId, status := 0, contacts := x.contacts }
      else none)
      w.server (Proc.run (step env) (processLogout env s head) w).2.server := by
  intro x
  have hnothing : ∀ {σ' : ServerState}, SamePresence w.server σ' →
      Configures env s x.config none w.server σ' := by
    intro σ' h
    refine ⟨h.registry, fun t => ?_, fun t => ?_⟩
    · rw [h.config]
      split
      · next ht => rw [ht]
      · rfl
    · rw [h.heard, Option.elim_none, List.append_nil]
  by_cases hst : (w.server.sessions s).status = .loggedIn
  swap
  · rw [if_neg fun h => hst h.1]
    have hrun : (Proc.run (step env) (processLogout env s head) w).2 =
        w.respond s (.failure (head.get "requestId").toInt 0 "Operation not permitted") := by
      simp [processLogout, Proc.run_bind, hst]
    rw [hrun]
    exact hnothing (.send _ s fun _ => Message.noConfusion)
  simp only [processLogout, Proc.run_bind, Proc.run_perform, step_status, step_accountId,
    step_respond, step_setStatus, hst, Status.lt_loggedIn, ne_eq, not_true_eq_false, if_false,
    Proc.run_pure]
  obtain ⟨hsessions, hregistry⟩ := run_setFcmToken env
    ((w.respond s (.success (head.get "requestId").toInt [])).server.sessions s).accountId ""
    (w.respond s (.success (head.get "requestId").toInt []))
  generalize (Proc.run (step env) (DB.setFcmToken _ "") _).2 = w' at hsessions hregistry ⊢
  -- until the broadcast, nothing of presence changes, nor do the session's account and contacts
  have hbefore : SamePresence w.server (w'.update (·.setStatus s .connected)).server := by
    have hrespond : SamePresence w.server
        (w.respond s (.success (head.get "requestId").toInt [])).server :=
      .send _ s fun _ => Message.noConfusion
    have htoken : SamePresence
        (w.respond s (.success (head.get "requestId").toInt [])).server w'.server :=
      ⟨hregistry, fun t => by rw [hsessions],
        fun t => by rw [ServerState.heard, hsessions, ServerState.heard]⟩
    refine (hrespond.trans htoken).trans ?_
    rw [World.update_server, ServerState.setStatus]
    apply SamePresence.modify <;> exact fun _ => rfl
  have hsession :
      ((w'.update (·.setStatus s .connected)).server.sessions s).accountId = x.accountId ∧
      ((w'.update (·.setStatus s .connected)).server.sessions s).contacts = x.contacts := by
    simp [World.update, ServerState.setStatus, hsessions, World.respond, ServerState.send, x]
  rw [run_broadcastStatus, hbefore.notifies, Bool.true_and]
  by_cases hnotifies : x.notifies = true
  swap
  · rw [if_neg fun h => hnotifies h.2, if_pos (by simpa using hnotifies)]
    exact hnothing hbefore
  rw [if_pos ⟨hst, hnotifies⟩, if_neg (by simpa using hnotifies), hsession.2]
  exact (hnothing hbefore).broadcast env s ⟨_, _, _⟩ hsession.1

/-- `processConfigRequest`. -/
theorem presence_processConfigRequest (head : UBJ.Object) (w : World) :
    let x := w.server.sessions s
    let σ' := (Proc.run (step env) (processConfigRequest env s head) w).2.server
    if x.status = .loggedIn ∧ head.hasField "config" = true then
      Configures env s (head.get "config").toObject
        (x.configBroadcast x.accountId (head.get "config").toObject) w.server σ'
    else SamePresence w.server σ' := by
  by_cases hst : (w.server.sessions s).status = .loggedIn
  swap
  · have hrun : (Proc.run (step env) (processConfigRequest env s head) w).2 =
        w.respond s (.failure (head.get "requestId").toInt 0 "Operation not permitted") := by
      simp [processConfigRequest, Proc.run_bind, hst]
    rw [if_neg fun h => hst h.1, hrun]
    exact .send _ s fun _ => Message.noConfusion
  by_cases hconfig : head.hasField "config" = true
  swap
  · have hrun : (Proc.run (step env) (processConfigRequest env s head) w).2 =
        w.respond s (.success (head.get "requestId").toInt []) := by
      simp [processConfigRequest, Proc.run_bind, hst, hconfig]
    rw [if_neg fun h => hconfig h.2, hrun]
    exact .send _ s fun _ => Message.noConfusion
  rw [if_pos ⟨hst, hconfig⟩]
  have hset := configures_setConfig env s (head.get "config").toObject w
  simp only [processConfigRequest, Proc.run_bind, Proc.run_perform, step_status, hst,
    Status.lt_loggedIn, ne_eq, not_true_eq_false, if_false, hconfig, if_true, Proc.run_ite]
  split <;> exact hset.then (.send _ s fun _ => Message.noConfusion)

end

/-! ## Steps -/

theorem samePresence_note (σ : ServerState) (e : Event) : SamePresence σ (e.note σ) := by
  cases e with
  | connect s | handshake s =>
    dsimp only [Event.note]
    apply SamePresence.modify <;> exact fun _ => rfl
  | _ => exact ⟨rfl, fun _ => rfl, fun _ => rfl⟩

/-- A step made of operations that have no part in presence. -/
theorem samePresence_next {env : Env} {σ : ServerState} {a : Act} (hp : a.Possible σ)
    (h : ∀ o, a.event.Footprint env o → o.KeepsPresence) : SamePresence σ (next env σ a) :=
  footprint_next (P := SamePresence σ) hp (samePresence_note σ a.event)
    fun o c σ' ho hsame => hsame.trans (samePresence_exec env (h o ho) c σ')

/-- The events that have no part in presence. -/
def Event.Aside (env : Env) : Event → Prop
  | .connect _ | .handshake _ true | .disconnect _ | .removeSessions => False
  | .request _ head =>
    env.decode (head.get "requestType").toInt ≠ some .login ∧
      env.decode (head.get "requestType").toInt ≠ some .logout ∧
      env.decode (head.get "requestType").toInt ≠ some .config
  | _ => True

theorem Event.Aside.samePresence {env : Env} {σ : ServerState} {a : Act} (h : a.event.Aside env)
    (hp : a.Possible σ) : SamePresence σ (next env σ a) := by
  obtain ⟨event, tape⟩ := a
  cases event with
  | handshake s error =>
    cases error with
    | true => exact h.elim
    | false =>
      rw [next_handshake env hp, if_neg Bool.noConfusion, ServerState.setStatus,
        ServerState.modify_modify]
      apply SamePresence.modify <;> exact fun _ => rfl
  | request s head =>
    obtain ⟨hlogin, hlogout, hconfig⟩ := h
    refine samePresence_next hp ?_
    rintro o ⟨t, ht, ho⟩
    rw [ht] at hlogin hlogout hconfig
    cases t <;> first | exact absurd rfl hlogin | exact absurd rfl hlogout |
      exact absurd rfl hconfig | (cases o <;> first | exact trivial | exact ho.elim)
  | connect | disconnect | removeSessions => exact h.elim
  | _ =>
    refine samePresence_next hp fun o ho => ?_
    cases o <;> first | exact trivial | exact ho.elim | (obtain ⟨s, hs⟩ := ho; exact hs.elim)

/-- A session is listed under its own account only. -/
theorem RegistryInv.others_of_ne {σ : ServerState} (h : RegistryInv σ) {s : SessionId} {y : UInt32}
    (hne : (σ.sessions s).accountId ≠ y) : σ.others s y = σ.getSessions y := by
  refine List.filter_eq_self.mpr fun t ht => ?_
  have hts : t ≠ s := by
    rintro rfl
    exact hne (h.listed t y ht)
  simpa using hts

/-- Closing a session leaves the presence of the others. -/
theorem present_close {σ σ' : ServerState} (hinv : RegistryInv σ) (h : SamePresence σ σ')
    (haccount : ∀ t, (σ'.sessions t).accountId = (σ.sessions t).accountId) (s : SessionId)
    (y : UInt32) : (σ'.close s).present y = σ.othersPresent s y := by
  have hlist : (σ'.close s).getSessions y = σ.others s y := by
    rw [ServerState.close, ServerState.getSessions_removeSession, ServerState.setStatus,
      ServerState.sessions_modify, if_pos rfl, ServerState.getSessions_modify, h.getSessions]
    show (if (σ'.sessions s).accountId = y then _ else _) = _
    rw [haccount]
    split
    · rfl
    · next hne => exact (hinv.others_of_ne hne).symm
  have hnotifies : ∀ t, ((σ'.close s).sessions t).notifies = (σ.sessions t).notifies := by
    intro t
    rw [ServerState.close, ServerState.sessions_removeSession, ServerState.setStatus,
      ServerState.sessions_modify]
    split
    · next ht => rw [ht, ← h.notifies s, Session.notifies, Session.notifies]
    · exact h.notifies t
  simp only [ServerState.present, ServerState.othersPresent, hlist, hnotifies]

/-- A new session wants nothing yet. -/
theorem present_connect {σ : ServerState} {s : SessionId} (hfresh : (σ.sessions s).config = [])
    (id y : UInt32) : (σ.connect s id).present y = σ.present y := by
  have hnotifies : ∀ t, ((σ.connect s id).sessions t).notifies = (σ.sessions t).notifies := by
    intro t
    rw [ServerState.connect, ServerState.sessions_appendSession, ServerState.sessions_modify]
    split
    · next ht => rw [ht, Session.notifies, Session.notifies]
    · rfl
  have hself : (σ.sessions s).notifies = false := by
    rw [Session.notifies, hfresh]
    rfl
  simp only [ServerState.present, hnotifies]
  rw [ServerState.connect, ServerState.getSessions_appendSession]
  split
  · rw [List.any_append, List.any_cons, hself, ServerState.getSessions_modify]
    simp
  · rw [ServerState.getSessions_modify]

theorem present_closeAll (σ : ServerState) (y : UInt32) : σ.closeAll.present y = false := by
  have hlist : σ.closeAll.getSessions y = [] := by
    simp [ServerState.getSessions, ServerState.closeAll]
  rw [ServerState.present, hlist]
  rfl

/-- Once the session has been given a configuration, it is present if the configuration says
so. -/
theorem Configures.present {env : Env} {s : SessionId} {newConfig : UBJ.Object}
    {b : Option Broadcast} {σ σ' : ServerState} (h : Configures env s newConfig b σ σ')
    (y : UInt32) : σ'.present y = (σ.othersPresent s y ||
      (decide (s ∈ σ.getSessions y) && (newConfig.get "notifyStatus").toBool)) := by
  have hlist : ∀ y, σ'.getSessions y = σ.getSessions y := fun y => by
    rw [ServerState.getSessions, h.registry, ServerState.getSessions]
  have hself : (σ'.sessions s).notifies = (newConfig.get "notifyStatus").toBool := by
    rw [Session.notifies, h.config, if_pos rfl]
  have hothers : σ'.othersPresent s y = σ.othersPresent s y := by
    rw [Bool.eq_iff_iff]
    simp only [ServerState.othersPresent, ServerState.others, hlist, List.any_eq_true,
      List.mem_filter, decide_eq_true_eq]
    refine exists_congr fun t => and_congr_right fun ht => ?_
    rw [Session.notifies, h.config, if_neg ht.2, Session.notifies]
  rw [ServerState.present_eq σ' s y, hothers, hlist, hself]

/-- A login lists the session behind the others of its new account. -/
theorem RegistryInv.getSessions_login {σ : ServerState} (h : RegistryInv σ) (s : SessionId)
    (id y : UInt32) :
    (σ.login s id).getSessions y = σ.others s y ++ if id = y then [s] else [] := by
  rw [σ.getSessions_login]
  split
  · rfl
  · next hne => rw [h.others_of_ne hne]

/-- After a login the session counts for its new account only. -/
theorem present_login {σ : ServerState} (hinv : RegistryInv σ) (s : SessionId) (id y : UInt32) :
    (σ.login s id).othersPresent s y = σ.othersPresent s y ∧
      (s ∈ (σ.login s id).getSessions y ↔ id = y) := by
  have hlist := hinv.getSessions_login s id y
  have hnot : s ∉ σ.others s y := by simp [ServerState.others]
  constructor
  · have hothers : (σ.login s id).others s y = σ.others s y := by
      rw [ServerState.others, hlist, List.filter_append]
      have hself : (if id = y then [s] else []).filter (· ≠ s) = [] := by
        split <;> simp
      rw [hself, List.append_nil, ServerState.others, List.filter_filter]
      simp
    rw [Bool.eq_iff_iff]
    simp only [ServerState.othersPresent, hothers, List.any_eq_true]
    refine exists_congr fun t => and_congr_right fun ht => ?_
    have hts : t ≠ s := by
      rintro rfl
      exact hnot ht
    rw [ServerState.sessions_login, if_neg hts]
  · rw [hlist, List.mem_append]
    split
    · next he => simp [he]
    · next he => simp [he, hnot]

/-! ## The law -/

/-- What a step broadcasts is what `getContactStatus` answers after it, and what changes in that
answer is broadcast. -/
structure Agrees (env : Env) (σ : ServerState) (a : Act) : Prop where
  pushed : ∀ b, broadcast env σ a = some b → (next env σ a).contactStatus b.account = b.status
  told : ∀ x, (next env σ a).contactStatus x ≠ σ.contactStatus x →
    ∃ b, broadcast env σ a = some b ∧ b.account = x ∧ b.status = (next env σ a).contactStatus x

/-- In every step of the run, presence pushed and presence pulled agree. -/
def PresenceLaw (env : Env) (tr : List Act) : Prop :=
  ∀ later a earlier, tr = later ++ a :: earlier → a.Possible (after env earlier) →
    Agrees env (after env earlier) a

/-- The account `y` stays present without the session `s` if it was so with it. -/
def Leaves (σ : ServerState) (s : SessionId) (y : UInt32) : Prop :=
  s ∈ σ.getSessions y → (σ.sessions s).notifies = true → σ.othersPresent s y = true

/-- The steps that keep the law.  A session that is closed, or that logs in to another account,
leaves its account as present as it was; a session that logs in as present without a change of
its own setting joins one that is present; a session that asks for no more notifications was
the only one of its account to want them; and a session that logs out has not wanted them. -/
def Announced (env : Env) (σ : ServerState) (a : Act) : Prop :=
  match a.event with
  | .request s head =>
    let x := σ.sessions s
    let wanted := ((head.get "config").toObject.get "notifyStatus").toBool
    match env.decode (head.get "requestType").toInt with
    | some .login =>
      match loginInput env (a.world σ) s head with
      | some id =>
        (id ≠ x.accountId → Leaves σ s x.accountId) ∧
          if head.hasField "config" = true ∧ wanted ≠ x.notifies then
            wanted = false → σ.othersPresent s id = false
          else s ∉ σ.getSessions id → x.notifies = true → σ.othersPresent s id = true
      | none => True
    | some .logout => x.status = .loggedIn → x.notifies = false
    | some .config =>
      x.status = .loggedIn → head.hasField "config" = true → x.notifies = true →
        wanted = false → σ.othersPresent s x.accountId = false
    | _ => True
  | .handshake s true | .disconnect s => Leaves σ s (σ.sessions s).accountId
  | .removeSessions => ∀ y, σ.present y = false
  | _ => True

section

variable {env : Env} {σ : ServerState} {a : Act}

/-- The status that contacts are told is the same exactly if the presence is. -/
theorem contactStatus_eq_iff {σ σ' : ServerState} {x : UInt32} :
    σ'.contactStatus x = σ.contactStatus x ↔ σ'.present x = σ.present x := by
  rw [ServerState.contactStatus, ServerState.contactStatus]
  cases σ'.present x <;> cases σ.present x <;> decide

/-- Without a broadcast nothing may change. -/
theorem agrees_of_none (hb : broadcast env σ a = none) :
    Agrees env σ a ↔ ∀ x, (next env σ a).present x = σ.present x := by
  constructor
  · intro h x
    by_contra hne
    obtain ⟨b, hsome, -⟩ := h.told x fun he => hne (contactStatus_eq_iff.mp he)
    rw [hb] at hsome
    cases hsome
  · intro h
    refine ⟨fun b hsome => ?_, fun x hne => absurd (contactStatus_eq_iff.mpr (h x)) hne⟩
    rw [hb] at hsome
    cases hsome

/-- With one, its account must have that presence, and no other account may change. -/
theorem agrees_of_some {id : UInt32} {n : Bool} {contacts : Std.TreeMap UInt32 UBJ.Object}
    (hb : broadcast env σ a =
      some { account := id, status := if n then 1 else 0, contacts := contacts }) :
    Agrees env σ a ↔ (next env σ a).present id = n ∧
      ∀ x, x ≠ id → (next env σ a).present x = σ.present x := by
  have hstatus : (next env σ a).contactStatus id = (if n then 1 else 0) ↔
      (next env σ a).present id = n := by
    rw [ServerState.contactStatus]
    cases (next env σ a).present id <;> cases n <;> decide
  constructor
  · intro h
    refine ⟨hstatus.mp (h.pushed _ hb), fun x hx => ?_⟩
    by_contra hne
    obtain ⟨b, hsome, hid, -⟩ := h.told x fun he => hne (contactStatus_eq_iff.mp he)
    rw [hb] at hsome
    obtain rfl := Option.some.inj hsome
    exact hx hid.symm
  · rintro ⟨hpresent, hothers⟩
    refine ⟨fun b hsome => ?_, fun x hne => ?_⟩
    · rw [hb] at hsome
      obtain rfl := Option.some.inj hsome
      exact hstatus.mpr hpresent
    · refine ⟨_, hb, ?_, ?_⟩
      · by_contra hx
        exact hne (contactStatus_eq_iff.mpr (hothers x fun he => hx he.symm))
      · have hx : x = id := by
          by_contra hx
          exact hne (contactStatus_eq_iff.mpr (hothers x hx))
        rw [hx]
        exact (hstatus.mpr hpresent).symm

/-- The presence without a session is the presence with it exactly if the account is left. -/
theorem leaves_iff (σ : ServerState) (s : SessionId) (y : UInt32) :
    σ.othersPresent s y = σ.present y ↔ Leaves σ s y := by
  rw [σ.present_eq s y, Leaves]
  by_cases hmem : s ∈ σ.getSessions y
  · cases σ.othersPresent s y <;> cases (σ.sessions s).notifies <;> simp [hmem]
  · simp [hmem]

/-- A session is closed. -/
theorem agrees_close (hinv : RegistryInv σ) (hb : broadcast env σ a = none) {s : SessionId}
    (hnext : ∀ y, (next env σ a).present y = σ.othersPresent s y) :
    Agrees env σ a ↔ Leaves σ s (σ.sessions s).accountId := by
  rw [agrees_of_none hb]
  constructor
  · intro h
    rw [← leaves_iff, ← hnext, h]
  · intro h y
    rw [hnext, leaves_iff]
    intro hs
    obtain rfl := hinv.listed s y hs
    exact h hs

/-- A session of the account `id` is given a configuration, in a state in which it is listed
under this account. -/
theorem agrees_config (hinv : RegistryInv σ) {s : SessionId} {newConfig : UBJ.Object}
    (hlisted : s ∈ σ.getSessions (σ.sessions s).accountId)
    (hb : broadcast env σ a =
      (σ.sessions s).configBroadcast (σ.sessions s).accountId newConfig)
    (hnext : Configures env s newConfig (broadcast env σ a) σ (next env σ a)) :
    Agrees env σ a ↔ ((σ.sessions s).notifies = true →
      (newConfig.get "notifyStatus").toBool = false →
        σ.othersPresent s (σ.sessions s).accountId = false) := by
  have hother : ∀ y, y ≠ (σ.sessions s).accountId → (next env σ a).present y = σ.present y := by
    intro y hy
    have hmem : s ∉ σ.getSessions y := fun hs => hy (hinv.listed s y hs).symm
    rw [hnext.present, σ.present_eq s y]
    simp [hmem]
  by_cases hchange : (newConfig.get "notifyStatus").toBool ≠ (σ.sessions s).notifies
  · rw [Session.configBroadcast, if_pos hchange] at hb
    rw [agrees_of_some hb, hnext.present]
    simp only [hlisted, decide_true, Bool.true_and]
    constructor
    · rintro ⟨hpresent, -⟩ - hnot
      rw [hnot, Bool.or_false] at hpresent
      exact hpresent
    · intro h
      refine ⟨?_, hother⟩
      cases hnew : (newConfig.get "notifyStatus").toBool with
      | true => rw [Bool.or_true]
      | false =>
        have hold : (σ.sessions s).notifies = true := by
          rw [hnew] at hchange
          simpa using hchange.symm
        rw [Bool.or_false]
        exact h hold hnew
  · rw [Session.configBroadcast, if_neg hchange] at hb
    rw [agrees_of_none hb]
    have hsame := not_not.mp hchange
    constructor
    · rintro - hold hnew
      rw [hsame, hold] at hnew
      cases hnew
    · rintro - y
      rw [hnext.present, σ.present_eq s y, hsame]

/-- A session logs in to the account `id`, and wants notifications then if `wanted`. -/
theorem agrees_login (hinv : RegistryInv σ) {s : SessionId} {id : UInt32} {wanted : Bool}
    {contacts : Std.TreeMap UInt32 UBJ.Object}
    (hb : broadcast env σ a =
      if wanted ≠ (σ.sessions s).notifies then
        some { account := id, status := if wanted then 1 else 0, contacts := contacts }
      else none)
    (hnext : ∀ y, (next env σ a).present y = (σ.othersPresent s y || (decide (id = y) && wanted))) :
    Agrees env σ a ↔
      (id ≠ (σ.sessions s).accountId → Leaves σ s (σ.sessions s).accountId) ∧
        if wanted ≠ (σ.sessions s).notifies then wanted = false → σ.othersPresent s id = false
        else s ∉ σ.getSessions id → (σ.sessions s).notifies = true →
          σ.othersPresent s id = true := by
  have hleft : (∀ y, y ≠ id → (next env σ a).present y = σ.present y) ↔
      (id ≠ (σ.sessions s).accountId → Leaves σ s (σ.sessions s).accountId) := by
    have hother : ∀ y, y ≠ id → (next env σ a).present y = σ.othersPresent s y := by
      intro y hy
      rw [hnext y, decide_eq_false (Ne.symm hy), Bool.false_and, Bool.or_false]
    constructor
    · intro h hne
      rw [← leaves_iff, ← hother _ (Ne.symm hne), h _ (Ne.symm hne)]
    · intro h y hy
      rw [hother y hy, leaves_iff]
      intro hs
      obtain rfl := hinv.listed s y hs
      exact h (Ne.symm hy) hs
  have hself : (next env σ a).present id = (σ.othersPresent s id || wanted) := by
    rw [hnext id, decide_eq_true rfl, Bool.true_and]
  by_cases hchange : wanted ≠ (σ.sessions s).notifies
  · rw [if_pos hchange] at hb
    rw [if_pos hchange, agrees_of_some hb, hleft, hself, and_comm]
    refine and_congr_right fun _ => ?_
    cases wanted <;> simp
  · rw [if_neg hchange] at hb
    rw [if_neg hchange, agrees_of_none hb, ← hleft]
    have hsame := not_not.mp hchange
    have hid : (next env σ a).present id = σ.present id ↔
        (s ∉ σ.getSessions id → (σ.sessions s).notifies = true → σ.othersPresent s id = true) := by
      rw [hself, σ.present_eq s id, hsame]
      by_cases hmem : s ∈ σ.getSessions id
      · simp [hmem]
      · cases σ.othersPresent s id <;> cases (σ.sessions s).notifies <;> simp [hmem]
    rw [← hid]
    constructor
    · intro h
      exact ⟨fun y _ => h y, h id⟩
    · rintro ⟨hothers, hself'⟩ y
      by_cases hy : y = id
      · rw [hy, hself']
      · exact hothers y hy

/-- A login pushes the presence of the account that it moves the session to. -/
theorem agrees_loginRequest (hinv : RegistryInv σ)
    {s : SessionId} {head : UBJ.Object} {tape : Nat → Choice}
    (hp : (Act.mk (.request s head) tape).Possible σ)
    (ht : env.decode (head.get "requestType").toInt = some .login) :
    Agrees env σ ⟨.request s head, tape⟩ ↔ Announced env σ ⟨.request s head, tape⟩ := by
  have hrun := next_request_eq env hp
  have hlogin := presence_processLogin env s head ⟨σ, tape, []⟩
  rw [processIncomingRequest, ht] at hrun
  dsimp only at hrun hlogin
  rw [← hrun] at hlogin
  cases hinput : loginInput env ⟨σ, tape, []⟩ s head with
  | none =>
    rw [hinput] at hlogin
    have hb : broadcast env σ ⟨.request s head, tape⟩ = none := by
      simp [broadcast, ht, Act.world, Event.note, hinput]
    refine iff_of_true ((agrees_of_none hb).mpr hlogin.present) ?_
    simp [Announced, ht, Act.world, Event.note, hinput]
  | some id =>
    rw [hinput] at hlogin
    dsimp only at hlogin
    by_cases hconfig : head.hasField "config" = true
    · have hb : broadcast env σ ⟨.request s head, tape⟩ =
          (σ.sessions s).configBroadcast id (head.get "config").toObject := by
        simp [broadcast, ht, Act.world, Event.note, hinput, hconfig]
      rw [if_pos hconfig] at hlogin
      rw [agrees_login hinv hb fun y => ?_]
      · simp [Announced, ht, Act.world, Event.note, hinput, hconfig]
      · have hmoved := present_login hinv s id y
        rw [hlogin.present, hmoved.1]
        simp only [hmoved.2]
    · have hb : broadcast env σ ⟨.request s head, tape⟩ =
          if (σ.sessions s).notifies ≠ (σ.sessions s).notifies then
            some { account := id, status := if (σ.sessions s).notifies then 1 else 0,
                   contacts := ∅ }
          else none := by
        simp [broadcast, ht, Act.world, Event.note, hinput, hconfig]
      rw [if_neg hconfig] at hlogin
      rw [agrees_login hinv hb fun y => ?_]
      · simp [Announced, ht, Act.world, Event.note, hinput, hconfig]
      · have hmoved := present_login hinv s id y
        have hkept : ((σ.login s id).sessions s).notifies = (σ.sessions s).notifies := by
          rw [ServerState.sessions_login, if_pos rfl, Session.notifies, Session.notifies]
        rw [hlogin.present, (σ.login s id).present_eq s y, hmoved.1, hkept]
        simp only [hmoved.2]

/-- A logout pushes the absence of the account, and the session goes on to count as present. -/
theorem agrees_logoutRequest (hsession : SessionInv σ)
    {s : SessionId} {head : UBJ.Object} {tape : Nat → Choice}
    (hp : (Act.mk (.request s head) tape).Possible σ)
    (ht : env.decode (head.get "requestType").toInt = some .logout) :
    Agrees env σ ⟨.request s head, tape⟩ ↔ Announced env σ ⟨.request s head, tape⟩ := by
  have hrun := next_request_eq env hp
  have hlogout := presence_processLogout env s head ⟨σ, tape, []⟩
  rw [processIncomingRequest, ht] at hrun
  dsimp only at hrun hlogout
  rw [← hrun] at hlogout
  have hsame : ∀ y, (next env σ ⟨.request s head, tape⟩).present y = σ.present y := by
    intro y
    rw [hlogout.present, σ.present_eq s y, Session.notifies]
  by_cases hpushed : (σ.sessions s).status = .loggedIn ∧ (σ.sessions s).notifies = true
  · have hb : broadcast env σ ⟨.request s head, tape⟩ =
        some { account := (σ.sessions s).accountId, status := if false then 1 else 0,
               contacts := (σ.sessions s).contacts } := by
      simp [broadcast, ht, hpushed]
    -- the session goes on to count as present
    refine iff_of_false (fun h => ?_) fun h => ?_
    · have habsent := ((agrees_of_some hb).mp h).1
      rw [hsame, σ.present_eq s, decide_eq_true ((hsession s).registered hpushed.1), hpushed.2,
        Bool.true_and, Bool.or_true] at habsent
      cases habsent
    · simp only [Announced, ht] at h
      have habsent := h hpushed.1
      rw [hpushed.2] at habsent
      cases habsent
  · have hb : broadcast env σ ⟨.request s head, tape⟩ = none := by
      simp only [broadcast, ht, if_neg hpushed]
    refine iff_of_true ((agrees_of_none hb).mpr hsame) ?_
    simp only [Announced, ht]
    exact fun hst => Bool.eq_false_iff.mpr fun hwants => hpushed ⟨hst, hwants⟩

/-- A configuration pushes whether the session wants its account to be seen. -/
theorem agrees_configRequest (hinv : RegistryInv σ) (hsession : SessionInv σ)
    {s : SessionId} {head : UBJ.Object} {tape : Nat → Choice}
    (hp : (Act.mk (.request s head) tape).Possible σ)
    (ht : env.decode (head.get "requestType").toInt = some .config) :
    Agrees env σ ⟨.request s head, tape⟩ ↔ Announced env σ ⟨.request s head, tape⟩ := by
  have hrun := next_request_eq env hp
  have hrequest := presence_processConfigRequest env s head ⟨σ, tape, []⟩
  rw [processIncomingRequest, ht] at hrun
  dsimp only at hrun hrequest
  rw [← hrun] at hrequest
  by_cases hset : (σ.sessions s).status = .loggedIn ∧ head.hasField "config" = true
  · have hb : broadcast env σ ⟨.request s head, tape⟩ =
        (σ.sessions s).configBroadcast (σ.sessions s).accountId
          (head.get "config").toObject := by
      simp [broadcast, ht, hset]
    rw [if_pos hset, ← hb] at hrequest
    rw [agrees_config hinv ((hsession s).registered hset.1) hb hrequest]
    simp [Announced, ht, hset]
  · have hb : broadcast env σ ⟨.request s head, tape⟩ = none := by
      simp only [broadcast, ht, if_neg hset]
    rw [if_neg hset] at hrequest
    refine iff_of_true ((agrees_of_none hb).mpr hrequest.present) ?_
    simp only [Announced, ht]
    exact fun hst hconfig => absurd ⟨hst, hconfig⟩ hset

/-- **One step.**  Presence pushed and presence pulled agree exactly in the steps described
above. -/
theorem agrees_iff (hinv : RegistryInv σ) (hsession : SessionInv σ)
    (hfresh : ∀ s, (σ.sessions s).started = false → (σ.sessions s).config = [])
    (hp : a.Possible σ) : Agrees env σ a ↔ Announced env σ a := by
  have haside : a.event.Aside env → broadcast env σ a = none → Announced env σ a →
      (Agrees env σ a ↔ Announced env σ a) := by
    intro h hb hannounced
    refine iff_of_true ((agrees_of_none hb).mpr fun x => ?_) hannounced
    exact (h.samePresence hp).present x
  obtain ⟨event, tape⟩ := a
  cases event with
  | connect s =>
    refine iff_of_true ((agrees_of_none rfl).mpr fun y => ?_) trivial
    rw [next_connect env hp]
    exact present_connect (hfresh s hp.2) (tape 0).word y
  | handshake s error =>
    cases error with
    | true =>
      refine agrees_close hinv rfl fun y => ?_
      rw [next_handshake env hp, if_pos rfl]
      refine present_close hinv ?_ (fun t => ?_) s y
      · apply SamePresence.modify <;> exact fun _ => rfl
      · rw [ServerState.sessions_modify]
        split
        · next ht => rw [ht]
        · rfl
    | false => exact haside trivial rfl trivial
  | request s head =>
    cases ht : env.decode (head.get "requestType").toInt with
    | none =>
      refine haside ?_ ?_ ?_
      · simp [Event.Aside, ht]
      · simp [broadcast, ht]
      · simp [Announced, ht]
    | some t =>
      cases t with
      | login => exact agrees_loginRequest hinv hp ht
      | logout => exact agrees_logoutRequest hsession hp ht
      | config => exact agrees_configRequest hinv hsession hp ht
      | _ =>
        refine haside ?_ ?_ ?_
        · simp [Event.Aside, ht]
        · simp [broadcast, ht]
        · simp [Announced, ht]
  | disconnect s =>
    refine agrees_close hinv rfl fun y => ?_
    rw [next_disconnect env hp]
    exact present_close hinv (.refl σ) (fun _ => rfl) s y
  | removeSessions =>
    rw [agrees_of_none rfl]
    simp only [next_removeSessions env hp, present_closeAll, Announced]
    exact forall_congr' fun y => eq_comm
  | response | createReceiver | receive | received | userRequests | send | timer =>
    exact haside trivial rfl trivial

end

/-! ## Runs -/

/-- Only one gives it a configuration. -/
theorem config_exec (env : Env) {o : Op} {s : SessionId} (h : ∀ v, o ≠ .setConfig s v) (c : Choice)
    (σ : ServerState) : ((exec env o c σ).2.sessions s).config = (σ.sessions s).config := by
  refine session_exec Session.config fun f he x => ?_
  cases o <;> simp only [Op.edit, reduceCtorEq] at he <;> grind

/-- A configuration comes with a request of the session itself. -/
theorem request_of_setConfig {env : Env} {e : Event} {s : SessionId} {v : UBJ.Object}
    (h : e.Footprint env (.setConfig s v)) : ∃ head, e = .request s head := by
  cases e with
  | request t head =>
    obtain ⟨ty, -, ho⟩ := h
    have hts : s = t := by
      cases ty <;> simp at ho
      all_goals exact ho
    exact ⟨head, by rw [hts]⟩
  | userRequests k => exact h.elim fun _ hs => hs.elim
  | _ => exact h.elim

/-- A session that has not been started has no configuration. -/
theorem config_of_not_started (env : Env) (tr : List Act) :
    ∀ s, ((after env tr).sessions s).started = false → ((after env tr).sessions s).config = [] := by
  induction tr with
  | nil => exact fun _ _ => rfl
  | cons a tr ih =>
    by_cases hp : a.Possible (after env tr)
    swap
    · rw [after_cons, next_of_not_possible hp]
      exact ih
    intro s hs
    rw [after_cons] at hs ⊢
    have hold : ((after env tr).sessions s).started = false := by
      by_contra hstarted
      have hkept : ((next env (after env tr) a).sessions s).started = true := by
        refine footprint_next (P := fun σ => (σ.sessions s).started = true) hp ?_ ?_
        · cases a.event with
          | connect t | handshake t =>
            rw [Event.note, ServerState.sessions_modify]
            split <;> simp_all
          | _ => exact Bool.of_not_eq_false hstarted
        · intro o c σ ho hσ
          rw [started_exec, hσ]
      rw [hs] at hkept
      cases hkept
    refine footprint_next (P := fun σ => (σ.sessions s).config = []) hp ?_ ?_
    · rw [(samePresence_note _ _).config]
      exact ih s hold
    · intro o c σ ho hσ
      rw [config_exec env _ c σ, hσ]
      rintro v rfl
      obtain ⟨head, hevent⟩ := request_of_setConfig ho
      have hstatus : ((after env tr).sessions s).status ≠ .disconnected := by
        have henabled := hp.2
        rw [hevent] at henabled
        exact henabled
      have hok := sessionInv_after env tr s
      rw [hok.shaken (hok.connected hstatus)] at hold
      cases hold

/-- What is heard of a broadcast depends on the registry only. -/
theorem Broadcast.heardBy_congr (env : Env) (b : Broadcast) {σ σ' : ServerState}
    (h : σ'.registry = σ.registry) (t : SessionId) : b.heardBy env σ' t = b.heardBy env σ t := by
  have hlist : ∀ x, σ'.getSessions x = σ.getSessions x := fun x => by
    rw [ServerState.getSessions, h, ServerState.getSessions]
  simp only [Broadcast.heardBy, Broadcast.hearers, hlist]

theorem Configures.heard_next {env : Env} {s : SessionId} {newConfig : UBJ.Object}
    {b : Option Broadcast} {σ σ' : ServerState} (h : Configures env s newConfig b σ σ')
    (t : SessionId) : σ'.heard t = σ.heard t ++ b.elim [] fun b => b.heardBy env σ' t := by
  rw [h.heard]
  cases b with
  | none => rfl
  | some b => rw [Option.elim_some, Option.elim_some, b.heardBy_congr env h.registry]

/-- Without a broadcast nothing may be heard. -/
theorem heard_of_none {env : Env} {σ : ServerState} {a : Act} {t : SessionId}
    (hb : broadcast env σ a = none) (hsame : (next env σ a).heard t = σ.heard t) :
    (next env σ a).heard t =
      σ.heard t ++ (broadcast env σ a).elim [] fun b => b.heardBy env (next env σ a) t := by
  rw [hsame, hb, Option.elim_none, List.append_nil]

theorem heard_congr {σ σ' : ServerState} {t : SessionId}
    (h : (σ'.sessions t).outbox = (σ.sessions t).outbox) : σ'.heard t = σ.heard t := by
  rw [ServerState.heard, h, ServerState.heard]

/-- What a request makes heard. -/
theorem heard_request (env : Env) {σ : ServerState} {s : SessionId} {head : UBJ.Object}
    {tape : Nat → Choice} (hp : (Act.mk (.request s head) tape).Possible σ) (t : SessionId) :
    (next env σ ⟨.request s head, tape⟩).heard t =
      σ.heard t ++ (broadcast env σ ⟨.request s head, tape⟩).elim [] fun b =>
        b.heardBy env (next env σ ⟨.request s head, tape⟩) t := by
  have hrun := next_request_eq env hp
  have hlogin := presence_processLogin env s head ⟨σ, tape, []⟩
  have hlogout := presence_processLogout env s head ⟨σ, tape, []⟩
  have hconfig := presence_processConfigRequest env s head ⟨σ, tape, []⟩
  rw [processIncomingRequest] at hrun
  cases ht : env.decode (head.get "requestType").toInt with
  | none =>
    rw [ht] at hrun
    refine heard_of_none (by simp [broadcast, ht]) ?_
    rw [hrun]
    rfl
  | some ty =>
    rw [ht] at hrun
    cases ty with
    | login =>
      dsimp only at hrun hlogin
      rw [← hrun] at hlogin
      cases hinput : loginInput env ⟨σ, tape, []⟩ s head with
      | none =>
        rw [hinput] at hlogin
        exact heard_of_none (by simp [broadcast, ht, Act.world, Event.note, hinput])
          (hlogin.heard t)
      | some id =>
        rw [hinput] at hlogin
        dsimp only at hlogin
        -- moving the session hands nothing to anybody
        have hmoved : (σ.login s id).heard t = σ.heard t := by
          refine heard_congr ?_
          rw [ServerState.sessions_login]
          split
          · next hts => rw [hts]
          · rfl
        rw [← hmoved]
        simp only [broadcast, ht, Act.world, Event.note, hinput]
        split at hlogin
        · next hgiven =>
          rw [if_pos hgiven]
          exact hlogin.heard_next t
        · next hgiven =>
          rw [if_neg hgiven, Option.elim_none, List.append_nil]
          exact hlogin.heard t
    | logout =>
      dsimp only at hrun hlogout
      rw [← hrun] at hlogout
      simp only [broadcast, ht]
      exact hlogout.heard_next t
    | config =>
      dsimp only at hrun hconfig
      rw [← hrun] at hconfig
      simp only [broadcast, ht]
      split at hconfig
      · next hset =>
        rw [if_pos hset]
        exact hconfig.heard_next t
      · next hset =>
        rw [if_neg hset, Option.elim_none, List.append_nil]
        exact hconfig.heard t
    | _ =>
      have haside : (Event.request s head).Aside env := by simp [Event.Aside, ht]
      exact heard_of_none (by simp [broadcast, ht]) ((haside.samePresence hp).heard t)

/-- **What is heard.**  The status objects that a step hands to a session are those of the
broadcast that it makes. -/
theorem heard_next (env : Env) {σ : ServerState} {a : Act} (hp : a.Possible σ) (t : SessionId) :
    (next env σ a).heard t =
      σ.heard t ++ (broadcast env σ a).elim [] fun b => b.heardBy env (next env σ a) t := by
  obtain ⟨event, tape⟩ := a
  cases event with
  | connect s =>
    refine heard_of_none rfl (heard_congr ?_)
    rw [next_connect env hp, ServerState.connect, ServerState.sessions_appendSession,
      ServerState.sessions_modify]
    split <;> simp_all
  | handshake s error =>
    refine heard_of_none rfl (heard_congr ?_)
    rw [next_handshake env hp]
    cases error <;>
      simp only [ServerState.close, ServerState.setStatus, ServerState.sessions_removeSession,
        ServerState.sessions_modify, if_true, Bool.false_eq_true, if_false] <;>
      split <;> simp_all
  | disconnect s =>
    refine heard_of_none rfl (heard_congr ?_)
    rw [next_disconnect env hp]
    simp only [ServerState.close, ServerState.setStatus, ServerState.sessions_removeSession,
      ServerState.sessions_modify]
    split <;> simp_all
  | removeSessions =>
    refine heard_of_none rfl (heard_congr ?_)
    rw [next_removeSessions env hp]
    simp only [ServerState.closeAll]
    split <;> rfl
  | request s head => exact heard_request env hp t
  | response | createReceiver | receive | received | userRequests | send | timer =>
    refine heard_of_none rfl ((Event.Aside.samePresence ?_ hp).heard t)
    exact trivial

/-- **Presence.**  In every run, presence pushed and presence pulled agree exactly if every step
of the run keeps the law. -/
theorem presenceLaw_iff (env : Env) (tr : List Act) :
    PresenceLaw env tr ↔
      EveryStep env (fun earlier a => Announced env (after env earlier) a) tr := by
  rw [everyStep_iff]
  refine forall_congr' fun later => forall_congr' fun a => forall_congr' fun earlier =>
    forall_congr' fun htr => forall_congr' fun hp => ?_
  exact agrees_iff (registryInv_after env earlier) (sessionInv_after env earlier)
    (config_of_not_started env earlier) hp

/-- An account joins and asks that its contacts be notified. -/
def presentRun : List Act :=
  sampleStep 0 (sampleRequest .config 3 [("config", .object [("notifyStatus", .int32 1)])]) ::
    sampleJoin 0 "a" 1

/-- It logs out. -/
def sampleLogout (s : SessionId) : Act := sampleStep s (sampleRequest .logout 4 [])

/-- The logout tells the contacts that the account is gone, who are told that it is there when
they ask. -/
theorem not_presenceLaw_logout : ¬ PresenceLaw sampleEnv (sampleLogout 0 :: presentRun) := by
  intro h
  have hagrees := h [] (sampleLogout 0) presentRun rfl (by decide +kernel)
  have hpushed : (broadcast sampleEnv (after sampleEnv presentRun) (sampleLogout 0)).any
      (fun b => b.account == 1 && b.status == 0) = true := by
    decide +kernel
  obtain ⟨b, hb, hgone⟩ := Option.any_eq_true _ _ |>.mp hpushed
  simp only [Bool.and_eq_true, beq_iff_eq] at hgone
  have hstatus := hagrees.pushed b hb
  rw [hgone.1, hgone.2] at hstatus
  exact absurd hstatus (by decide +kernel)

end ZwayServer
