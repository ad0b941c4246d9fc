import ZwayServer.Footprint

/-!
# What a handler owes

A handler that stores a request schedules a look at the addressee's sessions
afterwards; a login registers its session first and looks at the store afterwards.
These are facts about the programs alone, whatever they are told and whatever happens
between their operations.

* `Op.Inert` — the operations that matter to neither side.
* `Announces` — who stores a request for an account schedules the look.
* `Duty`, `honours_program` — that, and a registered session reads the store.
* `discipline`, `follows_program` — who registers a session, and when.
* `reaches_login` — no login succeeds without taking the account on.
-/

namespace ZwayServer

open ClientSession

/-! ## The operations that matter -/

/-- Who is registered where, and which sessions are connected, stay the same. -/
@[simp] def Op.Steady : Op → Prop
  | .setStatus .. | .setAccountId .. | .appendSession _ | .removeSession _ => False
  | _ => True

/-- Neither the registry nor the stored requests grow. -/
@[simp] def Op.Inert : Op → Prop
  | .setStatus .. | .setAccountId .. | .appendSession _ | .removeSession _ | .insertRequest _ =>
    False
  | _ => True

theorem Op.Inert.steady {o : Op} (h : o.Inert) : o.Steady := by
  cases o <;> first | exact trivial | exact h.elim

theorem Op.IsQuiet.inert {o : Op} (h : o.IsQuiet) : o.Inert := by
  cases o <;> first | exact trivial | exact h.elim

/-- The requests that are announced to the account `d`. -/
def Request.Notifies (q : Request) (d : UInt32) : Prop :=
  (q.type = .addContact ∨ q.type = .acceptContact ∨ q.type = .rejectContact ∨ q.type = .push) ∧
    q.dst = some d

instance (q : Request) (d : UInt32) : Decidable (q.Notifies d) := by
  unfold Request.Notifies
  infer_instance

/-- The program gets to the operation, whatever it is told. -/
abbrev Prog.Gets {α : Type} (o : Op) (p : Prog α) : Prop :=
  Proc.Reaches (· = o) (fun _ _ => True) p fun _ => False

/-- Who stores a request for an account goes on to schedule a look at its sessions. -/
def Announces (o : Op) (_ : o.Res) (p : Prog Bool) : Prop :=
  o.Steady ∧ ∀ q d, o = .insertRequest q → q.Notifies d → p.Gets (.schedule d)

theorem Op.Inert.announces {o : Op} (h : o.Inert) (r : o.Res) (p : Prog Bool) :
    Announces o r p := by
  refine ⟨h.steady, ?_⟩
  rintro q d rfl
  exact h.elim

/-- A program of operations that matter to nobody. -/
abbrev Prog.IsInert {α : Type} (p : Prog α) : Prop := Proc.Within Op.Inert p

theorem Prog.IsQuiet.inert {α : Type} {p : Prog α} (h : p.IsQuiet) : p.IsInert :=
  h.mono (fun _ => Op.IsQuiet.inert) fun _ => id

theorem Prog.IsInert.bind {α β : Type} {p : Prog α} {f : α → Prog β} (hp : p.IsInert)
    (hf : ∀ a, (f a).IsInert) : (p >>= f).IsInert :=
  Proc.Within.bind hp hf

theorem inert_perform {o : Op} (h : o.Inert) : Prog.IsInert (Proc.perform o) :=
  ⟨h, fun _ _ => trivial⟩

/-- What matters to nobody comes before the rest. -/
theorem honours_bind {α : Type} {p : Prog α} {f : α → Prog Bool} (hp : p.IsInert)
    (hf : ∀ a, (f a).Honours Announces) : (p >>= f).Honours Announces :=
  .bind_of_within (hp.mono (fun _ h => h.announces) fun _ => id) hf

theorem honours_of_inert {p : Prog Bool} (hp : p.IsInert) : p.Honours Announces :=
  .of_within (hp.mono (fun _ h => h.announces) fun _ => id)

/-- A request is stored, and announced afterwards. -/
theorem honours_addRequest {q : Request} {f : Bool → Prog Bool}
    (hf : ∀ d, q.Notifies d → (f true).Gets (.schedule d)) (hrest : (f true).Honours Announces) :
    (DB.addRequest q >>= f).Honours Announces := by
  have hduty : ∀ r, Announces (.insertRequest q) r (f true) := fun r => by
    refine ⟨trivial, ?_⟩
    rintro q' d he
    cases he
    exact hf d
  rintro (e | u)
  · exact ⟨hduty _, hrest⟩
  · exact ⟨hduty _, hrest⟩

/-- What is performed at the end is performed. -/
theorem Prog.Gets.after {α β : Type} {o : Op} {p : Prog α} {f : α → Prog β}
    (hf : ∀ a, (f a).Gets o) : (p >>= f).Gets o :=
  Proc.reaches_bind.mpr (Proc.Reaches.skip hf)

theorem Prog.gets_perform {β : Type} {o : Op} {f : o.Res → Prog β} :
    Prog.Gets o (Proc.perform o >>= f) :=
  Or.inl rfl

/-! ## The handlers that store requests -/

section

variable (env : Env) (s : SessionId) (head : UBJ.Object)

theorem honours_addContactTo (account : Account) (q : AccountQuery) :
    (addContactTo s head account q).Honours Announces := by
  rw [addContactTo]
  refine honours_bind (by simp) fun contact => ?_
  cases contact with
  | none => exact honours_of_inert (by simp)
  | some contact =>
    refine honours_bind (by simp) fun x => ?_
    split
    · exact honours_of_inert (by simp)
    refine honours_bind (by simp) fun x => ?_
    refine honours_bind (by simp) fun pending => ?_
    split
    · exact honours_of_inert (by simp)
    split
    · exact honours_of_inert (by simp)
    refine honours_bind (by simp) fun x => ?_
    refine honours_addRequest (fun d hd => ?_) ?_
    · obtain rfl : contact.id = d := Option.some.inj hd.2
      rw [if_neg (by decide)]
      dsimp only
      split
      · exact .after fun _ => .after fun _ => Prog.gets_perform
      · exact .after fun _ => Prog.gets_perform
    · exact honours_of_inert (by simp)

theorem honours_processAddContactRequest :
    (processAddContactRequest s head).Honours Announces := by
  rw [processAddContactRequest]
  refine honours_bind (by simp) fun st => ?_
  split
  · exact honours_of_inert (by simp)
  refine honours_bind (by simp) fun x => ?_
  refine honours_bind (by simp) fun account => ?_
  cases account with
  | none => exact honours_of_inert (by simp)
  | some account =>
    dsimp only
    split
    · refine honours_bind (by simp) fun request => ?_
      cases request with
      | none => exact honours_of_inert (by simp)
      | some request => exact honours_addContactTo s head account _
    · split
      · exact honours_of_inert (by simp)
      · exact honours_addContactTo s head account _

theorem honours_processCreateAddCode : (processCreateAddCode s head).Honours Announces := by
  rw [processCreateAddCode]
  refine honours_bind (by simp) fun st => ?_
  split
  · exact honours_of_inert (by simp)
  split
  · exact honours_of_inert (by simp)
  refine honours_bind (by simp) fun x => ?_
  refine honours_bind (by simp) fun account => ?_
  cases account with
  | none => exact honours_of_inert (by simp)
  | some account =>
    refine honours_bind (by simp) fun word => ?_
    refine honours_bind (by simp) fun x => ?_
    -- the record of a code has no addressee
    refine honours_addRequest (fun d hd => ?_) ?_
    · cases hd.2
    · exact honours_of_inert (by simp)

theorem inert_getContactStatus (id : UInt32) : (getContactStatus id).IsInert :=
  (quiet_getContactStatus id).inert

theorem honours_processAcceptContact : (processAcceptContact s head).Honours Announces := by
  rw [processAcceptContact]
  refine honours_bind (by simp) fun st => ?_
  split
  · exact honours_of_inert (by simp)
  refine honours_bind (by simp) fun x => ?_
  refine honours_bind (by simp) fun request => ?_
  cases request with
  | none => exact honours_of_inert (by simp)
  | some request =>
    refine honours_bind (by simp) fun x => ?_
    refine honours_bind (by simp) fun account => ?_
    cases account with
    | none => exact honours_of_inert (by simp)
    | some account =>
      dsimp only
      split
      · exact honours_of_inert (by simp)
      split
      · exact honours_of_inert (by simp)
      refine honours_bind (by simp) fun x => ?_
      refine honours_addRequest (fun d hd => ?_) ?_
      · obtain rfl : request.src = d := Option.some.inj hd.2
        rw [if_neg (by decide)]
        exact .after fun _ => .after fun _ => .after fun _ => .after fun _ => Prog.gets_perform
      · rw [if_neg (by decide)]
        refine honours_bind (inert_getContactStatus _) fun contactStatus => ?_
        exact honours_of_inert (by simp)

theorem honours_processRejectContact : (processRejectContact s head).Honours Announces := by
  rw [processRejectContact]
  refine honours_bind (by simp) fun st => ?_
  split
  · exact honours_of_inert (by simp)
  refine honours_bind (by simp) fun x => ?_
  refine honours_bind (by simp) fun request => ?_
  cases request with
  | none => exact honours_of_inert (by simp)
  | some request =>
    refine honours_bind (by simp) fun x => ?_
    refine honours_addRequest (fun d hd => ?_) ?_
    · obtain rfl : request.src = d := Option.some.inj hd.2
      rw [if_neg (by decide)]
      exact .after fun _ => .after fun _ => Prog.gets_perform
    · exact honours_of_inert (by simp)

/-- Every round of a push stores one request and announces it. -/
theorem honours_pushKeys (requestId : UInt32) (forward : UBJ.Object) (keys : List UBJ.Value)
    {f : Unit → Prog Bool} (hf : (f ()).Honours Announces) :
    (pushKeys s requestId forward keys >>= f).Honours Announces := by
  induction keys generalizing forward with
  | nil => exact hf
  | cons it keys ih =>
    rw [pushKeys, bind_assoc]
    refine honours_bind (by simp) fun x => ?_
    split
    · exact ih forward
    · simp only [bind_assoc]
      refine honours_bind (by simp) fun x => ?_
      refine honours_addRequest (fun d hd => ?_) ?_
      · obtain rfl : (it.get "dst").toInt = d := Option.some.inj hd.2
        rw [if_neg (by decide)]
        exact Prog.gets_perform
      · rw [if_neg (by decide), bind_assoc]
        exact honours_bind (by simp) fun _ => ih _

theorem honours_processPushRequest : (processPushRequest s head).Honours Announces := by
  rw [processPushRequest]
  refine honours_bind (by simp) fun st => ?_
  split
  · exact honours_of_inert (by simp)
  refine honours_bind (by simp) fun x => ?_
  exact honours_pushKeys s _ _ _ (honours_of_inert (by simp))

/-! ## The other handlers -/

theorem inert_processRequests : (processRequests env s).IsInert := by
  refine (within_processRequests env s).sub fun o ho => ?_
  cases o <;> first | exact trivial | exact ho.elim

theorem inert_processDispatchRequest : (processDispatchRequest s head).IsInert := by
  simp [processDispatchRequest]

theorem inert_processCreateAccount : (processCreateAccount env s head).IsInert := by
  simp [processCreateAccount]

theorem inert_afterLogin (accountId : UInt32) : (afterLogin env s head accountId).IsInert := by
  refine (within_afterLogin env s head accountId).sub fun o ho => ?_
  cases o <;> first | exact trivial | exact ho.elim | exact ho.elim id id

theorem inert_processResponse (p : Posted) (response : UBJ.Object) :
    (processResponse env s p response).IsInert := by
  refine (within_processResponse env s response p).sub fun o ho => ?_
  cases o <;> first | exact trivial | exact ho.elim

theorem inert_processUserRequests (userId : UInt32) :
    (Server.processUserRequests env userId).IsInert := by
  refine (within_processUserRequests env userId).sub fun o ho => ?_
  cases o <;> first | exact trivial | exact ho.choose_spec.elim

end

/-! ## Registering a session -/

/-- Reading the stored requests of an account, for a session. -/
abbrev scan (s : SessionId) (d : UInt32) : Op := .findRequests s { dst := some d }

/-- What a program is told while the session has the account. -/
def Told (s : SessionId) (d : UInt32) : (o : Op) → o.Res → Prop
  | .accountId t, y => t = s → y = d
  | _, _ => True

/-- As long as the session has the account, the program gets to read the store for it. -/
abbrev Prog.Scans {α : Type} (s : SessionId) (d : UInt32) (p : Prog α) : Prop :=
  Proc.Reaches (· = scan s d) (Told s d) p fun _ => False

/-- The program takes the account on for the session, or returns `false`. -/
abbrev Prog.Takes (s : SessionId) (d : UInt32) (p : Prog Bool) : Prop :=
  Proc.Reaches (· = .setAccountId s d) (fun _ _ => True) p (· = false)

/-- A connection has begun. -/
def Event.IsConnect : Event → Prop
  | connect _ => True
  | _ => False

instance : (e : Event) → Decidable e.IsConnect
  | .connect _ => instDecidableTrue
  | .handshake .. | .request .. | .response .. | .createReceiver .. | .receive .. | .received ..
  | .userRequests _ | .send .. | .timer _ | .disconnect _ | .removeSessions => instDecidableFalse

/-- What an operation in the handler of an event obliges the rest of the handler to: a stored
request is announced, and a session that is registered, unless under its temporary id,
has its stored requests read. -/
def Duty (e : Event) : (o : Op) → o.Res → Prog Bool → Prop
  | .insertRequest q, _, p => ∀ d, q.Notifies d → p.Gets (.schedule d)
  | .appendSession s, _, p => ¬ e.IsConnect → ∀ d, p.Scans s d
  | _, _, _ => True

/-- Only the owner of a connection registers its session, changes its account or makes it
connected; the account is changed only while the session is out of the registry, which the
second component tells. -/
def discipline (owner : Option SessionId) : Op → Bool → Option Bool
  | .setStatus s st, out => if owner = some s ∨ st = .disconnected then some out else none
  | .setAccountId s _, out => if owner = some s ∧ out = true then some true else none
  | .appendSession s, out => if owner = some s ∧ out = true then some false else none
  | .removeSession s, _ => if owner = some s then some true else none
  | _, out => some out

/-- The program keeps to the discipline. -/
abbrev Prog.Obeys {α : Type} (owner : Option SessionId) (out : Bool) (p : Prog α) : Prop :=
  Proc.Follows (discipline owner) p out fun _ _ => True

section

variable {α : Type} {e : Event} {owner : Option SessionId} {out : Bool}

theorem Op.Inert.duty {o : Op} (h : o.Inert) (r : o.Res) (p : Prog Bool) : Duty e o r p := by
  cases o <;> first | exact trivial | exact h.elim

theorem duty_of_announces {o : Op} {r : o.Res} {p : Prog Bool} (h : Announces o r p) :
    Duty e o r p := by
  cases o with
  | insertRequest q => exact fun d hd => h.2 q d rfl hd
  | appendSession s => exact h.1.elim
  | _ => exact trivial

theorem discipline_of_steady {o : Op} (h : o.Steady) : discipline owner o out = some out := by
  cases o <;> first | rfl | exact h.elim

theorem obeys_of_steady {p : Prog α} (hp : Proc.Within Op.Steady p) : p.Obeys owner out :=
  .of_within hp (fun _ _ h => discipline_of_steady h) fun _ => trivial

theorem obeys_of_inert {p : Prog α} (hp : p.IsInert) : p.Obeys owner out :=
  obeys_of_steady (hp.mono (fun _ => Op.Inert.steady) fun _ => id)

theorem Prog.IsInert.obeys_bind {β : Type} {p : Prog α} {f : α → Prog β} (hp : p.IsInert)
    (hf : ∀ a, (f a).Obeys owner out) : (p >>= f).Obeys owner out :=
  Proc.follows_bind.mpr (.of_within hp (fun _ _ h => discipline_of_steady h.steady) hf)

theorem Prog.IsInert.honours_bind {p : Prog α} {f : α → Prog Bool} (hp : p.IsInert)
    (hf : ∀ a, (f a).Honours (Duty e)) : (p >>= f).Honours (Duty e) :=
  .bind_of_within (hp.mono (fun _ h => h.duty) fun _ => id) hf

/-- A handler that is inert owes nothing and keeps to the discipline. -/
theorem honours_duty_of_inert {p : Prog Bool} (hp : p.IsInert) : p.Honours (Duty e) :=
  .of_within (hp.mono (fun _ h => h.duty) fun _ => id)

/-- A handler that announces what it stores. -/
theorem honours_duty_of_announces {p : Prog Bool} (h : p.Honours Announces) :
    p.Honours (Duty e) := by
  induction p with
  | ret b => exact trivial
  | op o k ih => exact fun r => ⟨duty_of_announces (h r).1, ih r (h r).2⟩

theorem obeys_of_announces {p : Prog Bool} (h : p.Honours Announces) : p.Obeys owner out :=
  obeys_of_steady (Proc.Honours.within h (fun _ _ _ h => h.1) fun o => by
    cases o <;> exact ⟨default⟩)

/-- What is read at the end is read. -/
theorem Prog.Scans.after {β : Type} {s : SessionId} {d : UInt32} {p : Prog α} {f : α → Prog β}
    (hf : ∀ a, (f a).Scans s d) : (p >>= f).Scans s d :=
  Proc.reaches_bind.mpr (Proc.Reaches.skip hf)

theorem Prog.Takes.after {s : SessionId} {d : UInt32} {p : Prog α} {f : α → Prog Bool}
    (hf : ∀ a, (f a).Takes s d) : (p >>= f).Takes s d :=
  Proc.reaches_bind.mpr (Proc.Reaches.skip hf)

end

/-! ## Reading the store -/

section

variable (env : Env) (s : SessionId) (head : UBJ.Object)

theorem scans_processRequests {α : Type} {d : UInt32} {f : Bool → Prog α} :
    (processRequests env s >>= f).Scans s d := by
  refine Or.inr fun x hx => ?_
  obtain rfl : x = d := hx rfl
  exact Or.inl rfl

/-- Whoever looks at the sessions of an account reads the store for each of them. -/
theorem scans_processUserRequests {d : UInt32} {sessions : List SessionId} (hs : s ∈ sessions) :
    Prog.Scans s d (forM sessions fun t => do let _ ← processRequests env t) :=
  Proc.Reaches.forM hs (scans_processRequests env s)

theorem scans_afterLogin {α : Type} {d : UInt32} {accountId : UInt32} {f : Unit → Prog α} :
    (afterLogin env s head accountId >>= f).Scans s d := by
  have hend : ∀ g : Unit → Prog α, Prog.Scans s d (answerLogin env s head accountId >>= g) := by
    intro g
    simp only [answerLogin, bind_assoc]
    exact .after fun _ => .after fun _ => .after fun _ => scans_processRequests env s
  rw [afterLogin_eq]
  split
  · rw [bind_assoc]
    exact .after fun _ => hend f
  · exact hend f

/-! ## Login -/

theorem honours_processLogin {e : Event} : (processLogin env s head).Honours (Duty e) := by
  have hfail : ∀ id code text, Prog.IsInert (do
      postRequestFailure s id code text
      return false) := fun id code text => (inert_perform (by trivial)).bind fun _ => trivial
  rw [processLogin]
  refine (inert_perform (by trivial)).honours_bind fun st => ?_
  split
  · exact honours_duty_of_inert (hfail _ _ _)
  split
  · exact honours_duty_of_inert (hfail _ _ _)
  split
  · exact honours_duty_of_inert (hfail _ _ _)
  refine Prog.IsInert.honours_bind (by simp) fun account => ?_
  cases account with
  | none => exact honours_duty_of_inert (hfail _ _ _)
  | some account =>
    dsimp only
    split
    · exact honours_duty_of_inert ((inert_perform (by trivial)).bind fun _ => trivial)
    · exact honours_duty_of_inert (hfail _ _ _)
    · -- from here on the session is moved in the registry
      refine fun _ => ⟨trivial, fun _ => ⟨trivial, fun _ => ⟨trivial, fun _ => ⟨?_, ?_⟩⟩⟩⟩
      · exact fun _ d => scans_afterLogin env s head
      · exact honours_duty_of_inert ((inert_afterLogin env s head _).bind fun _ => trivial)

theorem obeys_processLogin : (processLogin env s head).Obeys (some s) false := by
  have hfail : ∀ id code text, Prog.Obeys (some s) false (do
      postRequestFailure s id code text
      return false) := fun id code text =>
    obeys_of_inert ((inert_perform (by trivial)).bind fun _ => trivial)
  rw [processLogin]
  refine (inert_perform (by trivial)).obeys_bind fun st => ?_
  split
  · exact hfail _ _ _
  split
  · exact hfail _ _ _
  split
  · exact hfail _ _ _
  refine Prog.IsInert.obeys_bind (by simp) fun account => ?_
  cases account with
  | none => exact hfail _ _ _
  | some account =>
    dsimp only
    split
    · exact obeys_of_inert ((inert_perform (by trivial)).bind fun _ => trivial)
    · exact hfail _ _ _
    · refine ⟨false, if_pos (Or.inl rfl), fun _ => ⟨true, if_pos rfl, fun _ => ?_⟩⟩
      refine ⟨true, if_pos ⟨rfl, rfl⟩, fun _ => ⟨false, if_pos ⟨rfl, rfl⟩, fun _ => ?_⟩⟩
      exact obeys_of_inert ((inert_afterLogin env s head _).bind fun _ => trivial)

/-- A login succeeds only by taking on the account that it names. -/
theorem takes_processLogin : (processLogin env s head).Takes s (head.get "account").toInt := by
  have hfail : ∀ id code text, Prog.Takes s (head.get "account").toInt (do
      postRequestFailure s id code text
      return false) := fun id code text => .after fun _ => rfl
  rw [processLogin]
  refine .after fun st => ?_
  split
  · exact hfail _ _ _
  split
  · exact hfail _ _ _
  split
  · exact hfail _ _ _
  refine .after fun account => ?_
  cases account with
  | none => exact hfail _ _ _
  | some account =>
    dsimp only
    split
    · exact .after fun _ => rfl
    · exact hfail _ _ _
    · exact .after fun _ => .after fun _ => Or.inl rfl

end

/-! ## The handlers of the events -/

/-- The operations that oblige to nothing. -/
@[simp] def Op.IsFree : Op → Prop
  | .insertRequest _ | .appendSession _ => False
  | _ => True

/-- The operations that the discipline allows to everybody. -/
def Op.IsAllowed (o : Op) : Prop := ∀ owner out, discipline owner o out = some out

section

variable {e : Event} {owner : Option SessionId} {out : Bool}

theorem honours_of_free {p : Prog Bool} (hp : Proc.Within Op.IsFree p) : p.Honours (Duty e) :=
  .of_within (hp.mono (fun o h r q => by cases o <;> first | exact trivial | exact h.elim)
    fun _ => id)

theorem obeys_of_allowed {α : Type} {p : Prog α} (hp : Proc.Within Op.IsAllowed p) :
    p.Obeys owner out :=
  .of_within hp (fun _ m h => h owner m) fun _ => trivial

end

section

variable (env : Env) (s : SessionId) (head : UBJ.Object)

theorem free_broadcastStatus (status : UInt32) (check : Bool) :
    Proc.Within Op.IsFree (broadcastStatus env s status check) :=
  (quiet_broadcastStatus env s status check).mono
    (fun o h => by cases o <;> first | exact trivial | exact h.elim) fun _ => id

theorem free_processLogout : Proc.Within Op.IsFree (processLogout env s head) := by
  have hbroadcast := free_broadcastStatus env s 0 true
  simp [processLogout, hbroadcast]

theorem obeys_processLogout : (processLogout env s head).Obeys (some s) false := by
  rw [processLogout]
  refine (inert_perform (by trivial)).obeys_bind fun st => ?_
  split
  · exact obeys_of_inert ((inert_perform (by trivial)).bind fun _ => trivial)
  refine (inert_perform (by trivial)).obeys_bind fun _ => ?_
  refine (inert_perform (by trivial)).obeys_bind fun x => ?_
  refine Prog.IsInert.obeys_bind (by simp) fun _ => ⟨false, if_pos (Or.inl rfl), fun _ => ?_⟩
  exact obeys_of_inert ((quiet_broadcastStatus env s 0 true).inert.bind fun _ => trivial)

theorem free_close (remove : Bool) : Proc.Within Op.IsFree (close s remove) := by
  simp [close]

theorem obeys_close (remove : Bool) : (close s remove).Obeys (some s) false := by
  refine ⟨false, if_pos (Or.inl rfl), fun _ => ?_⟩
  cases remove with
  | true => exact ⟨true, if_pos rfl, fun _ => trivial⟩
  | false => exact trivial

/-- The handlers of the requests owe what they store, and keep to the discipline. -/
theorem honours_processIncomingRequest {e : Event} :
    (processIncomingRequest env s head).Honours (Duty e) := by
  rw [processIncomingRequest]
  split
  · exact honours_duty_of_inert (inert_processDispatchRequest s head)
  · exact honours_duty_of_inert (inert_processCreateAccount env s head)
  · exact honours_processLogin env s head
  · exact honours_of_free (free_processLogout env s head)
  · exact honours_duty_of_inert (quiet_processConfigRequest env s head).inert
  · exact honours_duty_of_announces (honours_processAddContactRequest s head)
  · exact honours_duty_of_announces (honours_processCreateAddCode s head)
  · exact honours_duty_of_inert (quiet_processFindContactRequest s head).inert
  · exact honours_duty_of_announces (honours_processAcceptContact s head)
  · exact honours_duty_of_announces (honours_processRejectContact s head)
  · exact honours_duty_of_inert (quiet_processContactStatusRequest s head).inert
  · exact honours_duty_of_announces (honours_processPushRequest s head)
  · exact trivial

theorem obeys_processIncomingRequest :
    (processIncomingRequest env s head).Obeys (some s) false := by
  rw [processIncomingRequest]
  split
  · exact obeys_of_inert (inert_processDispatchRequest s head)
  · exact obeys_of_inert (inert_processCreateAccount env s head)
  · exact obeys_processLogin env s head
  · exact obeys_processLogout env s head
  · exact obeys_of_inert (quiet_processConfigRequest env s head).inert
  · exact obeys_of_announces (honours_processAddContactRequest s head)
  · exact obeys_of_announces (honours_processCreateAddCode s head)
  · exact obeys_of_inert (quiet_processFindContactRequest s head).inert
  · exact obeys_of_announces (honours_processAcceptContact s head)
  · exact obeys_of_announces (honours_processRejectContact s head)
  · exact obeys_of_inert (quiet_processContactStatusRequest s head).inert
  · exact obeys_of_announces (honours_processPushRequest s head)
  · exact trivial

/-- The end of an upload stores a request that is not announced. -/
theorem honours_streamReceived (streamId : UInt32) :
    Proc.Honours Announces (do
      streamReceived env s streamId
      return false) := by
  rw [streamReceived, bind_assoc]
  refine honours_bind (by simp) fun receiver => ?_
  cases receiver with
  | none => exact trivial
  | some receiver =>
    dsimp only
    rw [bind_assoc]
    refine honours_bind (by simp) fun x => ?_
    rw [bind_assoc]
    refine honours_addRequest (fun d hd => ?_) ?_
    · obtain ⟨ht, _⟩ := hd
      simp at ht
    · rw [bind_assoc]
      exact honours_bind (inert_processRequests env s) fun _ => trivial

/-- The handler of the answer to a posted request. -/
theorem inert_response (k : Nat) : Prog.IsInert (do
    match ← Proc.perform (Op.takePosted s k) with
    | some p => processResponse env s p head
    | none => return) := by
  refine (inert_perform (by trivial)).bind fun p => ?_
  cases p with
  | none => exact trivial
  | some p => exact inert_processResponse env s p head

theorem inert_createReceiver (pkt : Packet) : Prog.IsInert (do
    let _ ← createStreamReceiver s pkt) :=
  (quiet_createStreamReceiver s pkt).inert.bind fun _ => trivial

theorem free_removeSessions : Proc.Within Op.IsFree Server.removeSessions := by
  have hloop : ∀ sessions : List SessionId,
      Proc.Within Op.IsFree (forM sessions fun s => close s false) := fun sessions =>
    Proc.Safe.forM fun t _ => free_close t false
  simp [Server.removeSessions, hloop]

theorem allowed_removeSessions : Proc.Within Op.IsAllowed Server.removeSessions := by
  have hclose : ∀ t, Proc.Within Op.IsAllowed (close t false) := fun t =>
    ⟨fun owner out => if_pos (Or.inr rfl), fun _ _ => trivial⟩
  have hloop : ∀ sessions : List SessionId,
      Proc.Within Op.IsAllowed (forM sessions fun s => close s false) := fun sessions =>
    Proc.Safe.forM fun t _ => hclose t
  have hall : Proc.Within Op.IsAllowed (Proc.perform Op.allSessions : Prog (List SessionId)) :=
    ⟨fun _ _ => rfl, fun _ _ => trivial⟩
  exact hall.bind fun sessions => (hloop sessions).bind fun _ =>
    ⟨fun _ _ => rfl, fun _ _ => trivial⟩

end

section

variable (env : Env) (σ : ServerState) (e : Event)

/-- The other handlers end by returning `false`. -/
theorem Prog.IsInert.returnFalse {p : Prog Unit} (hp : p.IsInert) :
    Prog.IsInert (do
      p
      return false) :=
  hp.bind fun _ => trivial

/-- **Duties.**  Whatever the event, its handler announces what it stores, and has the store
read for a session that it registers. -/
theorem honours_program : (e.program env σ).Honours (Duty e) := by
  have hfree : ∀ {e : Event} {p : Prog Unit}, Proc.Within Op.IsFree p →
      Proc.Honours (Duty e) (do
        p
        return false) := fun hp => honours_of_free (hp.bind fun _ => trivial)
  cases e with
  | connect s =>
    exact fun _ => ⟨trivial, fun _ => ⟨trivial, fun _ => ⟨fun h => (h trivial).elim, trivial⟩⟩⟩
  | handshake s error =>
    refine hfree ?_
    show Proc.Within Op.IsFree (handleHandshake s error)
    rw [handleHandshake]
    split
    · exact free_close s true
    · exact ⟨trivial, fun _ _ => trivial⟩
  | request s head => exact honours_processIncomingRequest env s head
  | response s k head =>
    exact honours_duty_of_inert (inert_response env s head k).returnFalse
  | createReceiver s pkt =>
    exact honours_duty_of_inert (inert_createReceiver s pkt).returnFalse
  | receive s id body =>
    exact honours_duty_of_inert (quiet_receivePacket s id body).inert.returnFalse
  | received s id => exact honours_duty_of_announces (honours_streamReceived env s id)
  | userRequests k =>
    exact honours_duty_of_inert (inert_processUserRequests env (σ.tasks.getD k 0)).returnFalse
  | send k size offset =>
    exact honours_duty_of_inert (quiet_preparePacket env k size offset).inert.returnFalse
  | timer completed => exact honours_duty_of_inert (quiet_onTimer completed).inert.returnFalse
  | disconnect s => exact hfree (free_close s true)
  | removeSessions => exact hfree free_removeSessions

/-- **Discipline.**  Whatever the event, only its owner is registered, and only a connection
that begins has a session that is in no list yet. -/
theorem obeys_program : (e.program env σ).Obeys e.owner (decide e.IsConnect) := by
  have hreturn : ∀ {owner : Option SessionId} {out : Bool} {p : Prog Unit}, p.Obeys owner out →
      Prog.Obeys owner out (do
        p
        return false) := by
    intro owner out p hp
    exact Proc.follows_bind.mpr hp
  cases e with
  | connect s =>
    refine ⟨true, rfl, fun id => ⟨true, if_pos ⟨rfl, rfl⟩, fun _ => ?_⟩⟩
    exact ⟨false, if_pos ⟨rfl, rfl⟩, fun _ => trivial⟩
  | handshake s error =>
    refine hreturn ?_
    show (handleHandshake s error).Obeys (some s) false
    rw [handleHandshake]
    split
    · exact obeys_close s true
    · exact ⟨false, if_pos (Or.inl rfl), fun _ => trivial⟩
  | request s head => exact obeys_processIncomingRequest env s head
  | response s k head => exact obeys_of_inert (inert_response env s head k).returnFalse
  | createReceiver s pkt =>
    exact obeys_of_inert (inert_createReceiver s pkt).returnFalse
  | receive s id body => exact obeys_of_inert (quiet_receivePacket s id body).inert.returnFalse
  | received s id => exact obeys_of_announces (honours_streamReceived env s id)
  | userRequests k =>
    exact obeys_of_inert (inert_processUserRequests env (σ.tasks.getD k 0)).returnFalse
  | send k size offset =>
    exact obeys_of_inert (quiet_preparePacket env k size offset).inert.returnFalse
  | timer completed => exact obeys_of_inert (quiet_onTimer completed).inert.returnFalse
  | disconnect s => exact hreturn (obeys_close s true)
  | removeSessions => exact hreturn (obeys_of_allowed allowed_removeSessions)

end

end ZwayServer
