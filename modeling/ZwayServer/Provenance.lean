import ZwayServer.Accounts
import ZwayServer.Effects
import ZwayServer.Notification
import ZwayServer.Pending

/-!
# The sender of a request, under interleaving

Handlers of many sessions run at once, and each of them asks for the account of its session
more than once.  Still every stored request names the account whose password the session had
sent: the account of a session changes only in its own handlers, a login checks the password
before it changes it, and the handlers of one connection do not overlap.

* `ProvedBy` — the last account that the log sees a session take on, with the login it came by.
* `Signing`, `signs_program` — a handler stores requests in the name of its session, once it has
  been told that the session is logged in.
* `Entering`, `enters_processLogin` — a login takes an account on after its password was verified.
* `Signed` — what the log says about every request that was stored.
* `authentic_afterMoves` — every stored request was stored by a session that had logged in to its
  sender, whatever is interleaved.
-/

namespace ZwayServer

open ClientSession

/-! ## What the log tells of a session -/

/-- The password of the head is that of the account. -/
def Verifies (env : Env) (a : Account) (head : UBJ.Object) : Prop :=
  verifyPassword env a (head.get "password").buffer? = some true

/-- The handler of the login has found an account that the password fits. -/
def Verified (env : Env) (s : SessionId) (head : UBJ.Object) (log : List Entry) : Prop :=
  ∃ a, Entry.performed (.request s head) (.findAccount { id := some (head.get "account").toInt })
    (.ok (some a)) ∈ log ∧ Verifies env a head

/-- The last account that the session has taken on is `x`, in the handler of a login that had
verified the password of `x`. -/
def ProvedBy (env : Env) (s : SessionId) (x : UInt32) (log : List Entry) : Prop :=
  ∃ later head earlier,
    log = later ++ .performed (.request s head) (.setAccountId s x) () :: earlier ∧
    (∀ e y, .performed e (.setAccountId s y) () ∉ later) ∧ IsLogin env head ∧
    (head.get "account").toInt = x ∧ Verified env s head earlier

theorem Verified.cons {env : Env} {s : SessionId} {head : UBJ.Object} {log : List Entry}
    (h : Verified env s head log) (x : Entry) : Verified env s head (x :: log) := by
  obtain ⟨a, hmem, ha⟩ := h
  exact ⟨a, List.mem_cons_of_mem _ hmem, ha⟩

/-- What else is performed changes nothing about it. -/
theorem ProvedBy.cons {env : Env} {s : SessionId} {x : UInt32} {log : List Entry} {entry : Entry}
    (h : ProvedBy env s x log) (he : ∀ e y, entry ≠ .performed e (.setAccountId s y) ()) :
    ProvedBy env s x (entry :: log) := by
  obtain ⟨later, head, earlier, rfl, hnone, hlogin, hx, hverified⟩ := h
  refine ⟨entry :: later, head, earlier, rfl, fun e y hmem => ?_, hlogin, hx, hverified⟩
  rcases List.mem_cons.mp hmem with hnow | hbefore
  · exact he e y hnow.symm
  · exact hnone e y hbefore

/-! ## Handlers that store requests -/

/-- What a handler may do for a session that has the account `x`: it stores requests in the
name of `x` only, and not before it has been told that the session is logged in. -/
noncomputable def Signing (s : SessionId) (x : UInt32) : (o : Op) → o.Res → Bool → Option Bool
  | .status t, st, told => some (told || (t == s && st == .loggedIn))
  | .insertRequest q, _, told =>
    open Classical in if q.type = .dispatch ∨ told = true ∧ Authored x q then some told else none
  | .setAccountId .., _, _ => none
  | .setStatus _ st, _, told => if st = .loggedIn then none else some told
  | _, _, told => some told

/-- As long as the session has the account `x`, the program keeps to that. -/
abbrev Prog.Signs {α : Type} (s : SessionId) (x : UInt32) (p : Prog α) (told : Bool) : Prop :=
  Proc.Tracks (ToldOwn s x) (Signing s x) p told fun _ _ => True

/-- The operations that neither sign nor enter. -/
@[simp] def Op.IsPlain : Op → Prop
  | .status _ | .insertRequest _ | .setAccountId .. | .setStatus .. => False
  | _ => True

section

variable {s : SessionId} {x : UInt32} {told : Bool} {α β : Type}

theorem Signing.of_plain {o : Op} (h : o.IsPlain) (r : o.Res) :
    Signing s x o r told = some told := by
  cases o <;> first | rfl | exact h.elim

theorem Prog.Signs.plain {p : Prog α} {f : α → Prog β} (hp : Proc.Within Op.IsPlain p)
    (hf : ∀ a, (f a).Signs s x told) : (p >>= f).Signs s x told :=
  .skip hp (fun _ r _ h => Signing.of_plain h r) hf

theorem signs_of_plain {p : Prog α} (hp : Proc.Within Op.IsPlain p) : p.Signs s x told :=
  .of_within hp (fun _ r _ h => Signing.of_plain h r) fun _ => trivial

/-- The gate of the handlers: what comes behind it knows that the session is logged in. -/
theorem signs_gate {refusal rest : Prog Bool} (hrefusal : Proc.Within Op.IsPlain refusal)
    (hrest : rest.Signs s x true) :
    Prog.Signs s x (do
      if (← status s) < .loggedIn then refusal else rest) false := by
  intro st _
  refine ⟨_, rfl, ?_⟩
  show Prog.Signs s x (if st < .loggedIn then refusal else rest) _
  split
  · exact signs_of_plain hrefusal
  · next hst =>
    rw [Status.lt_loggedIn, not_not] at hst
    rw [hst]
    simpa using hrest

/-- A request in the name of the account that the session has is stored. -/
theorem signs_addRequest {q : UInt32 → Request} {f : Bool → Prog β} (hq : Authored x (q x))
    (hf : ∀ b, (f b).Signs s x true) :
    Prog.Signs s x (do
      let y ← accountId s
      let b ← DB.addRequest (q y)
      f b) true := by
  intro y hy
  obtain rfl : y = x := hy rfl
  refine ⟨true, rfl, fun u _ => ⟨true, if_pos (Or.inr ⟨rfl, hq⟩), ?_⟩⟩
  cases u <;> exact hf true

end

section

variable (env : Env) (s : SessionId) (x : UInt32) (head : UBJ.Object)

theorem signs_addContactTo (account : Account) (q : AccountQuery) :
    (addContactTo s head account q).Signs s x true := by
  rw [addContactTo]
  refine .plain (by simp) fun contact => ?_
  cases contact with
  | none => exact signs_of_plain (by simp)
  | some contact =>
    refine .plain (by simp) fun y => ?_
    split
    · exact signs_of_plain (by simp)
    refine .plain (by simp) fun y' => .plain (by simp) fun pending => ?_
    split
    · exact signs_of_plain (by simp)
    cases publicKeyOf head with
    | none => exact signs_of_plain (by simp)
    | some publicKey =>
      exact signs_addRequest (authored_contactRequest head x ⟨account, contact, publicKey⟩)
        fun b => signs_of_plain (by simp)

theorem signs_processAddContactRequest : (processAddContactRequest s head).Signs s x false := by
  rw [processAddContactRequest]
  refine signs_gate (by simp) (.plain (by simp) fun y => .plain (by simp) fun account => ?_)
  cases account with
  | none => exact signs_of_plain (by simp)
  | some account =>
    dsimp only
    split
    · refine .plain (by simp) fun request => ?_
      cases request with
      | none => exact signs_of_plain (by simp)
      | some request => exact signs_addContactTo s x head account _
    · split
      · exact signs_of_plain (by simp)
      · exact signs_addContactTo s x head account _

theorem signs_processCreateAddCode : (processCreateAddCode s head).Signs s x false := by
  rw [processCreateAddCode]
  refine signs_gate (by simp) ?_
  cases publicKeyOf head with
  | none => exact signs_of_plain (by simp)
  | some publicKey =>
    refine .plain (by simp) fun y => .plain (by simp) fun account => ?_
    cases account with
    | none => exact signs_of_plain (by simp)
    | some account =>
      refine .plain (by simp) fun word => ?_
      exact signs_addRequest (authored_addCodeRequest head x (addCodeHex word) ⟨account, publicKey⟩)
        fun b => signs_of_plain (by simp)

theorem signs_processAcceptContact : (processAcceptContact s head).Signs s x false := by
  rw [processAcceptContact]
  refine signs_gate (by simp) (.plain (by simp) fun y => .plain (by simp) fun request => ?_)
  cases request with
  | none => exact signs_of_plain (by simp)
  | some request =>
    refine .plain (by simp) fun y => .plain (by simp) fun account => ?_
    cases account with
    | none => exact signs_of_plain (by simp)
    | some account =>
      dsimp only
      split
      · exact signs_of_plain (by simp)
      · next contactPublicKey _ =>
        cases publicKeyOf head with
        | none => exact signs_of_plain (by simp)
        | some publicKey =>
          have hstatus : Proc.Within Op.IsPlain (getContactStatus request.src) :=
            within_getContactStatus (by simp) (by simp) _
          exact signs_addRequest
            (authored_acceptRequest head x ⟨request, account, contactPublicKey, publicKey⟩)
            fun b => signs_of_plain (by simp [hstatus.safe])

theorem signs_processRejectContact : (processRejectContact s head).Signs s x false := by
  rw [processRejectContact]
  refine signs_gate (by simp) (.plain (by simp) fun y => .plain (by simp) fun request => ?_)
  cases request with
  | none => exact signs_of_plain (by simp)
  | some request =>
    exact signs_addRequest (authored_rejectRequest head x request)
      fun b => signs_of_plain (by simp)

theorem signs_pushKeys (requestId : UInt32) {forward : UBJ.Object} (keys : List UBJ.Value)
    (hnd : (forward.map Prod.fst).Nodup) (hsrc : forward.get "src" = .int32 x)
    {f : Unit → Prog Bool} (hf : (f ()).Signs s x true) :
    (pushKeys s requestId forward keys >>= f).Signs s x true := by
  induction keys generalizing forward with
  | nil => exact hf
  | cons it keys ih =>
    have hnd' := UBJ.Object.nodup_set hnd "key" (it.get "key")
    have hsrc' : (forward.set "key" (it.get "key")).get "src" = .int32 x := by
      rw [UBJ.Object.get_set, if_neg (by decide), hsrc]
    rw [pushKeys, bind_assoc]
    refine .plain (by simp) fun y => ?_
    split
    · exact ih hnd hsrc
    · simp only [bind_assoc]
      refine signs_addRequest ?_ fun b => ?_
      · refine ⟨rfl, Or.inr (Or.inr (Or.inr rfl)), fun h => absurd rfl h, fun _ => ⟨_, rfl, ?_⟩⟩
        rw [get_bsonObjToUbj_ubjToBson hnd', hsrc', viaBson_int32]
      · split <;> rw [bind_assoc]
        · exact .plain (by simp) fun _ => ih hnd' hsrc'
        · exact .plain (by simp) fun _ => ih hnd' hsrc'

theorem signs_processPushRequest : (processPushRequest s head).Signs s x false := by
  rw [processPushRequest]
  refine signs_gate (by simp) ?_
  intro y hy
  obtain rfl : y = x := hy rfl
  refine ⟨true, rfl, ?_⟩
  exact signs_pushKeys s y _ _ (by simp [forwardOf]) (by simp [forwardOf])
    (signs_of_plain (by simp))

end

/-! ## Logins -/

/-- How far a login has got. -/
inductive Entering where
  /-- No password has been verified. -/
  | outside
  /-- The password was that of the account. -/
  | verified
  /-- The session is logged in, but has not taken the account on. -/
  | claimed
  /-- It has. -/
  | inside

/-- What a login may do: it logs the session in after the password was verified, takes the
account on next, and stores nothing. -/
noncomputable def Entering.next (env : Env) (s : SessionId) (head : UBJ.Object) :
    (o : Op) → o.Res → Entering → Option Entering
  | .findAccount q, r, .outside =>
    open Classical in
      if q = { id := some (head.get "account").toInt } ∧ ∃ a, r = .ok (some a) ∧ Verifies env a head
      then some .verified else some .outside
  | .setStatus t st, _, .verified => if t = s ∧ st = .loggedIn then some .claimed else none
  | .setStatus .., _, _ => none
  | .setAccountId t y, _, .claimed =>
    if t = s ∧ y = (head.get "account").toInt then some .inside else none
  | .setAccountId .., _, _ => none
  | .insertRequest _, _, _ => none
  | _, _, m => some m

/-- The program keeps to that, and does not return in between. -/
abbrev Prog.Enters {α : Type} (env : Env) (s : SessionId) (head : UBJ.Object) (p : Prog α)
    (m : Entering) : Prop :=
  Proc.Tracks (fun _ _ => True) (Entering.next env s head) p m fun _ m' => m' ≠ .claimed

/-- The operations that matter to no login. -/
@[simp] def Op.IsBystander : Op → Prop
  | .findAccount _ | .insertRequest _ | .setAccountId .. | .setStatus .. => False
  | _ => True

section

variable {env : Env} {s : SessionId} {head : UBJ.Object} {m : Entering} {α β : Type}

theorem Entering.next_of_bystander {o : Op} (h : o.IsBystander) (r : o.Res) :
    Entering.next env s head o r m = some m := by
  cases o <;> first | rfl | exact h.elim

theorem Prog.Enters.skip {p : Prog α} {f : α → Prog β} (hp : Proc.Within Op.IsBystander p)
    (hf : ∀ a, (f a).Enters env s head m) : (p >>= f).Enters env s head m :=
  Proc.Tracks.skip hp (fun _ r _ h => Entering.next_of_bystander h r) hf

theorem enters_of_bystander {p : Prog α} (hp : Proc.Within Op.IsBystander p)
    (hm : m ≠ .claimed) : p.Enters env s head m :=
  .of_within hp (fun _ r _ h => Entering.next_of_bystander h r) fun _ => hm

/-- A login that has been claimed goes on until the account is taken on. -/
theorem Entering.next_claimed {o : Op} {r : o.Res} {m : Entering}
    (h : Entering.next env s head o r .claimed = some m) :
    m = .claimed ∨ ∃ y, o = .setAccountId s y := by
  cases o with
  | setAccountId t y =>
    rw [Entering.next] at h
    split at h
    · next ht => exact Or.inr ⟨y, by rw [ht.1]⟩
    · cases h
  | setStatus | insertRequest => cases h
  | _ => exact Or.inl (Option.some.inj h).symm

end

section

variable (env : Env) (s : SessionId) (head : UBJ.Object)

theorem bystander_afterLogin (x : UInt32) :
    Proc.Within Op.IsBystander (afterLogin env s head x) := by
  refine (within_afterLogin env s head x).sub fun o ho => ?_
  cases o <;> first | exact trivial | exact ho.elim | exact ho.elim id id

theorem enters_processLogin : (processLogin env s head).Enters env s head .outside := by
  rw [processLogin]
  refine .skip (by simp) fun st => ?_
  split
  · exact enters_of_bystander (by simp) (by simp)
  split
  · exact enters_of_bystander (by simp) (by simp)
  split
  · exact enters_of_bystander (by simp) (by simp)
  intro r _
  -- the account has been looked for, and nothing happens unless the password is its own
  by_cases hr : ∃ a, r = .ok (some a) ∧ Verifies env a head
  · obtain ⟨a, rfl, ha⟩ := hr
    refine ⟨.verified, if_pos ⟨rfl, a, rfl, ha⟩, ?_⟩
    dsimp only [Proc.bind, pure]
    rw [show verifyPassword env a (head.get "password").buffer? = some true from ha]
    refine fun _ _ => ⟨.claimed, if_pos ⟨rfl, rfl⟩, ?_⟩
    refine fun _ _ => ⟨.claimed, rfl, fun _ _ => ⟨.inside, if_pos ⟨rfl, rfl⟩, ?_⟩⟩
    refine fun _ _ => ⟨.inside, rfl, ?_⟩
    have hafter : Prog.Enters env s head (do
        afterLogin env s head (head.get "account").toInt
        return true) .inside :=
      .skip (bystander_afterLogin env s head _) fun _ => by simp
    exact hafter
  · refine ⟨.outside, if_neg fun h => hr h.2, ?_⟩
    cases r with
    | error u => exact enters_of_bystander (by simp) (by simp)
    | ok found =>
      cases found with
      | none => exact enters_of_bystander (by simp) (by simp)
      | some a =>
        dsimp only [Proc.bind, pure]
        split
        · exact enters_of_bystander (by simp) (by simp)
        · exact enters_of_bystander (by simp) (by simp)
        · next ha => exact absurd ⟨a, rfl, ha⟩ hr

end

/-! ## Handlers under way -/

/-- The operations that sign nothing and log nobody in. -/
@[simp] def Op.IsMute : Op → Prop
  | .insertRequest q => q.type = .dispatch
  | .setAccountId .. => False
  | .setStatus _ st => st ≠ .loggedIn
  | _ => True

/-- What is left of a handler under way. -/
inductive ThreadSigns (env : Env) (C : Conc) (t : Thread) : Prop
  /-- It signs nothing. -/
  | mute (h : Proc.Within Op.IsMute t.rest)
  /-- It gives a new session its temporary id. -/
  | connecting {s : SessionId} (he : t.event = .connect s)
      (h : Proc.Within (fun o => o.IsMute ∨ ∃ x, o = .setAccountId s x) t.rest)
      (hst : (C.server.sessions s).status ≠ .loggedIn)
  /-- It signs with the account of its session. -/
  | signing {s : SessionId} {head : UBJ.Object} {told : Bool} (he : t.event = .request s head)
      (hnot : ¬ IsLogin env head) (h : t.rest.Signs s (C.server.sessions s).accountId told)
      (hproved : told = true → ProvedBy env s (C.server.sessions s).accountId C.log)
  /-- It logs its session in. -/
  | entering {s : SessionId} {head : UBJ.Object} {m : Entering} (he : t.event = .request s head)
      (hlogin : IsLogin env head) (h : t.rest.Enters env s head m)
      (hverified : m ≠ .outside → Verified env s head C.log)

/-- The handler of a login is between the two operations that log its session in. -/
def Claiming (env : Env) (C : Conc) (s : SessionId) : Prop :=
  ∃ i head rest, C.thread i = some ⟨.request s head, rest⟩ ∧ IsLogin env head ∧
    Prog.Enters env s head rest .claimed ∧ Verified env s head C.log

/-- Every request that was stored was stored for a session that had proved to be its sender. -/
def Signed (env : Env) : List Entry → Prop
  | [] => True
  | .performed e (.insertRequest q) r :: log =>
    (r = .ok () → q.type = .dispatch ∨ Authored q.src q ∧
      ∃ s head, e = .request s head ∧ ProvedBy env s q.src log) ∧ Signed env log
  | _ :: log => Signed env log

/-- The invariant. -/
structure SigningInv (env : Env) (C : Conc) : Prop where
  sessions : ∀ s, (C.server.sessions s).status = .loggedIn →
    ProvedBy env s (C.server.sessions s).accountId C.log ∨ Claiming env C s
  threads : ∀ i t, C.thread i = some t → ThreadSigns env C t
  signed : Signed env C.log

theorem mute_processFindContactRequest (s : SessionId) (head : UBJ.Object) :
    Proc.Within Op.IsMute (processFindContactRequest s head) := by
  simp [processFindContactRequest]

theorem mute_processContactStatusRequest (s : SessionId) (head : UBJ.Object) :
    Proc.Within Op.IsMute (processContactStatusRequest s head) := by
  have hlist : Proc.Within Op.IsMute (contactStatusList s) :=
    within_contactStatusList (by simp) (by simp) (by simp) s
  simp [processContactStatusRequest, hlist.safe]

section

variable {env : Env} {C : Conc} {i : Nat} {c : Choice} {e : Event} {s : SessionId}

/-- A handler that begins. -/
theorem threadSigns_begin (hr : RegistryOk env C) (henabled : e.Enabled C.server) {C' : Conc}
    (hserver : C'.server = e.note C.server) :
    ThreadSigns env C' ⟨e, e.program env C.server⟩ := by
  have hmute : (∀ o, e.Footprint env o → o.IsMute) →
      ThreadSigns env C' ⟨e, e.program env C.server⟩ :=
    fun h => .mute ((within_program env e C.server).sub h)
  cases e with
  | connect s =>
    refine .connecting rfl ((within_program env (.connect s) C.server).sub fun o ho => ?_) ?_
    · cases o with
      | setAccountId t x =>
        obtain rfl : t = s := ho
        exact Or.inr ⟨x, rfl⟩
      | _ => first | exact Or.inl trivial | exact ho.elim
    · rw [hserver, (sessions_note C.server _ s).2.1, (hr.unstarted s henabled).2.1]
      simp
  | request s head =>
    have hsigns : ∀ {t : RequestType} {p : Prog Bool},
        env.decode (head.get "requestType").toInt = some t → t ≠ .login →
        processIncomingRequest env s head = p → (∀ x, p.Signs s x false) →
        ThreadSigns env C' ⟨.request s head, Event.program env C.server (.request s head)⟩ := by
      rintro t p ht hne rfl hp
      refine .signing rfl (fun hlogin => hne ?_) (hp _) fun h => by cases h
      exact Option.some.inj (ht.symm.trans hlogin)
    cases ht : env.decode (head.get "requestType").toInt with
    | none =>
      refine hmute fun o ho => ?_
      obtain ⟨t, ht', -⟩ := ho
      rw [ht] at ht'
      cases ht'
    | some t =>
      cases t with
      | login =>
        refine .entering rfl ht ?_ fun h => absurd rfl h
        show Prog.Enters env s head (processIncomingRequest env s head) .outside
        rw [processIncomingRequest, ht]
        exact enters_processLogin env s head
      | addContact =>
        exact hsigns ht (by simp) (by rw [processIncomingRequest, ht])
          fun x => signs_processAddContactRequest s x head
      | createAddCode =>
        exact hsigns ht (by simp) (by rw [processIncomingRequest, ht])
          fun x => signs_processCreateAddCode s x head
      | acceptContact =>
        exact hsigns ht (by simp) (by rw [processIncomingRequest, ht])
          fun x => signs_processAcceptContact s x head
      | rejectContact =>
        exact hsigns ht (by simp) (by rw [processIncomingRequest, ht])
          fun x => signs_processRejectContact s x head
      | push =>
        exact hsigns ht (by simp) (by rw [processIncomingRequest, ht])
          fun x => signs_processPushRequest s x head
      | findContact =>
        refine .mute ?_
        show Proc.Within Op.IsMute (processIncomingRequest env s head)
        rw [processIncomingRequest, ht]
        exact mute_processFindContactRequest s head
      | contactStatus =>
        refine .mute ?_
        show Proc.Within Op.IsMute (processIncomingRequest env s head)
        rw [processIncomingRequest, ht]
        exact mute_processContactStatusRequest s head
      | dispatch | createAccount | logout | config =>
        refine hmute fun o ho => ?_
        obtain ⟨t, ht', ho⟩ := ho
        rw [ht] at ht'
        cases ht'
        cases o <;> first
          | exact trivial | exact ho.elim | exact ho | (obtain ⟨-, rfl⟩ := ho; simp)
  | handshake s error =>
    refine hmute fun o ho => ?_
    cases o with
    | setStatus t st =>
      obtain ⟨-, hst⟩ := ho
      exact hst
    | _ => first | exact trivial | exact ho.elim
  | disconnect s =>
    refine hmute fun o ho => ?_
    cases o with
    | setStatus t st =>
      obtain ⟨-, rfl⟩ := ho
      simp
    | _ => first | exact trivial | exact ho.elim
  | removeSessions =>
    refine hmute fun o ho => ?_
    cases o with
    | setStatus t st =>
      obtain rfl : st = .disconnected := ho
      simp
    | _ => first | exact trivial | exact ho.elim
  | userRequests k =>
    refine hmute fun o ho => ?_
    cases o <;> first | exact trivial | exact ho.choose_spec.elim
  | received s id =>
    refine hmute fun o ho => ?_
    cases o <;> first | exact trivial | exact ho.elim | exact ho
  | response | createReceiver | receive | send | timer =>
    refine hmute fun o ho => ?_
    cases o <;> first | exact trivial | exact ho.elim

/-- Nobody but the handler of a session changes its status, unless to end it. -/
theorem status_exec (env : Env) {o : Op} (h : ∀ st, o ≠ .setStatus s st) (c : Choice)
    (σ : ServerState) : ((exec env o c σ).2.sessions s).status = (σ.sessions s).status := by
  refine session_exec Session.status fun f he x => ?_
  cases o <;> simp only [Op.edit, reduceCtorEq] at he <;> grind

/-- A session is logged in only if it was, or is now. -/
theorem loggedIn_of_exec {o : Op} {σ : ServerState}
    (hst : ((exec env o c σ).2.sessions s).status = .loggedIn) (hne : o ≠ .setStatus s .loggedIn) :
    (σ.sessions s).status = .loggedIn := by
  by_cases hset : ∃ st, o = .setStatus s st
  · obtain ⟨st, rfl⟩ := hset
    obtain rfl : st = .loggedIn := by simpa [exec] using hst
    exact absurd rfl hne
  · rwa [status_exec env (fun st ho => hset ⟨st, ho⟩) c σ] at hst

/-- The handler of another session neither logs this one in nor changes its account. -/
theorem RegistryOk.leaves (hr : RegistryOk env C) {o : Op} {k : o.Res → Prog Bool}
    (hthread : C.thread i = some ⟨e, .op o k⟩) (he : e.owner ≠ some s) :
    o ≠ .setStatus s .loggedIn ∧ ∀ x, o ≠ .setAccountId s x := by
  obtain ⟨out, ⟨out', hstep, -⟩, -⟩ := (hr.threads i _ hthread).obeys
  refine ⟨?_, fun x => ?_⟩ <;> rintro rfl <;> simp [discipline, he] at hstep

theorem signingInv_begin (hr : RegistryOk env C) (h : SigningInv env C)
    (henabled : e.Enabled C.server) : SigningInv env
      { C with
        server := e.note C.server
        threads := C.threads ++ [some { event := e, rest := e.program env C.server }] } where
  sessions s hst := by
    obtain ⟨hx, hstatus, -⟩ := sessions_note C.server e s
    rw [hx]
    refine (h.sessions s (hstatus.symm.trans hst)).imp_right ?_
    rintro ⟨i, head, rest, hi, hclaims⟩
    refine ⟨i, head, rest, ?_, hclaims⟩
    show (C.threads ++ [some _]).getD i none = _
    rw [Conc.getD_concat, if_neg (Nat.ne_of_lt (Conc.lt_of_thread hi))]
    exact hi
  threads i t hi := by
    refine Conc.forall_begun (P := fun _ t => ThreadSigns env C t)
      (Q := fun _ t => ThreadSigns env _ t) h.threads (threadSigns_begin hr henabled rfl)
      (fun _ t _ ht => ?_) hi
    cases ht with
    | mute h => exact .mute h
    | connecting he h hst =>
      refine .connecting he h ?_
      rwa [(sessions_note C.server e _).2.1]
    | @signing s head told he hnot h hproved =>
      have hx := (sessions_note C.server e s).1
      exact @ThreadSigns.signing env _ _ s head told he hnot (by rwa [hx]) (by rwa [hx])
    | entering he hlogin h hverified => exact .entering he hlogin h hverified
  signed := h.signed

theorem signingInv_finish (h : SigningInv env C) {b : Bool}
    (hthread : C.thread i = some ⟨e, .ret b⟩) : SigningInv env
      { C with threads := C.threads.set i none, log := .ended e b :: C.log } where
  sessions s hst := by
    rcases h.sessions s hst with hproved | ⟨j, head, rest, hj, hlogin, henters, hverified⟩
    · exact Or.inl (hproved.cons (by simp))
    · -- a handler between the two operations does not return
      have hne : j ≠ i := by
        rintro rfl
        rw [hthread] at hj
        cases hj
        exact henters rfl
      refine Or.inr ⟨j, head, rest, ?_, hlogin, henters, hverified.cons _⟩
      show (C.threads.set i none).getD j none = _
      rw [Conc.getD_set (Conc.lt_of_thread hthread), if_neg hne]
      exact hj
  threads j t hj := by
    refine Conc.forall_finished (P := fun _ t => ThreadSigns env C t)
      (Q := fun _ t => ThreadSigns env _ t) hthread h.threads (fun _ t _ ht => ?_) hj
    cases ht with
    | mute h => exact .mute h
    | connecting he h hst => exact .connecting he h hst
    | signing he hnot h hproved => exact .signing he hnot h fun ht => (hproved ht).cons (by simp)
    | entering he hlogin h hverified =>
      exact .entering he hlogin h fun hm => (hverified hm).cons _
  signed := h.signed

/-- Who logs a session in has verified the password, and takes the account on next. -/
theorem sessions_perform (h : SigningInv env C) {o : Op}
    {k : o.Res → Prog Bool} (hthread : C.thread i = some ⟨e, .op o k⟩)
    (hst : ((exec env o c C.server).2.sessions s).status = .loggedIn) :
    ProvedBy env s ((exec env o c C.server).2.sessions s).accountId
      (C.performed env i c e o k).log ∨ Claiming env (C.performed env i c e o k) s := by
  have hown : (C.performed env i c e o k).thread i = some ⟨e, k (exec env o c C.server).1⟩ := by
    show (C.threads.set i _).getD i none = _
    rw [Conc.getD_set (Conc.lt_of_thread hthread), if_pos rfl]
  by_cases hset : o = .setStatus s .loggedIn
  · subst hset
    cases h.threads i _ hthread with
    | mute h => exact absurd rfl h.1
    | connecting _ h => exact absurd h.1 (by simp)
    | signing _ _ h =>
      obtain ⟨told, hstep, -⟩ := h () trivial
      cases hstep
    | @entering t head m he hlogin h hverified =>
      obtain ⟨m', hstep, hrest⟩ := h () trivial
      cases he
      cases m with
      | verified =>
        rw [Entering.next] at hstep
        split at hstep
        · next hs =>
          obtain rfl := hs.1
          obtain rfl := Option.some.inj hstep
          exact Or.inr ⟨i, _, _, hown, hlogin, hrest, (hverified (by simp)).cons _⟩
        · cases hstep
      | outside | claimed | inside => cases hstep
  have hbefore : (C.server.sessions s).status = .loggedIn := loggedIn_of_exec hst hset
  by_cases hacc : ∃ y, o = .setAccountId s y
  · obtain ⟨y, rfl⟩ := hacc
    cases h.threads i _ hthread with
    | mute h => exact h.1.elim
    | @connecting t _ h hne =>
      rcases h.1 with h | ⟨x, hx⟩
      · exact h.elim
      · cases hx
        exact absurd hbefore hne
    | signing _ _ h =>
      obtain ⟨told, hstep, -⟩ := h () trivial
      cases hstep
    | @entering t head m he hlogin h hverified =>
      obtain ⟨m', hstep, -⟩ := h () trivial
      cases he
      cases m with
      | claimed =>
        rw [Entering.next] at hstep
        split at hstep
        · next hs =>
          obtain ⟨rfl, rfl⟩ := hs
          refine Or.inl ⟨[], head, C.log, ?_, by simp, hlogin, ?_, hverified (by simp)⟩
          · simp [exec]
          · simp [exec]
        · cases hstep
      | outside | verified | inside => cases hstep
  have hx : ((exec env o c C.server).2.sessions s).accountId = (C.server.sessions s).accountId :=
    accountId_exec env (fun x ho => hacc ⟨x, ho⟩) c C.server
  rw [hx]
  rcases h.sessions s hbefore with hproved | ⟨j, head, rest, hj, hlogin, henters, hverified⟩
  · refine Or.inl (hproved.cons fun e' y he => ?_)
    cases he
    exact hacc ⟨y, rfl⟩
  · by_cases hji : j = i
    · subst hji
      cases hthread.symm.trans hj
      obtain ⟨m', hstep, hrest⟩ := henters (exec env o c C.server).1 trivial
      rcases Entering.next_claimed hstep with rfl | hy
      · exact Or.inr ⟨j, head, _, hown, hlogin, hrest, hverified.cons _⟩
      · exact absurd hy hacc
    · refine Or.inr ⟨j, head, rest, ?_, hlogin, henters, hverified.cons _⟩
      show (C.threads.set i _).getD j none = _
      rw [Conc.getD_set (Conc.lt_of_thread hthread), if_neg hji]
      exact hj

/-- The handler that goes on still signs with the account of its session only. -/
theorem threadSigns_own (hr : RegistryOk env C) (h : SigningInv env C) {o : Op}
    {k : o.Res → Prog Bool} (hthread : C.thread i = some ⟨e, .op o k⟩) :
    ThreadSigns env (C.performed env i c e o k) ⟨e, k (exec env o c C.server).1⟩ := by
  cases h.threads i _ hthread with
  | mute h => exact .mute (h.2 _ trivial)
  | @connecting s he h hne =>
    refine .connecting he (h.2 _ trivial) fun hst => hne (loggedIn_of_exec hst ?_)
    rintro rfl
    simp at h
  | @signing s head told he hnot hsigns hproved =>
    have hanswer : ToldOwn s (C.server.sessions s).accountId o (exec env o c C.server).1 := by
      cases o with
      | accountId t =>
        rintro rfl
        rfl
      | _ => exact trivial
    obtain ⟨told', hstep, hrest⟩ := hsigns _ hanswer
    have hacc : ∀ x, o ≠ .setAccountId s x := by
      rintro x rfl
      cases hstep
    have hx : ((exec env o c C.server).2.sessions s).accountId = (C.server.sessions s).accountId :=
      accountId_exec env hacc c C.server
    have hkeep : ProvedBy env s (C.server.sessions s).accountId C.log →
        ProvedBy env s (C.server.sessions s).accountId (C.performed env i c e o k).log :=
      fun hp => hp.cons fun e' y he => by
        cases he
        exact hacc y rfl
    refine @ThreadSigns.signing env _ _ s head told' he hnot ?_ ?_
    · show Prog.Signs s ((exec env o c C.server).2.sessions s).accountId _ told'
      rw [hx]
      exact hrest
    · show told' = true → ProvedBy env s ((exec env o c C.server).2.sessions s).accountId _
      rw [hx]
      intro htold
      by_cases hold : told = true
      · exact hkeep (hproved hold)
      -- it has just been told that its session is logged in
      have hst : (C.server.sessions s).status = .loggedIn := by
        cases o with
        | status t =>
          have hnow := Option.some.inj hstep
          rw [htold] at hnow
          simp only [hold, Bool.false_or, Bool.and_eq_true, beq_iff_eq] at hnow
          rw [← hnow.1]
          exact hnow.2
        | insertRequest q =>
          rw [Signing] at hstep
          split at hstep
          · exact absurd ((Option.some.inj hstep).trans htold) hold
          · cases hstep
        | setStatus t st =>
          rw [Signing] at hstep
          split at hstep
          · cases hstep
          · exact absurd ((Option.some.inj hstep).trans htold) hold
        | setAccountId => cases hstep
        | _ => exact absurd ((Option.some.inj hstep).trans htold) hold
      rcases h.sessions s hst with hp | ⟨j, head', rest, hj, hlogin, -⟩
      · exact hkeep hp
      · obtain rfl : j = i := hr.exclusive j i _ _ s hj hthread rfl (congrArg Event.owner he)
        cases hthread.symm.trans hj
        cases he
        exact absurd hlogin hnot
  | @entering s head m he hlogin h hverified =>
    obtain ⟨m', hstep, hrest⟩ := h (exec env o c C.server).1 trivial
    refine .entering he hlogin hrest fun hm' => ?_
    by_cases hm : m = .outside
    · subst hm
      cases o with
      | findAccount q =>
        rw [Entering.next] at hstep
        split at hstep
        · next hfound =>
          obtain ⟨rfl, a, ha, hverifies⟩ := hfound
          obtain rfl : e = .request s head := he
          refine ⟨a, ?_, hverifies⟩
          rw [← ha]
          exact List.mem_cons_self ..
        · exact absurd (Option.some.inj hstep).symm hm'
      | setStatus | setAccountId | insertRequest => cases hstep
      | _ => exact absurd (Option.some.inj hstep).symm hm'
    · exact (hverified hm).cons _

/-- Nor does it change what the others do. -/
theorem threadSigns_other (hr : RegistryOk env C) {o : Op} {k : o.Res → Prog Bool}
    (hthread : C.thread i = some ⟨e, .op o k⟩) {j : Nat} {t : Thread} (hne : j ≠ i)
    (hj : C.thread j = some t) (ht : ThreadSigns env C t) :
    ThreadSigns env (C.performed env i c e o k) t := by
  have hleaves : ∀ s, t.event.owner = some s →
      o ≠ .setStatus s .loggedIn ∧ ∀ x, o ≠ .setAccountId s x := fun s hs =>
    hr.leaves hthread fun he => hne (hr.exclusive j i t _ s hj hthread hs he)
  cases ht with
  | mute h => exact .mute h
  | @connecting s he h hst =>
    exact .connecting he h fun hst' =>
      hst (loggedIn_of_exec hst' (hleaves s (congrArg Event.owner he)).1)
  | @signing s head told he hnot h hproved =>
    have hacc := (hleaves s (congrArg Event.owner he)).2
    have hx : ((exec env o c C.server).2.sessions s).accountId = (C.server.sessions s).accountId :=
      accountId_exec env hacc c C.server
    refine @ThreadSigns.signing env _ _ s head told he hnot ?_ ?_
    · show Prog.Signs s ((exec env o c C.server).2.sessions s).accountId _ told
      rwa [hx]
    · show told = true → ProvedBy env s ((exec env o c C.server).2.sessions s).accountId _
      rw [hx]
      exact fun htold => (hproved htold).cons fun e' y he => by
        cases he
        exact hacc y rfl
  | entering he hlogin h hverified =>
    exact .entering he hlogin h fun hm => (hverified hm).cons _

/-- What is stored is signed. -/
theorem signed_perform (h : SigningInv env C) {o : Op} {k : o.Res → Prog Bool}
    (hthread : C.thread i = some ⟨e, .op o k⟩) : Signed env (C.performed env i c e o k).log := by
  cases o with
  | insertRequest q =>
    refine ⟨fun _ => ?_, h.signed⟩
    cases h.threads i _ hthread with
    | mute h => exact Or.inl h.1
    | connecting _ h =>
      rcases h.1 with h | ⟨x, hx⟩
      · exact Or.inl h
      · cases hx
    | @signing s head told he _ h hproved =>
      obtain ⟨told', hstep, -⟩ := h (.ok ()) trivial
      rw [Signing] at hstep
      split at hstep
      · next hq =>
        rcases hq with hdispatch | ⟨htold, hauthored⟩
        · exact Or.inl hdispatch
        · have hsrc := hauthored.src
          rw [← hsrc] at hauthored hproved
          exact Or.inr ⟨hauthored, s, head, he, hproved htold⟩
      · cases hstep
    | @entering s head m _ _ h =>
      obtain ⟨m', hstep, -⟩ := h (.ok ()) trivial
      cases m <;> cases hstep
  | _ => exact h.signed

theorem signingInv_step (hr : RegistryOk env C) (h : SigningInv env C) {m : Move} {C' : Conc}
    (hs : C.Step env m C') : SigningInv env C' := by
  cases hs with
  | begin henabled hfree => exact signingInv_begin hr h henabled
  | perform hthread =>
    refine ⟨fun s hst => sessions_perform h hthread hst, fun j t hj => ?_,
      signed_perform h hthread⟩
    exact Conc.forall_performed (P := fun j t => C.thread j = some t ∧ ThreadSigns env C t)
      (Q := fun _ t => ThreadSigns env _ t) hthread (fun j t hjt => ⟨hjt, h.threads j t hjt⟩)
      (fun _ => threadSigns_own hr h hthread)
      (fun j t hne _ ht => threadSigns_other hr hthread hne ht.1 ht.2) hj
  | finish hthread => exact signingInv_finish h hthread

end

/-! ## The store -/

/-- A request that is stored after an operation was stored before, or by the operation. -/
theorem mem_requests_exec (env : Env) {o : Op} {c : Choice} {σ : ServerState} {r : Record}
    (hr : r ∈ (exec env o c σ).2.requests) :
    r ∈ σ.requests ∨ o = .insertRequest r.toRequest ∧ c.fails = false := by
  by_cases hreads : o.Reads
  · rw [exec_of_reads env hreads] at hr
    exact Or.inl hr
  cases o with
  | insertRequest q =>
    cases hf : c.fails with
    | true =>
      simp only [exec, dbCall, hf] at hr
      exact Or.inl hr
    | false =>
      simp only [exec, dbCall, hf] at hr
      rcases List.mem_append.mp hr with hr | hr
      · exact Or.inl hr
      · rw [List.mem_singleton.mp hr]
        exact Or.inr ⟨rfl, rfl⟩
  | removeRequest q =>
    simp only [exec, dbCall] at hr
    split at hr
    · exact Or.inl hr
    · exact Or.inl (List.mem_of_mem_eraseP hr)
  | insertAccount | setFcmToken =>
    simp only [exec, dbCall] at hr
    split at hr <;> exact Or.inl hr
  | addReceiver | addEngineSender | fopenAppend =>
    rw [exec] at hr
    split at hr <;> exact Or.inl hr
  | removeSession s =>
    rw [exec, ServerState.removeSession_eq] at hr
    exact Or.inl hr
  | _ => first | exact Or.inl hr | exact absurd trivial hreads

/-- The account that is found by its id has it. -/
theorem id_of_findAccount {env : Env} {x : UInt32} {c : Choice} {σ : ServerState} {a : Account}
    (h : (exec env (.findAccount { id := some x }) c σ).1 = .ok (some a)) :
    a ∈ σ.accounts ∧ a.id = x := by
  cases hf : c.fails with
  | true => simp [exec, AccountQuery.test, dbCall, hf] at h
  | false =>
    simp only [exec, AccountQuery.test, dbCall, hf] at h
    have hfind := Except.ok.inj h
    refine ⟨List.mem_of_find?_eq_some hfind, ?_⟩
    have htest := List.find?_some hfind
    simp at htest
    exact htest.symm

/-- The store and the accounts, as the log tells of them. -/
structure Recorded (C : Conc) : Prop where
  /-- Every stored request was stored by a handler. -/
  stored : ∀ r ∈ C.server.requests, ∃ e, .performed e (.insertRequest r.toRequest) (.ok ()) ∈ C.log
  /-- An account that a handler was given is there, with its password. -/
  found : ∀ e x a, .performed e (.findAccount { id := some x }) (.ok (some a)) ∈ C.log →
    (x, a.pass, a.salt) ∈ C.server.credentials

theorem recorded_step {env : Env} {C C' : Conc} {m : Move} (h : Recorded C)
    (hs : C.Step env m C') : Recorded C' := by
  cases hs with
  | @begin e =>
    have hsame : (e.note C.server).requests = C.server.requests ∧
        (e.note C.server).credentials = C.server.credentials := by
      cases e <;> exact ⟨rfl, rfl⟩
    refine ⟨fun r hr => h.stored r ?_, fun e' x a hmem => ?_⟩
    · rwa [hsame.1] at hr
    · show _ ∈ (e.note C.server).credentials
      rw [hsame.2]
      exact h.found e' x a hmem
  | @perform i c e o k hthread =>
    refine ⟨fun r hr => ?_, fun e' x a hmem => ?_⟩
    · rcases mem_requests_exec env hr with hold | ⟨rfl, hf⟩
      · obtain ⟨e', hmem⟩ := h.stored r hold
        exact ⟨e', List.mem_cons_of_mem _ hmem⟩
      · refine ⟨e, ?_⟩
        simp [exec, dbCall, hf]
    · have hkept : C.server.credentials <+: (exec env o c C.server).2.credentials :=
        map_accounts_exec (fun _ _ => rfl) env o c C.server
      generalize hanswer : (exec env o c C.server).1 = r at hmem
      rcases List.mem_cons.mp hmem with hnow | hbefore
      · cases hnow
        obtain ⟨ha, rfl⟩ := id_of_findAccount hanswer
        exact hkept.subset (List.mem_map.mpr ⟨a, ha, rfl⟩)
      · exact hkept.subset (h.found e' x a hbefore)
  | @finish i c e b hthread =>
    refine ⟨fun r hr => ?_, fun e' x a hmem => ?_⟩
    · obtain ⟨e', hmem⟩ := h.stored r hr
      exact ⟨e', List.mem_cons_of_mem _ hmem⟩
    · exact h.found e' x a ((List.mem_cons.mp hmem).resolve_left (by simp))

/-! ## Sender authenticity -/

/-- The request was stored by a handler of a session that last took on the account it names as
its sender, in a login whose password is that of the account. -/
def Conc.Vouches (env : Env) (C : Conc) (q : Request) : Prop :=
  ∃ later s head between login earlier,
    C.log = later ++ .performed (.request s head) (.insertRequest q) (.ok ()) ::
      (between ++ .performed (.request s login) (.setAccountId s q.src) () :: earlier) ∧
    (∀ e y, .performed e (.setAccountId s y) () ∉ between) ∧
    IsLogin env login ∧ (login.get "account").toInt = q.src ∧
    ∃ a ∈ C.server.accounts, a.id = q.src ∧ Verifies env a login

/-- What the log says of one request. -/
theorem Signed.split {env : Env} {log later earlier : List Entry} (h : Signed env log) {e : Event}
    {q : Request} (hlog : log = later ++ .performed e (.insertRequest q) (.ok ()) :: earlier) :
    q.type = .dispatch ∨ Authored q.src q ∧
      ∃ s head, e = .request s head ∧ ProvedBy env s q.src earlier := by
  subst hlog
  induction later with
  | nil => exact h.1 rfl
  | cons x later ih =>
    refine ih ?_
    cases x with
    | ended => exact h
    | performed e o r =>
      cases o with
      | insertRequest => exact h.2
      | _ => exact h

theorem signingInv_init {env : Env} : SigningInv env {} where
  sessions s hst := by cases hst
  threads i t hi := by cases hi
  signed := trivial

theorem recorded_init : Recorded {} where
  stored r hr := by cases hr
  found e x a hmem := by cases hmem

theorem signingInv_afterMoves (env : Env) (ms : List Move) :
    RegistryOk env (afterMoves env ms) ∧ SigningInv env (afterMoves env ms) ∧
      Recorded (afterMoves env ms) := by
  refine Conc.invariant_afterMoves (R := fun _ => True)
    (P := fun C => RegistryOk env C ∧ SigningInv env C ∧ Recorded C)
    ⟨registryOk_init, signingInv_init, recorded_init⟩ ?_ fun _ _ => trivial
  rintro C m C' - hs ⟨hr, h, hrec⟩
  exact ⟨registryOk_step hr hs, signingInv_step hr h hs, recorded_step hrec hs⟩

/-- **Sender authenticity, whatever is interleaved.**  However the operations of the handlers
follow each other, every stored contact request, answer and push is what a session stored in the
name of the account that it had logged in to, with that account's password, and had not changed
since; and a push carries the same sender inside. -/
theorem authentic_afterMoves (env : Env) (ms : List Move) {r : Record}
    (hr : r ∈ (afterMoves env ms).server.requests) (htype : r.type ≠ .dispatch) :
    Authored r.src r.toRequest ∧ (afterMoves env ms).Vouches env r.toRequest := by
  obtain ⟨-, hsigning, hrecorded⟩ := signingInv_afterMoves env ms
  obtain ⟨e, hmem⟩ := hrecorded.stored r hr
  obtain ⟨later, rest, hlog⟩ := List.append_of_mem hmem
  rcases hsigning.signed.split hlog with hdispatch | ⟨hauthored, s, head, rfl, hproved⟩
  · exact absurd hdispatch htype
  refine ⟨hauthored, ?_⟩
  obtain ⟨between, login, earlier, rfl, hnone, hlogin, hx, a, hfound, hverifies⟩ := hproved
  refine ⟨later, s, head, between, login, earlier, hlog, hnone, hlogin, hx, ?_⟩
  -- the account that the login was given is still there, with the same password
  have hin : Entry.performed (.request s login)
      (.findAccount { id := some (login.get "account").toInt }) (.ok (some a)) ∈
      (afterMoves env ms).log := by
    rw [hlog]
    simp [hfound]
  obtain ⟨a', ha', hcredentials⟩ := List.mem_map.mp (hrecorded.found _ _ _ hin)
  obtain ⟨hid, hpass, hsalt⟩ : a'.id = (login.get "account").toInt ∧ a'.pass = a.pass ∧
      a'.salt = a.salt := by
    simpa [Account.credentials] using hcredentials
  refine ⟨a', ha', hid.trans hx, ?_⟩
  rw [Verifies, verifyPassword, hpass, hsalt]
  exact hverifies

theorem authentic_afterMoves_push : ∃ r ∈ (afterMoves sampleEnv pushMoves).server.requests,
    r.type = .push ∧ Authored r.src r.toRequest ∧
      (afterMoves sampleEnv pushMoves).Vouches sampleEnv r.toRequest := by
  have hany : (afterMoves sampleEnv pushMoves).server.requests.any (·.type = .push) = true := by
    decide +kernel
  obtain ⟨r, hr, hpush⟩ := List.any_eq_true.mp hany
  have htype : r.type = .push := of_decide_eq_true hpush
  exact ⟨r, hr, htype, authentic_afterMoves sampleEnv pushMoves hr (by rw [htype]; decide)⟩

end ZwayServer
