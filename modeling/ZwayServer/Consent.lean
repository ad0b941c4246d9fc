import ZwayServer.Restarts

/-!
# Who can be asked

A client that wants an account as a contact must find it: by its name, if the account may be
found by name, or by an add code.  So an account that is hidden is asked by nobody who has not
been given a code of its own.

* `MayAsk` — how a handler has found the account that a contact request goes to.
* `licensed_asking` — every handler that stores a contact request has found it so.
* `asked_with_consent` — every stored contact request goes to an account that can be found by
  name, or in whose name the add code was stored before.
* `SearchInv` — what a search under way has read of its session's account is still so.
* `search_reveals` — a search shows the names of accounts that can be found by name, and no more.
-/

namespace ZwayServer

open ClientSession

/-! ## Finding an account -/

/-- The handler has found the account `x`, to which it sends the contact request `a`. -/
inductive MayAsk (e : Event) (a : Request) (x : UInt32) (Seen : (o : Op) → o.Res → Prop) : Prop
  /-- By its name. -/
  | listed {label : String} {c : Account}
      (hfound : Seen (.findAccount { name := some label, findByName := some true }) (.ok (some c)))
      (hx : c.id = x)
  /-- By an add code. -/
  | coded {code : String} {r : Record} {c : Account} (hne : code ≠ "")
      (hcode : a.addCode = some code)
      (hread : Seen (.findRequest { type := some .addContact, addCode := some code })
        (.ok (some r)))
      (hfound : Seen (.findAccount { id := some r.src }) (.ok (some c))) (hx : c.id = x)

theorem MayAsk.mono {e : Event} {a : Request} {x : UInt32} {Seen Seen' : (o : Op) → o.Res → Prop}
    (h : MayAsk e a x Seen) (hsub : ∀ o r, Seen o r → Seen' o r) : MayAsk e a x Seen' := by
  cases h with
  | listed hfound hx => exact .listed (hsub _ _ hfound) hx
  | coded hne hcode hread hfound hx =>
    exact .coded hne hcode (hsub _ _ hread) (hsub _ _ hfound) hx

/-- The licence to store a contact request; nothing else needs one. -/
def AskingLicence (e : Event) (o : Op) (past : Proc.Past Op Op.Res) : Prop :=
  ∀ a x, o = .insertRequest a → a.type = .addContact → a.dst = some x →
    MayAsk e a x fun o r => ⟨o, r⟩ ∈ past

/-- The operations that store no contact request. -/
@[simp] def Op.Unasking : Op → Prop
  | .insertRequest a => a.type = .addContact → a.dst = none
  | _ => True

section

variable {env : Env} {e : Event} {past : Proc.Past Op Op.Res} {α β : Type}

theorem licence_of_unasking (o : Op) (past : Proc.Past Op Op.Res) (ho : o.Unasking) :
    AskingLicence e o past := by
  rintro a x rfl htype hdst
  rw [show a.dst = none from ho htype] at hdst
  cases hdst

/-- A part that asks nobody comes first. -/
theorem asking_skip {p : Prog α} {f : α → Prog β} {Q : β → Proc.Past Op Op.Res → Prop}
    (hp : Proc.Within Op.Unasking p)
    (hf : ∀ a past', past ⊆ past' → Proc.Licensed (AskingLicence e) (f a) past' Q) :
    Proc.Licensed (AskingLicence e) (p >>= f) past Q :=
  .skip hp licence_of_unasking hf

/-- A part that asks nobody comes last. -/
theorem asking_last {p : Prog α} (hp : Proc.Within Op.Unasking p) :
    Proc.Licensed (AskingLicence e) p past fun _ _ => True :=
  .of_within hp licence_of_unasking fun _ _ _ => trivial

/-- An account is looked up. -/
theorem asking_getAccount {q : AccountQuery} {f : Option Account → Prog β}
    (hnone : Proc.Within Op.Unasking (f none))
    (hsome : ∀ c, Proc.Licensed (AskingLicence e) (f (some c))
      (⟨.findAccount q, .ok (some c)⟩ :: past) fun _ _ => True) :
    Proc.Licensed (AskingLicence e) (DB.getAccount q >>= f) past fun _ _ => True := by
  refine ⟨licence_of_unasking _ _ trivial, fun answer => ?_⟩
  rcases answer with u | (_ | c)
  · exact asking_last hnone
  · exact asking_last hnone
  · exact hsome c

/-- A request is looked up. -/
theorem asking_getRequest {q : RequestQuery} {f : Option Record → Prog β}
    (hnone : Proc.Within Op.Unasking (f none))
    (hsome : ∀ r, Proc.Licensed (AskingLicence e) (f (some r))
      (⟨.findRequest q, .ok (some r)⟩ :: past) fun _ _ => True) :
    Proc.Licensed (AskingLicence e) (DB.getRequest q >>= f) past fun _ _ => True := by
  refine ⟨licence_of_unasking _ _ trivial, fun answer => ?_⟩
  rcases answer with u | (_ | r)
  · exact asking_last hnone
  · exact asking_last hnone
  · exact hsome r

/-- A contact request is stored, and nobody is asked after that. -/
theorem asking_addRequest {a : Request} {x : UInt32} {f : Bool → Prog β} (hdst : a.dst = some x)
    (hmay : MayAsk e a x fun o r => ⟨o, r⟩ ∈ past) (hf : ∀ b, Proc.Within Op.Unasking (f b)) :
    Proc.Licensed (AskingLicence e) (DB.addRequest a >>= f) past fun _ _ => True := by
  refine ⟨?_, fun answer => ?_⟩
  · rintro a' x' h htype hdst'
    obtain rfl := Op.insertRequest.inj h
    obtain rfl := Option.some.inj (hdst.symm.trans hdst')
    exact hmay
  · cases answer with
    | ok u => exact asking_last (hf true)
    | error u => exact asking_last (hf true)

end

section

variable {env : Env} {s : SessionId} {head : UBJ.Object} {past : Proc.Past Op Op.Res}

/-- The contact request goes to the account that is found. -/
theorem asking_addContactTo (account : Account) {q : AccountQuery} {e : Event}
    (hmay : ∀ (c : Account) (a : Request) (past' : Proc.Past Op Op.Res), past ⊆ past' →
      ⟨.findAccount q, .ok (some c)⟩ ∈ past' → a.addCode = some (head.get "addCode").toStr →
      MayAsk e a c.id fun o r => ⟨o, r⟩ ∈ past') :
    Proc.Licensed (AskingLicence e) (addContactTo s head account q) past fun _ _ => True := by
  rw [addContactTo]
  refine asking_getAccount (by simp) fun contact => ?_
  refine asking_skip (by simp) fun y past₁ hpast₁ => ?_
  split
  · exact asking_last (by simp)
  refine asking_skip (by simp) fun z past₂ hpast₂ => ?_
  refine asking_skip (by simp) fun pending past₃ hpast₃ => ?_
  split
  · exact asking_last (by simp)
  cases publicKeyOf head with
  | none => exact asking_last (by simp)
  | some publicKey =>
    refine asking_skip (by simp) fun x past₄ hpast₄ => ?_
    have hall : ⟨.findAccount q, .ok (some contact)⟩ :: past ⊆ past₄ := fun y hy =>
      hpast₄ (hpast₃ (hpast₂ (hpast₁ hy)))
    refine asking_addRequest rfl ?_ fun b => by cases b <;> simp
    exact hmay contact _ past₄ (fun y hy => hall (List.mem_cons_of_mem _ hy))
      (hall (List.mem_cons_self ..)) rfl

theorem asking_processAddContactRequest {e : Event} :
    Proc.Licensed (AskingLicence e) (processAddContactRequest s head) past fun _ _ => True := by
  rw [processAddContactRequest]
  refine asking_skip (by simp) fun st past _ => ?_
  dsimp only
  split
  · exact asking_last (by simp)
  refine asking_skip (by simp) fun x past _ => ?_
  refine asking_skip (by simp) fun account past _ => ?_
  cases account with
  | none => exact asking_last (by simp)
  | some account =>
    dsimp only
    split
    · next hne =>
      refine asking_getRequest (by simp) fun r => ?_
      refine asking_addContactTo account fun c a past' hsub hfound hcode => ?_
      exact .coded hne hcode (hsub (List.mem_cons_self ..)) hfound rfl
    split
    · exact asking_last (by simp)
    · exact asking_addContactTo account fun c a past' _ hfound _ => .listed hfound rfl

/-- **Asking by handlers.** -/
theorem licensed_asking (env : Env) (e : Event) (σ : ServerState) :
    Proc.Licensed (AskingLicence e) (e.program env σ) [] fun _ _ => True := by
  have hfootprint : (∀ o, e.Footprint env o → o.Unasking) →
      Proc.Licensed (AskingLicence e) (e.program env σ) [] fun _ _ => True :=
    fun hsub => asking_last ((within_program env e σ).sub hsub)
  cases e with
  | request s head =>
    by_cases ht : env.decode (head.get "requestType").toInt = some .addContact
    · show Proc.Licensed _ (processIncomingRequest env s head) _ _
      simp only [processIncomingRequest, ht]
      exact asking_processAddContactRequest
    · refine hfootprint ?_
      rintro o ⟨t, htype, ho⟩
      cases o with
      | insertRequest a =>
        intro hask
        cases t <;> simp_all
      | _ => trivial
  | received s id =>
    refine hfootprint fun o ho => ?_
    cases o with
    | insertRequest a =>
      intro hask
      rw [show a.type = .dispatch from ho] at hask
      cases hask
    | _ => trivial
  | _ =>
    refine hfootprint fun o ho => ?_
    cases o with
    | insertRequest a => first | exact ho.elim | exact ho.elim fun _ => False.elim
    | _ => trivial

end

/-! ## What the answers say -/

section

variable {env : Env} {log : List Entry}

/-- A record that is stored was stored by some handler. -/
theorem inserted_of_replay {r : Record} (hr : r ∈ (replay log).requests) : ∃ later e u earlier,
    log = later ++ .performed e (.insertRequest r.toRequest) (.ok u) :: earlier := by
  induction log with
  | nil => cases hr
  | cons x log ih =>
    have hbefore : r ∈ (replay log).requests → ∃ later e u earlier,
        x :: log = later ++ .performed e (.insertRequest r.toRequest) (.ok u) :: earlier := by
      intro hr
      obtain ⟨later, e, u, earlier, hlog⟩ := ih hr
      exact ⟨x :: later, e, u, earlier, by rw [hlog]; rfl⟩
    rw [replay] at hr
    unfold Entry.redo at hr
    split at hr
    · next e q u =>
      rcases List.mem_append.mp hr with hr | hr
      · exact hbefore hr
      · obtain rfl := List.mem_singleton.mp hr
        exact ⟨[], e, u, log, rfl⟩
    · exact hbefore (List.mem_of_mem_eraseP hr)
    all_goals exact hbefore hr

/-- What stays of an account, but for its token. -/
theorem accounts_replay {β : Type} {f : Account → β}
    (hf : ∀ a token, f { a with fcmToken := token } = f a) (since before : List Entry) :
    (replay before).accounts.map f <+: (replay (since ++ before)).accounts.map f := by
  induction since with
  | nil => exact List.prefix_rfl
  | cons x since ih =>
    refine ih.trans ?_
    show _ <+: (x.redo (replay (since ++ before))).accounts.map f
    unfold Entry.redo
    split
    · exact List.prefix_rfl
    · exact List.prefix_rfl
    · simp [ServerState.insertAccount]
    · rw [map_replaceF_token hf]
    · exact List.prefix_rfl

/-- The earlier answers are honest as well. -/
theorem Honest.earlier {since : List Entry} (h : Honest env (since ++ log)) : Honest env log := by
  have htail : ∀ {x : Entry} {log : List Entry}, Honest env (x :: log) → Honest env log := by
    intro x log h
    unfold Honest at h
    split at h
    · next he => cases he
    · next he => cases he; exact h.2
    · next he => cases he; exact h.2
    · next he => cases he; exact h.2
    · next he => cases he; exact h
  induction since with
  | nil => exact h
  | cons x since ih => exact ih (htail h)

/-- A request that was found had been stored. -/
theorem Honest.found_request (h : Honest env log) {e : Event} {q : RequestQuery} {r : Record}
    (hread : .performed e (.findRequest q) (.ok (some r)) ∈ log) :
    q.matches r = true ∧ ∃ e' u, .performed e' (.insertRequest r.toRequest) (.ok u) ∈ log := by
  obtain ⟨later, earlier, rfl⟩ := List.append_of_mem hread
  have hfound : some r = (replay earlier).requests.find? q.matches := h.earlier.1
  have hmem := List.mem_of_find?_eq_some hfound.symm
  obtain ⟨later', e', u, earlier', rfl⟩ := inserted_of_replay hmem
  exact ⟨List.find?_some hfound.symm, e', u, by simp⟩

/-- An account that was found is still there. -/
theorem Honest.found_account (h : Honest env log) {e : Event} {q : AccountQuery} {c : Account}
    (hread : .performed e (.findAccount q) (.ok (some c)) ∈ log) :
    (∃ p, q.test env = some p ∧ p c = true) ∧
      ∃ a ∈ (replay log).accounts, a.id = c.id ∧ a.findByName = c.findByName := by
  obtain ⟨later, earlier, rfl⟩ := List.append_of_mem hread
  obtain ⟨p, hp, hfound⟩ := h.earlier.1
  refine ⟨⟨p, hp, List.find?_some hfound.symm⟩, ?_⟩
  have hkept := accounts_replay (f := fun a => (a.id, a.findByName)) (fun _ _ => rfl)
    (later ++ [.performed e (.findAccount q) (.ok (some c))]) earlier
  rw [List.append_assoc, List.singleton_append] at hkept
  have hmem := hkept.subset (List.mem_map.mpr ⟨c, List.mem_of_find?_eq_some hfound.symm, rfl⟩)
  obtain ⟨a, ha, hsame⟩ := List.mem_map.mp hmem
  obtain ⟨hid, hname⟩ := Prod.mk.inj hsame
  exact ⟨a, ha, hid, hname⟩

end

/-- So are the accounts that were searched. -/
theorem Honest.found_accounts (h : Honest env log) {e : Event} {q : AccountQuery} {limit : ℕ}
    {answer : CursorAnswer Account}
    (hread : .performed e (.findAccounts q limit) answer ∈ log) :
    (CursorAnswer.docs answer).length ≤ limit ∧ ∀ a ∈ CursorAnswer.docs answer,
      (∃ p, q.test env = some p ∧ p a = true) ∧ ∃ b ∈ (replay log).accounts,
        b.id = a.id ∧ b.name = a.name ∧ b.findByName = a.findByName := by
  obtain ⟨later, earlier, rfl⟩ := List.append_of_mem hread
  rcases h.earlier.1 with hnone | ⟨p, hp, hpre⟩
  · rw [hnone]
    exact ⟨Nat.zero_le _, fun a ha => by cases ha⟩
  refine ⟨hpre.length_le.trans (List.length_take_le ..), fun a ha => ?_⟩
  obtain ⟨hmem, hpa⟩ := List.mem_filter.mp (List.mem_of_mem_take (hpre.subset ha))
  refine ⟨⟨p, hp, hpa⟩, ?_⟩
  have hkept := accounts_replay (f := fun a => (a.id, a.name, a.findByName)) (fun _ _ => rfl)
    (later ++ [.performed e (.findAccounts q limit) answer]) earlier
  rw [List.append_assoc, List.singleton_append] at hkept
  obtain ⟨b, hb, hsame⟩ := List.mem_map.mp (hkept.subset (List.mem_map.mpr ⟨a, hmem, rfl⟩))
  simp only [Prod.mk.injEq] at hsame
  exact ⟨b, hb, hsame⟩

/-! ## Consent -/

/-- **Nobody is asked who does not want to be.**  In every life, a stored contact request to the
account `x` goes to an account that may be found by name; or it names an add code that had been
stored before in the name of `x`. -/
theorem asked_with_consent (env : Env) (xs : List Incident) {r : Record}
    (hr : r ∈ (life env xs).server.requests) (htype : r.type = .addContact) {x : UInt32}
    (hx : r.dst = some x) :
    (∃ a ∈ (life env xs).server.accounts, a.id = x ∧ a.findByName = true) ∨
      ∃ code q since e u before, code ≠ "" ∧ r.addCode = some code ∧
        (life env xs).log = since ++ .performed e (.insertRequest r.toRequest) (.ok u) :: before ∧
        (∃ e' u', .performed e' (.insertRequest q) (.ok u') ∈ before) ∧
        q.type = .addContact ∧ q.src = x ∧ q.addCode = some code := by
  rw [(sameCollections_life xs).requests] at hr
  rw [(sameCollections_life xs).accounts]
  obtain ⟨since, e, u, before, hlog⟩ := inserted_of_replay hr
  have hhonest := honest_life env xs
  obtain ⟨past, hin, hlicence⟩ := (licensed_life (licensed_asking env) xs).performed hlog
  have hmay : MayAsk e r.toRequest x fun o r => .performed e o r ∈ before :=
    (hlicence r.toRequest x rfl htype hx).mono fun o r hseen => hin ⟨o, r⟩ hseen
  have hbefore : Honest env before := by
    have hlast : Honest env (.performed e (.insertRequest r.toRequest) (.ok u) :: before) := by
      rw [hlog] at hhonest
      exact hhonest.earlier
    exact hlast
  cases hmay with
  | @listed label c hfound hid =>
    have hinlog : .performed e (.findAccount { name := some label, findByName := some true })
        (.ok (some c)) ∈ (life env xs).log := by
      rw [hlog]
      exact List.mem_append_right _ (List.mem_cons_of_mem _ hfound)
    obtain ⟨⟨p, hp, hpc⟩, a, ha, haid, haname⟩ := hhonest.found_account hinlog
    obtain rfl := Option.some.inj hp
    have hname : c.findByName = true := by
      simp only [Option.all_some, Option.all_none, Bool.true_and, Bool.and_eq_true,
        beq_iff_eq] at hpc
      exact hpc.2.symm
    exact Or.inl ⟨a, ha, haid.trans hid, haname.trans hname⟩
  | @coded code r' c hne hcode hread hfound hid =>
    obtain ⟨⟨p, hp, hpc⟩, -⟩ := hbefore.found_account hfound
    obtain rfl := Option.some.inj hp
    have hsrc : r'.src = c.id := by simpa using hpc
    obtain ⟨hmatch, e', u', hstored⟩ := hbefore.found_request hread
    obtain ⟨-, ht, -, -, hc, -⟩ := RequestQuery.matches_iff.mp hmatch
    exact Or.inr ⟨code, r'.toRequest, since, e, u, before, hne, hcode, hlog, ⟨e', u', hstored⟩,
      ht _ rfl, hsrc.trans hid, hc _ rfl⟩

/-- The hidden account 1 makes an add code, and the account 2 uses it. -/
def askedByCode : List Incident :=
  oneByOne (([
    sampleStep 1 (sampleRequest .addContact 8 [("addCode", .string "00000000"), sampleKey]),
    sampleStep 0 (sampleRequest .createAddCode 7 [sampleKey])] ++
      (sampleJoin 1 "b" 2 ++ sampleJoin 0 "a" 1)).map Act.event)

theorem asked_with_consent_code : ∃ r ∈ (life sampleEnv askedByCode).server.requests,
    ∃ code q since e u before, code ≠ "" ∧ r.addCode = some code ∧
      (life sampleEnv askedByCode).log =
        since ++ .performed e (.insertRequest r.toRequest) (.ok u) :: before ∧
      (∃ e' u', .performed e' (.insertRequest q) (.ok u') ∈ before) ∧
      q.type = .addContact ∧ q.src = 1 ∧ q.addCode = some code := by
  have hany : (life sampleEnv askedByCode).server.requests.any (fun r =>
      decide (r.type = .addContact ∧ r.dst = some 1)) = true := by decide +kernel
  have hhidden : (life sampleEnv askedByCode).server.accounts.all
      (fun a => decide (a.findByName = false)) = true := by decide +kernel
  obtain ⟨r, hr, hasks⟩ := List.any_eq_true.mp hany
  obtain ⟨htype, hdst⟩ := of_decide_eq_true hasks
  refine ⟨r, hr, ?_⟩
  rcases asked_with_consent sampleEnv askedByCode hr htype hdst with ⟨a, ha, -, hname⟩ | hcode
  · have hfalse := of_decide_eq_true (List.all_eq_true.mp hhidden a ha)
    rw [hfalse] at hname
    cases hname
  · exact hcode

/-! ## What a search reveals -/

/-- An account as a search shows it. -/
def shown (a : Account) : UBJ.Value := .object [("_id", .null), ("name", .string a.name)]

/-- The accounts that a search of the account `x` asks for. -/
def searchQuery (head : UBJ.Object) (x : UInt32) : AccountQuery :=
  { nameRegex := some ((head.get "query").toObject.get "subject").toStr, idNe := some x,
    findByName := some true }

/-- It finds neither `x` itself nor a hidden account. -/
theorem test_searchQuery {env : Env} {head : UBJ.Object} {x : UInt32} {p : Account → Bool}
    (hp : (searchQuery head x).test env = some p) {a : Account} (ha : p a = true) :
    a.id ≠ x ∧ a.findByName = true := by
  obtain ⟨m, -, rfl⟩ := Option.map_eq_some_iff.mp hp
  simp only [searchQuery, Option.all_some, Option.all_none, Bool.true_and, Bool.and_true,
    Bool.and_eq_true, bne_iff_ne, beq_iff_eq] at ha
  exact ⟨Ne.symm ha.1.1, ha.1.2.symm⟩

/-- The licence for the answer to a search. -/
def ShowingLicence (env : Env) (e : Event) (o : Op) (past : Proc.Past Op Op.Res) : Prop :=
  ∀ s head id data, e = .request s head →
    env.decode (head.get "requestType").toInt = some .findContact →
    o = .respond s (.success id data) → ∃ as : List Account,
      data = [("result", .array (as.map shown))] ∧ (as = [] ∨ ∃ x, ⟨.accountId s, x⟩ ∈ past ∧
        ∃ answer, ⟨.findAccounts (searchQuery head x) 50, answer⟩ ∈ past ∧
          as = CursorAnswer.docs answer)

section

variable {env : Env} {s : SessionId} {head : UBJ.Object}

theorem bsonArrToUbj_shown (as : List Account) :
    bsonArrToUbj (as.map fun a => ("", .object [("_id", .eoo), ("name", .string a.name)])) =
      as.map shown := by
  have hfields (d : Bson.Doc) : bsonArrToUbj d = d.map fun f => bsonToUbj f.2 := by
    rw [bsonArrToUbj]
    induction d with
    | nil => simp [bsonFieldsToUbj]
    | cons f d ih => simp [bsonFieldsToUbj, ih]
  rw [hfields, List.map_map]
  refine List.map_congr_left fun a _ => ?_
  simp [shown, bsonToUbj, bsonFieldsToUbj, UBJ.Object.set]

/-- An event that is no search. -/
theorem showing_of_ne {e : Event} {p : Prog Bool} {past : Proc.Past Op Op.Res}
    (h : ∀ s head, e = .request s head →
      env.decode (head.get "requestType").toInt ≠ some .findContact) :
    Proc.Licensed (ShowingLicence env e) p past fun _ _ => True := by
  have hall : Proc.Within (fun _ => True) p := by
    induction p with
    | ret b => trivial
    | op o k ih => exact ⟨trivial, fun r _ => ih r⟩
  exact .of_within hall (fun o past _ s head id data he ht => absurd ht (h s head he))
    fun _ _ _ => trivial

/-- An operation that reports no success. -/
theorem showing_of_silent {e : Event} {o : Op} {past : Proc.Past Op Op.Res}
    (h : ∀ s id data, o ≠ .respond s (.success id data)) : ShowingLicence env e o past :=
  fun s _ id data _ _ ho => absurd ho (h s id data)

theorem licensed_processFindContactRequest :
    Proc.Licensed (ShowingLicence env (.request s head)) (processFindContactRequest s head) []
      fun _ _ => True := by
  -- the answer to a search that found `as`
  have hanswer : ∀ {past : Proc.Past Op Op.Res} (as : List Account),
      (as = [] ∨ ∃ x, ⟨.accountId s, x⟩ ∈ past ∧
        ∃ answer, ⟨.findAccounts (searchQuery head x) 50, answer⟩ ∈ past ∧
          as = CursorAnswer.docs answer) →
      Proc.Licensed (ShowingLicence env (.request s head)) (do
        postRequestSuccess s (head.get "requestId").toInt [("result", .array (bsonArrToUbj
          (as.map fun a => ("", .object [("_id", .eoo), ("name", .string a.name)]))))]
        return true) past fun _ _ => True := by
    intro past as has
    refine ⟨?_, fun _ => trivial⟩
    rintro s' head' id data he - ho
    cases he
    cases ho
    exact ⟨as, by rw [bsonArrToUbj_shown], has⟩
  have hfail : ∀ {past : Proc.Past Op Op.Res} (text : String),
      Proc.Licensed (ShowingLicence env (.request s head)) (do
        postRequestFailure s (head.get "requestId").toInt 0 text
        return false) past fun _ _ => True :=
    fun text => ⟨showing_of_silent (by simp), fun _ => trivial⟩
  rw [processFindContactRequest]
  refine ⟨showing_of_silent (by simp), fun st => ?_⟩
  show Proc.Licensed _ (ite _ _ _) _ _
  split
  · exact hfail _
  split
  · exact hfail _
  dsimp only
  split
  · refine ⟨showing_of_silent (by simp), fun x => ⟨showing_of_silent (by simp), fun answer => ?_⟩⟩
    cases answer with
    | error as | ok as =>
      exact hanswer as (Or.inr ⟨x, List.mem_cons_of_mem _ (List.mem_cons_self ..), _,
        List.mem_cons_self .., rfl⟩)
  · exact hanswer [] (Or.inl rfl)

/-- **Answers to searches.** -/
theorem licensed_showing (env : Env) (e : Event) (σ : ServerState) :
    Proc.Licensed (ShowingLicence env e) (e.program env σ) [] fun _ _ => True := by
  by_cases he : ∃ s head, e = .request s head ∧
      env.decode (head.get "requestType").toInt = some .findContact
  · obtain ⟨s, head, rfl, ht⟩ := he
    show Proc.Licensed _ (processIncomingRequest env s head) _ _
    simp only [processIncomingRequest, ht]
    exact licensed_processFindContactRequest
  · exact showing_of_ne fun s head hev ht => he ⟨s, head, hev, ht⟩

end

/-! ## Searches under way -/

section

variable {env : Env} {C : Conc}

/-- A handler under way: if it searches, the account that it has read is still the account of its
session. -/
structure Searching (env : Env) (C : Conc) (t : Thread) : Prop where
  within : Proc.Within (t.event.Footprint env) t.rest
  past : ∀ s head, t.event = .request s head →
    env.decode (head.get "requestType").toInt = some .findContact →
    ∃ past, InLog t.event past C.log ∧
      Proc.Licensed (ShowingLicence env t.event) t.rest past (fun _ _ => True) ∧
      ∀ x, ⟨.accountId s, x⟩ ∈ past → (C.server.sessions s).accountId = x

/-- The invariant. -/
structure SearchInv (env : Env) (C : Conc) : Prop where
  exclusive : ∀ i j t u s, C.thread i = some t → C.thread j = some u →
    t.event.owner = some s → u.event.owner = some s → i = j
  threads : ∀ i t, C.thread i = some t → Searching env C t

/-- Only a handler of the session changes its account, and none that searches. -/
theorem not_setAccountId_of_footprint {e : Event} {o : Op} (ho : e.Footprint env o) {s : SessionId}
    (h : e.owner ≠ some s ∨ ∃ head, e = .request s head ∧
      env.decode (head.get "requestType").toInt = some .findContact) (x : UInt32) :
    o ≠ .setAccountId s x := by
  rintro rfl
  cases e with
  | request t head =>
    obtain ⟨type, htype, hof⟩ := ho
    have howner : t = s := by cases type <;> simp_all
    subst howner
    obtain hne | ⟨head', he, ht⟩ := h
    · exact hne rfl
    · cases he
      obtain rfl := Option.some.inj (htype.symm.trans ht)
      exact hof
  | connect t =>
    have howner : s = t := ho
    subst howner
    obtain hne | ⟨head, he, -⟩ := h
    · exact hne rfl
    · cases he
  | _ => first | exact ho.elim | exact ho.elim fun _ => False.elim

theorem Searching.mono {C' : Conc} {t : Thread} (h : Searching env C t) (hlog : C.log ⊆ C'.log)
    (hsame : ∀ s head, t.event = .request s head →
      (C'.server.sessions s).accountId = (C.server.sessions s).accountId) :
    Searching env C' t where
  within := h.within
  past s head he ht := by
    obtain ⟨past, hin, hlicensed, hx⟩ := h.past s head he ht
    exact ⟨past, hin.mono hlog, hlicensed, fun x hmem => (hsame s head he).trans (hx x hmem)⟩

theorem Searching.perform {i : Nat} {c : Choice} {e : Event} {o : Op} {k : o.Res → Prog Bool}
    (h : Searching env C ⟨e, .op o k⟩) :
    Searching env (C.performed env i c e o k) ⟨e, k (exec env o c C.server).1⟩ where
  within := h.within.2 _ trivial
  past := by
    rintro s head rfl ht
    obtain ⟨past, hin, hlicensed, hx⟩ := h.past s head rfl ht
    have hkept : ((exec env o c C.server).2.sessions s).accountId =
        (C.server.sessions s).accountId :=
      accountId_exec env (not_setAccountId_of_footprint h.within.1 (Or.inr ⟨head, rfl, ht⟩)) c _
    refine ⟨⟨o, (exec env o c C.server).1⟩ :: past, ?_, hlicensed.2 _, fun x hmem => ?_⟩
    · intro y hy
      rcases List.mem_cons.mp hy with rfl | hy
      · exact List.mem_cons_self ..
      · exact List.mem_cons_of_mem _ (hin y hy)
    · rw [hkept]
      rcases List.mem_cons.mp hmem with he | hmem
      · cases he
        rfl
      · exact hx x hmem

theorem searchInv_step {C' : Conc} {m : Move} (h : SearchInv env C) (hstep : C.Step env m C') :
    SearchInv env C' := by
  cases hstep with
  | @begin e henabled hfree =>
    have hother : ∀ i t s, C.thread i = some t → t.event.owner = some s → e.owner ≠ some s :=
      fun i t s hi ht he =>
        hfree t (Conc.mem_running.mpr ⟨i, hi⟩) (by simp [he]) (ht.trans he.symm)
    refine ⟨fun i j t u s hi hj ht hu => ?_, fun i t hi => ?_⟩
    · rcases Conc.getD_concat_cases hi with ⟨rfl, he⟩ | ⟨-, hi⟩ <;>
        rcases Conc.getD_concat_cases hj with ⟨rfl, he'⟩ | ⟨-, hj⟩
      · rfl
      · cases he
        exact absurd ht (hother j u s hj hu)
      · cases he'
        exact absurd hu (hother i t s hi ht)
      · exact h.exclusive i j t u s hi hj ht hu
    · refine Conc.forall_begun (P := fun _ => Searching env C) (Q := fun _ => Searching env _)
        h.threads ?_ ?_ hi
      · refine ⟨within_program env e C.server, fun s head he ht => ?_⟩
        exact ⟨[], fun _ hx => absurd hx List.not_mem_nil, licensed_showing env e C.server,
          fun x hx => by cases hx⟩
      · exact fun i t _ ht => ht.mono (fun _ => id) fun s _ _ => (sessions_note C.server e s).1
  | @perform i c e o k hthread =>
    have hnext : ∀ j t, (C.performed env i c e o k).thread j = some t →
        ∃ u, C.thread j = some u ∧ u.event = t.event := by
      intro j t hj
      rcases Conc.getD_set_cases (Conc.lt_of_thread hthread) hj with ⟨rfl, he⟩ | ⟨-, hj⟩
      · cases he
        exact ⟨_, hthread, rfl⟩
      · exact ⟨t, hj, rfl⟩
    refine ⟨fun j j' t u s hj hj' ht hu => ?_, fun j t hj => ?_⟩
    · obtain ⟨t', hjt, he⟩ := hnext j t hj
      obtain ⟨u', hju, he'⟩ := hnext j' u hj'
      exact h.exclusive j j' t' u' s hjt hju (he ▸ ht) (he' ▸ hu)
    · refine Conc.forall_performed (P := fun _ => Searching env C)
        (Q := fun _ => Searching env (C.performed env i c e o k)) hthread h.threads
        Searching.perform (fun j t hne hjt ht => ht.mono (List.subset_cons_self ..) ?_) hj
      -- another handler of the session would have the same owner
      intro s head he
      have howner : e.owner ≠ some s := fun howner =>
        hne (h.exclusive j i t _ s hjt hthread (by rw [he]; rfl) howner)
      have hwithin := (h.threads i _ hthread).within.1
      exact accountId_exec env (not_setAccountId_of_footprint hwithin (Or.inl howner)) c _
  | @finish i c e b hthread =>
    have hold : ∀ j t, (C.threads.set i none).getD j none = some t → C.thread j = some t := by
      intro j t hj
      rcases Conc.getD_set_cases (Conc.lt_of_thread hthread) hj with ⟨-, he⟩ | ⟨-, hj⟩
      · cases he
      · exact hj
    exact ⟨fun j j' t u s hj hj' => h.exclusive j j' t u s (hold j t hj) (hold j' u hj'),
      fun j t hj => (h.threads j t (hold j t hj)).mono (List.subset_cons_self ..) fun _ _ _ => rfl⟩

theorem searchInv_life (env : Env) (xs : List Incident) : SearchInv env (life env xs) := by
  have hidle : ∀ C : Conc, C.threads = [] → SearchInv env C := by
    intro C hC
    have hnone : ∀ i t, C.thread i ≠ some t := fun i t => by simp [Conc.thread, hC]
    exact ⟨fun i j t u s hi => absurd hi (hnone i t), fun i t hi => absurd hi (hnone i t)⟩
  exact invariant_life (hidle _ rfl) (fun _ _ _ hstep h => searchInv_step h hstep)
    (fun _ _ _ => hidle _ rfl) xs

end

/-- **A search reveals names.**  In every life, the successful answer to a search lists at most 50
accounts by their names, and each of them may be found by name, has a name that the search asked
for, and is not the account that the session has when it is answered. -/
theorem search_reveals (env : Env) (xs : List Incident) {since before : List Entry}
    {s : SessionId} {head : UBJ.Object} {id : UInt32} {data : UBJ.Object}
    (ht : env.decode (head.get "requestType").toInt = some .findContact)
    (hlog : (life env xs).log =
      since ++ .performed (.request s head) (.respond s (.success id data)) () :: before) :
    ∃ as : List Account, data = [("result", .array (as.map shown))] ∧ as.length ≤ 50 ∧
      ∃ x later earlier, xs = later ++ earlier ∧ (life env earlier).log = before ∧
        ((life env earlier).server.sessions s).accountId = x ∧
        ∀ a ∈ as, .performed (.request s head) (.accountId s) x ∈ before ∧ a.id ≠ x ∧
          (∃ p, (searchQuery head x).test env = some p ∧ p a = true) ∧
          ∃ b ∈ (life env xs).server.accounts,
            b.id = a.id ∧ b.name = a.name ∧ b.findByName = true := by
  obtain ⟨later, earlier, rfl, rfl, i, k, hthread⟩ := performed_at hlog
  obtain ⟨past, hin, hlicensed, hkept⟩ :=
    ((searchInv_life env earlier).threads i _ hthread).past s head rfl ht
  obtain ⟨as, hdata, has⟩ := hlicensed.1 s head id data rfl ht rfl
  rw [(sameCollections_life (later ++ earlier)).accounts]
  refine ⟨as, hdata, ?_⟩
  rcases has with rfl | ⟨x, hx, answer, hread, rfl⟩
  · exact ⟨Nat.zero_le _, _, later, earlier, rfl, rfl, rfl, fun a ha => by cases ha⟩
  · have hinlog : .performed (.request s head) (.findAccounts (searchQuery head x) 50) answer ∈
        (life env (later ++ earlier)).log := by
      rw [hlog]
      exact List.mem_append_right _ (List.mem_cons_of_mem _ (hin _ hread))
    obtain ⟨hlength, hall⟩ := (honest_life env (later ++ earlier)).found_accounts hinlog
    refine ⟨hlength, x, later, earlier, rfl, rfl, hkept x hx, fun a ha => ?_⟩
    obtain ⟨⟨p, hp, hpa⟩, b, hb, hid, hname, hfind⟩ := hall a ha
    obtain ⟨hne, hlisted⟩ := test_searchQuery hp hpa
    exact ⟨hin _ hx, hne, ⟨p, hp, hpa⟩, b, hb, hid, hname, hfind.trans hlisted⟩

/-- The account 1, which may be found by name, is searched by the account 2. -/
def searched : List Incident :=
  oneByOne ((
    sampleStep 1 (sampleRequest .findContact 9 [("query", .object [("subject", .string "a")])]) ::
    (sampleJoin 1 "b" 2 ++ sampleLogin 0 1 ::
      sampleStep 0 (sampleRequest .createAccount 1 [("name", .string "a"),
        ("password", .buffer (List.replicate 32 0)), ("findByName", .bool true)]) ::
      sampleConnect 0)).map Act.event)

/-- The successful answer to a search. -/
def Entry.answersSearch (env : Env) : Entry → Bool
  | .performed (.request s head) (.respond t (.success _ data)) _ =>
    s == t && env.decode (head.get "requestType").toInt == some .findContact &&
      !(data.get "result").toArray.isEmpty
  | _ => false

theorem search_reveals_name : ∃ as : List Account, as ≠ [] ∧ as.length ≤ 50 ∧
    ∀ a ∈ as, ∃ b ∈ (life sampleEnv searched).server.accounts,
      b.id = a.id ∧ b.name = a.name ∧ b.findByName = true := by
  have hany : (life sampleEnv searched).log.any (·.answersSearch sampleEnv) = true := by
    decide +kernel
  obtain ⟨x, hx, hanswers⟩ := List.any_eq_true.mp hany
  obtain ⟨since, before, hlog⟩ := List.append_of_mem hx
  unfold Entry.answersSearch at hanswers
  split at hanswers
  · next s head t id data u =>
    simp only [Bool.and_eq_true, beq_iff_eq] at hanswers
    obtain ⟨⟨rfl, ht⟩, hne⟩ := hanswers
    obtain ⟨as, rfl, hlength, x, -, -, -, -, -, hall⟩ := search_reveals sampleEnv searched ht hlog
    refine ⟨as, ?_, hlength, fun a ha => ?_⟩
    · rintro rfl
      cases hne
    · exact (hall a ha).2.2.2
  · cases hanswers

end ZwayServer
