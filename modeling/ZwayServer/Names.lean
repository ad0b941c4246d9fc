import ZwayServer.Password

/-!
# Account names

A request to create an account is refused if the name is in use, and whether it is in use is
asked of the database with the name as a pattern: not quoted, not anchored, and with a failing
query taken for "not found".  So a name can be refused because it occurs in a longer one, or
because it means something else as a pattern; and one that is no well-formed pattern can be
used as often as one likes.

* `UniqueNames` — a name is refused exactly if it is in use up to case, so names are unique.
* `PatternFits` — as a pattern, the name finds an account exactly if it is in use.
* `uniqueNames_iff` — the first holds of a run exactly if the second holds of its requests.
* `patternFits_literal` — what the second means for a name without special characters.
-/

namespace ZwayServer

open ClientSession

/-! ## Names and patterns -/

/-- The names are equal up to case; `fold` takes a letter to one of its cases. -/
def SameName (fold : Char → Char) (m n : String) : Prop := m.toList.map fold = n.toList.map fold

instance (fold : Char → Char) (m n : String) : Decidable (SameName fold m n) :=
  inferInstanceAs (Decidable (_ = _))

/-- The name occurs in the other one, up to case. -/
def OccursIn (fold : Char → Char) (n name : String) : Prop :=
  n.toList.map fold <:+: name.toList.map fold

instance (fold : Char → Char) (n name : String) : Decidable (OccursIn fold n name) :=
  inferInstanceAs (Decidable (_ <:+: _))

/-- An account has this name, up to case. -/
def NameTaken (fold : Char → Char) (σ : ServerState) (n : String) : Prop :=
  ∃ b ∈ σ.accounts, SameName fold b.name n

/-- The pattern is well formed and found in the name. -/
def Finds (env : Env) (pattern name : String) : Prop :=
  ∃ test, env.regex pattern = some test ∧ test name = true

/-- The query for an account with the name `n` does what it is meant to: it finds something
only if the name is in use, and if it is, it does not fail and finds something. -/
structure PatternFits (env : Env) (fold : Char → Char) (σ : ServerState) (c : Choice)
    (n : String) : Prop where
  free : c.fails = false → ∀ b ∈ σ.accounts, Finds env n b.name → NameTaken fold σ n
  taken : NameTaken fold σ n → c.fails = false ∧ ∃ b ∈ σ.accounts, Finds env n b.name

/-- The characters that mean something in a pattern. -/
def isSpecial (c : Char) : Bool :=
  ['\\', '^', '$', '.', '[', ']', '|', '(', ')', '?', '*', '+', '{', '}'].contains c

/-- Taken as a pattern, the name stands for itself. -/
def Literal (n : String) : Prop := n.toList.all (fun c => !isSpecial c) = true

instance (n : String) : Decidable (Literal n) := inferInstanceAs (Decidable (_ = _))

instance (fold : Char → Char) (σ : ServerState) (n : String) : Decidable (NameTaken fold σ n) :=
  inferInstanceAs (Decidable (∃ b ∈ σ.accounts, SameName fold b.name n))

/-- A pattern without special characters is well formed, and is found where it occurs. -/
def SearchesLiterally (env : Env) (fold : Char → Char) : Prop :=
  ∀ n, Literal n → ∃ test, env.regex n = some test ∧
    ∀ name, test name = true ↔ OccursIn fold n name

section

variable {env : Env} {fold : Char → Char} {σ : ServerState}

theorem SameName.occursIn {m n : String} (h : SameName fold m n) : OccursIn fold n m := by
  rw [OccursIn, ← show m.toList.map fold = n.toList.map fold from h]

theorem finds_literal (hsearch : SearchesLiterally env fold) {n : String} (hn : Literal n)
    {name : String} : Finds env n name ↔ OccursIn fold n name := by
  obtain ⟨test, hregex, htest⟩ := hsearch n hn
  constructor
  · rintro ⟨test', hregex', hfound⟩
    rw [hregex] at hregex'
    obtain rfl := Option.some.inj hregex'
    exact (htest name).mp hfound
  · intro h
    exact ⟨test, hregex, (htest name).mpr h⟩

/-- **Names without special characters.**  What goes wrong with these is that a name occurs in
another one without being in use, or that the query fails when it is. -/
theorem patternFits_literal (hsearch : SearchesLiterally env fold) {n : String}
    (hn : Literal n) {c : Choice} :
    PatternFits env fold σ c n ↔
      (c.fails = false → ∀ b ∈ σ.accounts, OccursIn fold n b.name → NameTaken fold σ n) ∧
        (NameTaken fold σ n → c.fails = false) := by
  constructor
  · intro h
    refine ⟨fun hfails b hb hoccurs => ?_, fun htaken => (h.taken htaken).1⟩
    exact h.free hfails b hb ((finds_literal hsearch hn).mpr hoccurs)
  · rintro ⟨hfree, hcall⟩
    refine ⟨fun hfails b hb hfinds => ?_, fun htaken => ⟨hcall htaken, ?_⟩⟩
    · exact hfree hfails b hb ((finds_literal hsearch hn).mp hfinds)
    · obtain ⟨b, hb, hsame⟩ := htaken
      exact ⟨b, hb, (finds_literal hsearch hn).mpr hsame.occursIn⟩

/-! ## Requests to create an account -/

/-- The step handles a request for an account, on a session that is not logged in, with a name
and a password of 32 bytes. -/
structure AsksForAccount (env : Env) (σ : ServerState) (a : Act) (s : SessionId)
    (head : UBJ.Object) : Prop where
  event : a.event = .request s head
  type : env.decode (head.get "requestType").toInt = some .createAccount
  fresh : (σ.sessions s).status ≠ .loggedIn
  name : (head.get "name").toStr ≠ ""
  password : (head.get "password").bufferSize = 32

/-- The request is answered "Invalid account name". -/
def RefusesName (σ σ' : ServerState) (s : SessionId) (head : UBJ.Object) : Prop :=
  .response (.failure (head.get "requestId").toInt 0 "Invalid account name") ∈ newMessages σ σ' s

/-- **Names are unique, and free ones usable.**  In every step of the run, a name is refused
exactly if it is in use; and at no point of the run do two accounts have the same name. -/
structure UniqueNames (env : Env) (fold : Char → Char) (tr : List Act) : Prop where
  refused : EveryStep env (fun earlier a => ∀ s head,
    AsksForAccount env (after env earlier) a s head →
      (RefusesName (after env earlier) (next env (after env earlier) a) s head ↔
        NameTaken fold (after env earlier) (head.get "name").toStr)) tr
  apart : ∀ later earlier, tr = later ++ earlier →
    (after env earlier).accounts.Pairwise fun a b => ¬ SameName fold a.name b.name

/-- What the query for a name finds. -/
theorem isSome_account (env : Env) {w : World} {n : String} :
    (w.account env { nameRegex := some n }).isSome ↔
      (w.tape 0).fails = false ∧ ∃ b ∈ w.server.accounts, Finds env n b.name := by
  rw [World.account]
  cases hf : (w.tape 0).fails with
  | true => simp
  | false =>
    cases hregex : env.regex n with
    | none => simp [AccountQuery.test, Finds, hregex]
    | some test => simp [AccountQuery.test, Finds, hregex]

/-- What the handler does with a request that passes its first checks. -/
theorem run_createAccount (env : Env) {w : World} {s : SessionId} {head : UBJ.Object}
    (hst : (w.server.sessions s).status ≠ .loggedIn) (hname : (head.get "name").toStr ≠ "")
    (hpass : (head.get "password").bufferSize = 32) :
    if (w.account env { nameRegex := some (head.get "name").toStr }).isSome then
      newMessages w.server (Proc.run (step env) (processCreateAccount env s head) w).2.server s =
          [.response (.failure (head.get "requestId").toInt 0 "Invalid account name")] ∧
        (Proc.run (step env) (processCreateAccount env s head) w).2.server.accounts =
          w.server.accounts
    else
      (∃ r, r ≠ .failure (head.get "requestId").toInt 0 "Invalid account name" ∧
        newMessages w.server (Proc.run (step env) (processCreateAccount env s head) w).2.server s =
          [.response r]) ∧
      ((Proc.run (step env) (processCreateAccount env s head) w).2.server.accounts =
          w.server.accounts ∨
        ∃ b, b.name = (head.get "name").toStr ∧
          (Proc.run (step env) (processCreateAccount env s head) w).2.server.accounts =
            w.server.accounts ++ [b]) := by
  have hhas : head.hasField "name" = true :=
    hasField_of_get fun h => hname (by rw [h]; rfl)
  have hhas' : head.hasField "password" = true :=
    hasField_of_get fun h => by rw [h] at hpass; cases hpass
  have hrun := run_processCreateAccount env w s head
  cases ha : (w.account env { nameRegex := some (head.get "name").toStr }).isSome with
  | true =>
    have hout : (Proc.run (step env) (processCreateAccount env s head) w).2.server =
        w.server.send s (.response
          (.failure (head.get "requestId").toInt 0 "Invalid account name")) := by
      simp [processCreateAccount, Proc.run_bind, hst, hname, hpass, hhas, hhas', run_getAccount, ha]
      rfl
    rw [if_pos rfl, hout]
    exact ⟨newMessages_of_append _ (by simp [ServerState.send]), rfl⟩
  | false =>
    rw [if_neg (by simp)]
    rw [createInput, if_neg hst, if_neg (by simp [hhas, hname]), if_neg (by simp [hhas', hpass]),
      if_neg (by simp [ha])] at hrun
    dsimp only at hrun
    rw [hrun]
    split
    · refine ⟨⟨.failure (head.get "requestId").toInt 0 "Failed to create account", by simp,
        newMessages_of_append _ ?_⟩, Or.inl rfl⟩
      simp [World.respond, ServerState.send, World.skip]
    · refine ⟨⟨.success (head.get "requestId").toInt [("accountId", .int32 w.next.newAccountId)],
        by simp, newMessages_of_append _ ?_⟩, Or.inr ⟨_, ?_, rfl⟩⟩
      · simp [World.respond, ServerState.send, World.skip, ServerState.insertAccount]
      · rfl

/-- What a step does that handles such a request. -/
theorem next_asksForAccount {a : Act} {s : SessionId} {head : UBJ.Object} (hp : a.Possible σ)
    (h : AsksForAccount env σ a s head) :
    (RefusesName σ (next env σ a) s head ↔
      (a.tape 0).fails = false ∧ ∃ b ∈ σ.accounts, Finds env (head.get "name").toStr b.name) ∧
    ((next env σ a).accounts = σ.accounts ∨
      ¬ RefusesName σ (next env σ a) s head ∧
        ∃ b, b.name = (head.get "name").toStr ∧ (next env σ a).accounts = σ.accounts ++ [b]) := by
  obtain ⟨event, tape⟩ := a
  have he : event = .request s head := h.event
  subst he
  have hnext : next env σ ⟨.request s head, tape⟩ =
      (Proc.run (step env) (processCreateAccount env s head) ⟨σ, tape, []⟩).2.server := by
    rw [next_request_eq env hp, processIncomingRequest, h.type]
  have hrun := run_createAccount env (w := ⟨σ, tape, []⟩) h.fresh h.name h.password
  have hfound := isSome_account env (w := ⟨σ, tape, []⟩) (n := (head.get "name").toStr)
  rw [RefusesName, ← hfound, hnext]
  split at hrun
  · next hsome =>
    refine ⟨⟨fun _ => hsome, fun _ => ?_⟩, Or.inl hrun.2⟩
    rw [hrun.1]
    exact List.mem_singleton.mpr rfl
  · next hnone =>
    obtain ⟨⟨r, hr, hmessages⟩, haccounts⟩ := hrun
    have hnot : Message.response
        (.failure (head.get "requestId").toInt 0 "Invalid account name") ∉ newMessages σ
          (Proc.run (step env) (processCreateAccount env s head) ⟨σ, tape, []⟩).2.server s := by
      rw [hmessages, List.mem_singleton]
      intro heq
      exact hr (Message.response.inj heq).symm
    exact ⟨⟨fun hm => absurd hm hnot, fun hs => absurd hs hnone⟩,
      haccounts.imp id fun hb => ⟨hnot, hb⟩⟩

/-- Nothing else changes the names. -/
theorem names_next {a : Act} (h : ∀ s head, a.Possible σ → ¬ AsksForAccount env σ a s head) :
    (next env σ a).accounts.map Account.name = σ.accounts.map Account.name := by
  by_cases hp : a.Possible σ
  · by_cases hcreate : a.IsCreateAccount env
    · obtain ⟨s, head, he, ht⟩ := hcreate
      obtain ⟨event, tape⟩ := a
      have he' : event = .request s head := he
      subst he'
      have hinput : createInput env ⟨σ, tape, []⟩ s head = none := by
        rw [createInput]
        split
        · rfl
        · next hst =>
          split
          · rfl
          · next hname =>
            split
            · rfl
            · next hpass =>
              simp only [not_or, not_not] at hname hpass
              exact absurd ⟨rfl, ht, hst, hname.2, hpass.2⟩ (h s head hp)
      have hrun := run_processCreateAccount env ⟨σ, tape, []⟩ s head
      rw [hinput] at hrun
      rw [next_request_eq env hp, processIncomingRequest, ht]
      obtain ⟨_, _, _, hs⟩ | hs := hrun.server
      · rw [hs]
        rfl
      · rw [hs]
    · exact map_accounts_next_eq (fun _ _ => rfl) hp hcreate
  · rw [next_of_not_possible hp]

/-- Whether names are apart is a matter of the names alone. -/
theorem pairwise_names {as bs : List Account} (h : as.map Account.name = bs.map Account.name)
    (hbs : bs.Pairwise fun a b => ¬ SameName fold a.name b.name) :
    as.Pairwise fun a b => ¬ SameName fold a.name b.name := by
  have hnames : (bs.map Account.name).Pairwise fun m n => ¬ SameName fold m n :=
    List.pairwise_map.mpr hbs
  rw [← h] at hnames
  exact List.pairwise_map.mp hnames

/-- A step that refuses the names in use keeps the names apart. -/
theorem pairwise_next {a : Act}
    (h : a.Possible σ → ∀ s head, AsksForAccount env σ a s head →
      NameTaken fold σ (head.get "name").toStr → RefusesName σ (next env σ a) s head)
    (hσ : σ.accounts.Pairwise fun a b => ¬ SameName fold a.name b.name) :
    (next env σ a).accounts.Pairwise fun a b => ¬ SameName fold a.name b.name := by
  by_cases hasks : ∃ s head, a.Possible σ ∧ AsksForAccount env σ a s head
  · obtain ⟨s, head, hp, hask⟩ := hasks
    obtain ⟨-, hsame | ⟨hnot, b, hb, happ⟩⟩ := next_asksForAccount hp hask
    · rw [hsame]
      exact hσ
    · rw [happ, List.pairwise_append]
      refine ⟨hσ, List.pairwise_singleton _ _, fun c hc d hd hcd => ?_⟩
      obtain rfl := List.mem_singleton.mp hd
      exact hnot (h hp s head hask ⟨c, hc, hb ▸ hcd⟩)
  · exact pairwise_names (names_next fun s head hp hask => hasks ⟨s, head, hp, hask⟩) hσ

theorem pairwise_after {tr : List Act}
    (h : EveryStep env (fun earlier a => ∀ s head, AsksForAccount env (after env earlier) a s head →
      NameTaken fold (after env earlier) (head.get "name").toStr →
      RefusesName (after env earlier) (next env (after env earlier) a) s head) tr) :
    (after env tr).accounts.Pairwise fun a b => ¬ SameName fold a.name b.name := by
  induction tr with
  | nil => exact List.Pairwise.nil
  | cons a tr ih => exact pairwise_next h.1 (ih h.2)

/-- The query is as good as its name. -/
theorem patternFits_iff {c : Choice} {n : String} :
    PatternFits env fold σ c n ↔
      ((c.fails = false ∧ ∃ b ∈ σ.accounts, Finds env n b.name) ↔ NameTaken fold σ n) := by
  constructor
  · intro h
    constructor
    · rintro ⟨hfails, b, hb, hfinds⟩
      exact h.free hfails b hb hfinds
    · exact h.taken
  · intro h
    exact ⟨fun hfails b hb hfinds => h.mp ⟨hfails, b, hb, hfinds⟩, h.mpr⟩

/-- **Unique names.**  In a run of the server, exactly the names in use are refused, and the
names are unique, exactly if every name that is asked for fits as a pattern: it is found in
the name of an account only if it is in use, and if it is in use, the query does not fail and
finds it. -/
theorem uniqueNames_iff (env : Env) (fold : Char → Char) (tr : List Act) :
    UniqueNames env fold tr ↔
      EveryStep env (fun earlier a => ∀ s head,
        AsksForAccount env (after env earlier) a s head →
          PatternFits env fold (after env earlier) (a.tape 0) (head.get "name").toStr) tr := by
  constructor
  · intro h
    rw [everyStep_iff]
    intro later a earlier htr hp s head hask
    rw [patternFits_iff, ← (next_asksForAccount hp hask).1]
    exact everyStep_iff.mp h.refused later a earlier htr hp s head hask
  · intro h
    have hrefused : EveryStep env (fun earlier a => ∀ s head,
        AsksForAccount env (after env earlier) a s head →
          (RefusesName (after env earlier) (next env (after env earlier) a) s head ↔
            NameTaken fold (after env earlier) (head.get "name").toStr)) tr := by
      rw [everyStep_iff]
      intro later a earlier htr hp s head hask
      rw [(next_asksForAccount hp hask).1, ← patternFits_iff]
      exact everyStep_iff.mp h later a earlier htr hp s head hask
    refine ⟨hrefused, ?_⟩
    rintro later earlier rfl
    refine pairwise_after (everyStep_iff.mpr fun later' a earlier' he hp s head hask => ?_)
    exact (everyStep_iff.mp hrefused.earlier later' a earlier' he hp s head hask).mpr

end

/-! ## Names that do not fit -/

/-- The sample libraries with a search for patterns that stand for themselves; others are
malformed, as a lone bracket is. -/
def literalEnv : Env :=
  { sampleEnv with
    regex := fun pattern =>
      if Literal pattern then some fun name => decide (OccursIn Char.toLower pattern name)
      else none }

theorem searchesLiterally_literalEnv : SearchesLiterally literalEnv Char.toLower := by
  intro n hn
  refine ⟨fun name => decide (OccursIn Char.toLower n name), if_pos hn, fun name => ?_⟩
  rw [decide_eq_true_eq]

/-- The fields of a request for an account with this name. -/
def sampleName (name : String) : UBJ.Object :=
  sampleRequest .createAccount 1
    [("name", .string name), ("password", .buffer (List.replicate 32 0))]

/-- A name is refused because it occurs in another one; a bracket is a name for everybody. -/
theorem not_uniqueNames :
    ¬ UniqueNames literalEnv Char.toLower
        (sampleStep 0 (sampleName "An") :: sampleStep 0 (sampleName "Joanna") :: sampleConnect 0) ∧
      ¬ UniqueNames literalEnv Char.toLower
        (sampleStep 0 (sampleName "(") :: sampleStep 0 (sampleName "(") :: sampleConnect 0) := by
  constructor
  · intro h
    let σ := after literalEnv (sampleStep 0 (sampleName "Joanna") :: sampleConnect 0)
    have hp : (sampleStep 0 (sampleName "An")).Possible σ := by decide +kernel
    have hask : AsksForAccount literalEnv σ (sampleStep 0 (sampleName "An")) 0 (sampleName "An") :=
      ⟨rfl, by decide +kernel, by decide +kernel, by decide +kernel, by decide +kernel⟩
    have hrefused : RefusesName σ (next literalEnv σ (sampleStep 0 (sampleName "An"))) 0
        (sampleName "An") := by
      rw [(next_asksForAccount hp hask).1]
      have hoccurs : ∃ b ∈ σ.accounts, OccursIn Char.toLower "An" b.name := by decide +kernel
      obtain ⟨b, hb, hin⟩ := hoccurs
      exact ⟨rfl, b, hb, (finds_literal searchesLiterally_literalEnv (by decide)).mpr hin⟩
    have htaken : ¬ NameTaken Char.toLower σ ((sampleName "An").get "name").toStr := by
      decide +kernel
    exact htaken ((h.refused.1 hp 0 (sampleName "An") hask).mp hrefused)
  · intro h
    have hapart : ¬ ((after literalEnv (sampleStep 0 (sampleName "(") ::
        sampleStep 0 (sampleName "(") :: sampleConnect 0)).accounts.Pairwise
          fun a b => ¬ SameName Char.toLower a.name b.name) := by
      decide +kernel
    exact hapart (h.apart [] _ rfl)

end ZwayServer
