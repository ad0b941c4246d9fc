import ZwayServer.Invariants

/-!
# Account ids

The id of a new account is one more than the largest id there is, and the database
compares ids as signed 32-bit integers.

* `maxAccountId_spec` — the largest id, in that order.
* `IdsOk` — the ids are different and lie between one and the number of the accounts.
* `IdsOk.insert` — an account that gets the next id keeps them so, up to 2³¹ accounts.
* `IdsOk.mem_nextAccountId` — with 2³¹ accounts, the next id is taken already.
-/

namespace ZwayServer

/-! ## The largest id -/

theorem toInt_toInt32 {a : UInt32} (h : a.toNat < 2 ^ 31) : a.toInt32.toInt = a.toNat := by
  have hbits : a.toInt32.toBitVec.toNat = a.toNat := rfl
  rw [Int32.toInt, BitVec.toInt_eq_toNat_cond, hbits, if_pos (by omega)]

/-- Below 2³¹ the order of the database is that of the numbers. -/
theorem toInt32_lt_iff {a b : UInt32} (ha : a.toNat < 2 ^ 31) (hb : b.toNat < 2 ^ 31) :
    a.toInt32 < b.toInt32 ↔ a.toNat < b.toNat := by
  rw [Int32.lt_iff_toInt_lt, toInt_toInt32 ha, toInt_toInt32 hb, Int.ofNat_lt]

theorem toNat_add_one {a : UInt32} (h : a.toNat < 2 ^ 32 - 1) : (a + 1).toNat = a.toNat + 1 := by
  have hone : (1 : UInt32).toNat = 1 := rfl
  rw [UInt32.toNat_add, hone]
  omega

/-- The largest id is the id of an account, and none is larger. -/
theorem maxAccountId_spec {as : List Account} {m : UInt32} (h : maxAccountId as = some m) :
    (∃ a ∈ as, a.id = m) ∧ ∀ a ∈ as, ¬ m.toInt32 < a.id.toInt32 := by
  induction as generalizing m with
  | nil => cases h
  | cons a as ih =>
    rw [maxAccountId] at h
    cases hmax : maxAccountId as with
    | none =>
      rw [hmax] at h
      obtain rfl : a.id = m := Option.some.inj h
      have hnil : as = [] := by
        cases as with
        | nil => rfl
        | cons b bs =>
          rw [maxAccountId] at hmax
          split at hmax <;> cases hmax
      subst hnil
      refine ⟨⟨a, List.mem_cons_self .., rfl⟩, fun b hb => ?_⟩
      obtain rfl := List.mem_singleton.mp hb
      exact Int32.lt_irrefl
    | some m' =>
      rw [hmax] at h
      obtain ⟨⟨b, hb, hid⟩, hle⟩ := ih hmax
      by_cases hlt : m'.toInt32 < a.id.toInt32
      · obtain rfl : a.id = m := by simpa [hlt] using h
        refine ⟨⟨a, List.mem_cons_self .., rfl⟩, fun c hc hac => ?_⟩
        rcases List.mem_cons.mp hc with rfl | hc
        · exact Int32.lt_irrefl hac
        · exact hle c hc (Int32.lt_trans hlt hac)
      · obtain rfl : m' = m := by simpa [hlt] using h
        refine ⟨⟨b, List.mem_cons_of_mem _ hb, hid⟩, fun c hc => ?_⟩
        rcases List.mem_cons.mp hc with rfl | hc
        · exact hlt
        · exact hle c hc

theorem maxAccountId_eq_none {as : List Account} (h : maxAccountId as = none) : as = [] := by
  cases as with
  | nil => rfl
  | cons a as =>
    rw [maxAccountId] at h
    split at h <;> cases h

/-- The id that a new account gets, if the database answers. -/
def nextAccountId (as : List Account) : UInt32 := ((maxAccountId as).map (· + 1)).getD 1

theorem maxAccountId_congr {as bs : List Account} (h : as.map Account.id = bs.map Account.id) :
    maxAccountId as = maxAccountId bs := by
  induction as generalizing bs with
  | nil =>
    obtain rfl := List.map_eq_nil_iff.mp h.symm
    rfl
  | cons a as ih =>
    cases bs with
    | nil => simp at h
    | cons b bs =>
      obtain ⟨hid, hrest⟩ := List.cons.inj h
      rw [maxAccountId, maxAccountId, ih hrest, hid]

/-- Only the ids of the accounts count. -/
theorem nextAccountId_congr {as bs : List Account} (h : as.map Account.id = bs.map Account.id) :
    nextAccountId as = nextAccountId bs := by
  rw [nextAccountId, nextAccountId, maxAccountId_congr h]

/-! ## Different ids -/

/-- The accounts have different ids, between one and their number. -/
structure IdsOk (as : List Account) : Prop where
  nodup : (as.map Account.id).Nodup
  range : ∀ a ∈ as, 1 ≤ a.id.toNat ∧ a.id.toNat ≤ as.length

namespace IdsOk

variable {as : List Account}

theorem init : IdsOk [] where
  nodup := List.nodup_nil
  range a ha := by cases ha

/-- The next id is larger than all ids that there are. -/
theorem lt_nextAccountId (h : IdsOk as) (hlen : as.length < 2 ^ 31) :
    1 ≤ (nextAccountId as).toNat ∧ (nextAccountId as).toNat ≤ as.length + 1 ∧
      ∀ a ∈ as, a.id.toNat < (nextAccountId as).toNat := by
  rw [nextAccountId]
  cases hmax : maxAccountId as with
  | none =>
    obtain rfl := maxAccountId_eq_none hmax
    have hone : (1 : UInt32).toNat = 1 := rfl
    refine ⟨?_, ?_, fun a ha => by cases ha⟩ <;> simp [hone]
  | some m =>
    obtain ⟨⟨b, hb, rfl⟩, hle⟩ := maxAccountId_spec hmax
    obtain ⟨hone, hbound⟩ := h.range b hb
    have hnext : (b.id + 1).toNat = b.id.toNat + 1 := toNat_add_one (by omega)
    simp only [Option.map_some, Option.getD_some, hnext]
    refine ⟨by omega, by omega, fun a ha => ?_⟩
    have hle := hle a ha
    obtain ⟨-, habound⟩ := h.range a ha
    rw [toInt32_lt_iff (by omega) (by omega)] at hle
    omega

/-- An account that gets the next id. -/
theorem insert (h : IdsOk as) (hlen : as.length < 2 ^ 31) {a : Account}
    (ha : a.id = nextAccountId as) : IdsOk (as ++ [a]) := by
  obtain ⟨hone, hbound, hlt⟩ := h.lt_nextAccountId hlen
  refine ⟨?_, fun b hb => ?_⟩
  · rw [List.map_append, List.nodup_append]
    refine ⟨h.nodup, List.nodup_singleton _, ?_⟩
    rintro x hx y hy rfl
    obtain ⟨b, hb, rfl⟩ := List.mem_map.mp hx
    have heq : b.id = a.id := List.mem_singleton.mp hy
    have := hlt b hb
    rw [heq, ha] at this
    omega
  · rw [List.length_append, List.length_singleton]
    rcases List.mem_append.mp hb with hb | hb
    · obtain ⟨h1, h2⟩ := h.range b hb
      exact ⟨h1, by omega⟩
    · obtain rfl := List.mem_singleton.mp hb
      rw [ha]
      exact ⟨hone, hbound⟩

/-- All numbers up to that of the accounts are ids. -/
theorem exists_id (h : IdsOk as) {n : Nat} (hone : 1 ≤ n) (hle : n ≤ as.length) :
    ∃ a ∈ as, a.id.toNat = n := by
  have hnodup : (as.map fun a => a.id.toNat).Nodup := by
    have hcomp : (as.map fun a => a.id.toNat) = (as.map Account.id).map UInt32.toNat := by
      rw [List.map_map]
      rfl
    rw [hcomp]
    exact h.nodup.map fun _ _ => UInt32.toNat_inj.mp
  -- as many different numbers as there are
  have hsub : (as.map fun a => a.id.toNat).toFinset ⊆ Finset.Icc 1 as.length := by
    intro m hm
    obtain ⟨a, ha, rfl⟩ := List.mem_map.mp (List.mem_toFinset.mp hm)
    exact Finset.mem_Icc.mpr (h.range a ha)
  have heq : (as.map fun a => a.id.toNat).toFinset = Finset.Icc 1 as.length := by
    refine Finset.eq_of_subset_of_card_le hsub ?_
    rw [List.toFinset_card_of_nodup hnodup, List.length_map, Nat.card_Icc]
    omega
  have hmem : n ∈ (as.map fun a => a.id.toNat).toFinset := by
    rw [heq]
    exact Finset.mem_Icc.mpr ⟨hone, hle⟩
  exact List.mem_map.mp (List.mem_toFinset.mp hmem)

/-- When the ids have reached the sign bit, the largest id as the database sees it is no longer
the newest one, and the next id is taken. -/
theorem mem_nextAccountId (h : IdsOk as) (hlen : as.length = 2 ^ 31) :
    ∃ a ∈ as, a.id = nextAccountId as := by
  obtain ⟨top, htop, htopId⟩ := h.exists_id (n := 2 ^ 31 - 1) (by omega) (by omega)
  obtain ⟨taken, htaken, htakenId⟩ := h.exists_id (n := 2 ^ 31) (by omega) (by omega)
  refine ⟨taken, htaken, ?_⟩
  rw [nextAccountId]
  cases hmax : maxAccountId as with
  | none =>
    rw [maxAccountId_eq_none hmax] at hlen
    simp at hlen
  | some m =>
    obtain ⟨⟨b, hb, rfl⟩, hle⟩ := maxAccountId_spec hmax
    obtain ⟨-, hbound⟩ := h.range b hb
    have hnot := hle top htop
    rw [Int32.lt_iff_toInt_lt, toInt_toInt32 (a := top.id) (by omega)] at hnot
    have hb31 : b.id.toNat = 2 ^ 31 - 1 := by
      by_cases hlt : b.id.toNat < 2 ^ 31
      · rw [toInt_toInt32 hlt] at hnot
        omega
      · have hbits : b.id.toInt32.toBitVec.toNat = b.id.toNat := rfl
        rw [Int32.toInt, BitVec.toInt_eq_toNat_cond, hbits, if_neg (by omega)] at hnot
        omega
    have hnext : (b.id + 1).toNat = b.id.toNat + 1 := toNat_add_one (by omega)
    simp only [Option.map_some, Option.getD_some]
    refine UInt32.toNat_inj.mp ?_
    omega

/-- Accounts with one id are one account. -/
theorem eq_of_id (h : IdsOk as) {a b : Account} (ha : a ∈ as) (hb : b ∈ as) (hid : a.id = b.id) :
    a = b :=
  List.inj_on_of_nodup_map h.nodup ha hb hid

/-- The ids are all that counts. -/
theorem of_ids {as' : List Account} (h : IdsOk as)
    (hids : as'.map Account.id = as.map Account.id) : IdsOk as' := by
  have hlen : as'.length = as.length := by
    have := congrArg List.length hids
    rwa [List.length_map, List.length_map] at this
  refine ⟨hids ▸ h.nodup, fun a ha => ?_⟩
  have hmem : a.id ∈ as.map Account.id := hids ▸ List.mem_map.mpr ⟨a, ha, rfl⟩
  obtain ⟨b, hb, hid⟩ := List.mem_map.mp hmem
  rw [← hid, hlen]
  exact h.range b hb

end IdsOk

/-! ## What identifies an account -/

/-- The id of an account, its digest and its salt. -/
def Account.credentials (a : Account) : UInt32 × List UInt8 × List UInt8 := (a.id, a.pass, a.salt)

/-- The credentials of all accounts. -/
def ServerState.credentials (σ : ServerState) : List (UInt32 × List UInt8 × List UInt8) :=
  σ.accounts.map Account.credentials

theorem map_replaceF_token {β : Type} {f : Account → β}
    (hf : ∀ a token, f { a with fcmToken := token } = f a) (as : List Account) (id : UInt32)
    (token : String) :
    (as.replaceF fun a => if a.id = id then some { a with fcmToken := token } else none).map f =
      as.map f := by
  induction as with
  | nil => rfl
  | cons a as ih =>
    by_cases ha : a.id = id
    · subst ha
      simp [List.replaceF, hf a]
    · simp [List.replaceF, ha, ih]

/-- No operation changes an account in anything but its token, or deletes one. -/
theorem map_accounts_exec {β : Type} {f : Account → β}
    (hf : ∀ a token, f { a with fcmToken := token } = f a) (env : Env) (o : Op) (c : Choice)
    (σ : ServerState) : σ.accounts.map f <+: (exec env o c σ).2.accounts.map f := by
  by_cases hreads : o.Reads
  · rw [exec_of_reads env hreads]
  have hcall : ∀ {α : Type} {a : α} {σ' : ServerState},
      σ.accounts.map f <+: σ'.accounts.map f →
      σ.accounts.map f <+: (dbCall c σ a σ').2.accounts.map f := fun h =>
    dbCall_cases (P := fun τ => σ.accounts.map f <+: τ.accounts.map f) List.prefix_rfl fun _ => h
  cases o with
  | insertAccount a =>
    refine hcall ?_
    show σ.accounts.map f <+: (σ.accounts ++ [a]).map f
    rw [List.map_append]
    exact List.prefix_append ..
  | setFcmToken id token =>
    refine hcall ?_
    show σ.accounts.map f <+: (σ.accounts.replaceF _).map f
    rw [map_replaceF_token hf]
  | insertRequest | removeRequest => exact hcall List.prefix_rfl
  | addReceiver | addEngineSender | fopenAppend =>
    simp only [exec]
    split <;> exact List.prefix_rfl
  | removeSession s =>
    show σ.accounts.map f <+: (σ.removeSession s).accounts.map f
    rw [ServerState.removeSession_eq]
  | _ => first | exact List.prefix_rfl | exact absurd trivial hreads

theorem map_accounts_run {β : Type} {f : Account → β}
    (hf : ∀ a token, f { a with fcmToken := token } = f a) (env : Env) {α : Type} (p : Prog α)
    (w : World) :
    w.server.accounts.map f <+: (Proc.run (step env) p w).2.server.accounts.map f := by
  induction p generalizing w with
  | ret a => exact List.prefix_rfl
  | op o k ih =>
    have hstep : w.server.accounts.map f <+: (step env o w).2.server.accounts.map f :=
      map_accounts_exec hf env o (w.tape 0) w.server
    exact hstep.trans (ih _ _)

end ZwayServer
