import ZwayServer.Store
import ZwayServer.Delivery

/-!
# The payload of a push

What a sender puts into a push is stored as BSON and read back for the recipient.  The
converter on the way in has no case for doubles and for the null value, and stores an
empty buffer as an empty array.

* `Kept` — a value that neither converter changes, at any depth.
* `viaBson_eq_self_iff` — exactly these values come back as they were.
* `Posted.Genuine` — a posted request carries what its record says.
* `payload_iff` — a push reaches its recipient unchanged exactly if its payload is kept.
-/

namespace ZwayServer

open ClientSession

/-! ## Assigning field after field -/

namespace UBJ

theorem Object.set_of_not_mem {o : Object} {k : String} (h : k ∉ o.map Prod.fst) (v : Value) :
    o.set k v = o ++ [(k, v)] := by
  induction o with
  | nil => rfl
  | cons f o ih =>
    obtain ⟨k', v'⟩ := f
    rw [List.map_cons, List.mem_cons, not_or] at h
    rw [Object.set, if_neg (Ne.symm h.1), ih h.2]
    rfl

theorem Object.length_set_le (o : Object) (k : String) (v : Value) :
    (o.set k v).length ≤ o.length + 1 := by
  induction o with
  | nil => exact le_refl _
  | cons f o ih =>
    obtain ⟨k', v'⟩ := f
    rw [Object.set]
    split
    · exact Nat.le_succ _
    · exact Nat.succ_le_succ ih

/-- Different fields are kept in their order. -/
theorem Object.foldl_set_of_nodup (fs : List (String × Value)) (o : Object)
    (h : ((o ++ fs).map Prod.fst).Nodup) :
    fs.foldl (fun o f => Object.set o f.1 f.2) o = o ++ fs := by
  induction fs generalizing o with
  | nil => rw [List.foldl_nil, List.append_nil]
  | cons f fs ih =>
    have hnot : f.1 ∉ o.map Prod.fst := by
      intro hmem
      rw [List.map_append, List.map_cons] at h
      exact (List.nodup_append.mp h).2.2 f.1 hmem f.1 (List.mem_cons_self ..) rfl
    rw [List.foldl_cons, Object.set_of_not_mem hnot, ih]
    · rw [List.append_assoc]
      rfl
    · rw [List.append_assoc]
      exact h

theorem Object.nodup_foldl_set (fs : List (String × Value)) {o : Object}
    (h : (o.map Prod.fst).Nodup) :
    ((fs.foldl (fun o f => Object.set o f.1 f.2) o).map Prod.fst).Nodup := by
  induction fs generalizing o with
  | nil => exact h
  | cons f fs ih => exact ih (Object.nodup_set h f.1 f.2)

theorem Object.length_foldl_set_le (fs : List (String × Value)) (o : Object) :
    (fs.foldl (fun o f => Object.set o f.1 f.2) o).length ≤ o.length + fs.length := by
  induction fs generalizing o with
  | nil => exact le_refl _
  | cons f fs ih =>
    have hset := Object.length_set_le o f.1 f.2
    have hrest := ih (o.set f.1 f.2)
    rw [List.foldl_cons, List.length_cons]
    omega

end UBJ

/-! ## Values that are kept -/

mutual

/-- A value without doubles, null values and empty buffers at any depth, whose objects have
each key once. -/
def Kept : UBJ.Value → Prop
  | .object fs => (fs.map Prod.fst).Nodup ∧ KeptFields fs
  | .array xs => KeptElems xs
  | .buffer bs => bs ≠ []
  | .string _ => True
  | .int32 _ => True
  | .int64 _ => True
  | .bool _ => True
  | .double _ => False
  | .null => False

/-- The fields of an object are kept. -/
def KeptFields : List (String × UBJ.Value) → Prop
  | [] => True
  | (_, v) :: fs => Kept v ∧ KeptFields fs

/-- The elements of an array are kept. -/
def KeptElems : List UBJ.Value → Prop
  | [] => True
  | x :: xs => Kept x ∧ KeptElems xs

end

theorem length_bsonFieldsToUbj (d : Bson.Doc) : (bsonFieldsToUbj d).length = d.length := by
  induction d with
  | nil => rfl
  | cons f d ih =>
    rw [bsonFieldsToUbj, List.length_cons, ih, List.length_cons]

theorem length_ubjValToBson_le (k : String) (v : UBJ.Value) : (ubjValToBson k v).length ≤ 1 := by
  rcases ubjValToBson_cases k v with ⟨h, -⟩ | ⟨b, h, -⟩
  · simp [h]
  · simp [h]

/-- A field may be dropped on the way, and none is added. -/
theorem length_ubjFieldsToBson_le (fs : List (String × UBJ.Value)) :
    (ubjFieldsToBson fs).length ≤ fs.length := by
  induction fs with
  | nil => exact le_refl _
  | cons f fs ih =>
    have hval := length_ubjValToBson_le f.1 f.2
    rw [ubjFieldsToBson, List.length_append, List.length_cons]
    omega

theorem length_ubjElemsToBson_le (xs : List UBJ.Value) :
    (ubjElemsToBson xs).length ≤ xs.length := by
  induction xs with
  | nil => exact le_refl _
  | cons x xs ih =>
    have hval := length_ubjValToBson_le "" x
    rw [ubjElemsToBson, List.length_append, List.length_cons]
    omega

/-- The keys that are left are keys of the object, in its order. -/
theorem keys_ubjFieldsToBson_sublist (fs : List (String × UBJ.Value)) :
    ((bsonFieldsToUbj (ubjFieldsToBson fs)).map Prod.fst).Sublist (fs.map Prod.fst) := by
  induction fs with
  | nil => exact List.Sublist.refl _
  | cons f fs ih =>
    obtain ⟨k, v⟩ := f
    rw [ubjFieldsToBson, bsonFieldsToUbj_append, List.map_append, List.map_cons]
    rcases ubjValToBson_cases k v with ⟨h, -⟩ | ⟨b, h, -⟩
    · rw [h]
      exact ih.cons _
    · rw [h]
      exact ih.cons_cons _

/-- An object whose fields come back as they were is rebuilt as it was. -/
theorem foldl_set_eq_self_iff {fs fs' : List (String × UBJ.Value)}
    (hkeys : (fs'.map Prod.fst).Sublist (fs.map Prod.fst)) :
    fs'.foldl (fun o f => UBJ.Object.set o f.1 f.2) [] = fs ↔
      (fs.map Prod.fst).Nodup ∧ fs' = fs := by
  constructor
  · intro h
    have hnodup : (fs.map Prod.fst).Nodup := by
      rw [← h]
      exact UBJ.Object.nodup_foldl_set fs' List.nodup_nil
    have hle := UBJ.Object.length_foldl_set_le fs' []
    rw [h, List.length_nil, Nat.zero_add] at hle
    have hsame : fs'.map Prod.fst = fs.map Prod.fst :=
      hkeys.eq_of_length_le (by rw [List.length_map, List.length_map]; exact hle)
    refine ⟨hnodup, ?_⟩
    rw [← h]
    exact (UBJ.Object.foldl_set_of_nodup fs' [] (by rw [List.nil_append, hsame]; exact hnodup)).symm
  · rintro ⟨hnodup, rfl⟩
    exact UBJ.Object.foldl_set_of_nodup fs' [] hnodup

mutual

/-- A value is kept exactly if it comes back as it was. -/
theorem keeps_val (k : String) : ∀ v : UBJ.Value,
    bsonFieldsToUbj (ubjValToBson k v) = [(k, v)] ↔ Kept v
  | .object fs => by
    simp only [ubjValToBson, bsonFieldsToUbj, bsonToUbj, List.cons.injEq, Prod.mk.injEq,
      UBJ.Value.object.injEq, true_and, and_true, Kept]
    rw [foldl_set_eq_self_iff (keys_ubjFieldsToBson_sublist fs), keeps_fields fs]
  | .array xs => by
    simp only [ubjValToBson, bsonFieldsToUbj, bsonToUbj, List.cons.injEq, Prod.mk.injEq,
      UBJ.Value.array.injEq, true_and, and_true, Kept]
    exact keeps_elems xs
  | .buffer bs => by
    by_cases h : bs = []
    · simp [ubjValToBson, bsonFieldsToUbj, bsonToUbj, Kept, h]
    · simp [ubjValToBson, bsonFieldsToUbj, bsonToUbj, Kept, h]
  | .string s => by simp [ubjValToBson, bsonFieldsToUbj, bsonToUbj, Kept]
  | .int32 n => by simp [ubjValToBson, bsonFieldsToUbj, bsonToUbj, Kept]
  | .int64 n => by simp [ubjValToBson, bsonFieldsToUbj, bsonToUbj, Kept]
  | .bool b => by simp [ubjValToBson, bsonFieldsToUbj, bsonToUbj, Kept]
  | .double d => by simp [ubjValToBson, bsonFieldsToUbj, Kept]
  | .null => by simp [ubjValToBson, bsonFieldsToUbj, Kept]

theorem keeps_fields : ∀ fs : List (String × UBJ.Value),
    bsonFieldsToUbj (ubjFieldsToBson fs) = fs ↔ KeptFields fs
  | [] => by simp [ubjFieldsToBson, bsonFieldsToUbj, KeptFields]
  | (k, v) :: fs => by
    rw [ubjFieldsToBson, bsonFieldsToUbj_append, KeptFields, ← keeps_val k v, ← keeps_fields fs]
    rcases ubjValToBson_cases k v with ⟨h, -⟩ | ⟨b, h, -⟩
    · -- a dropped field leaves too few of them
      rw [h]
      refine ⟨fun he => ?_, fun he => ?_⟩
      · have hlen := congrArg List.length he
        have hle := length_ubjFieldsToBson_le fs
        simp only [bsonFieldsToUbj, List.nil_append, length_bsonFieldsToUbj,
          List.length_cons] at hlen
        omega
      · simp [bsonFieldsToUbj] at he
    · rw [h]
      simp [bsonFieldsToUbj]

theorem keeps_elems : ∀ xs : List UBJ.Value,
    (bsonFieldsToUbj (ubjElemsToBson xs)).map Prod.snd = xs ↔ KeptElems xs
  | [] => by simp [ubjElemsToBson, bsonFieldsToUbj, KeptElems]
  | x :: xs => by
    rw [ubjElemsToBson, bsonFieldsToUbj_append, List.map_append, KeptElems, ← keeps_val "" x,
      ← keeps_elems xs]
    rcases ubjValToBson_cases "" x with ⟨h, -⟩ | ⟨b, h, -⟩
    · rw [h]
      refine ⟨fun he => ?_, fun he => ?_⟩
      · have hlen := congrArg List.length he
        have hle := length_ubjElemsToBson_le xs
        simp only [bsonFieldsToUbj, List.map_nil, List.nil_append, List.length_map,
          length_bsonFieldsToUbj, List.length_cons] at hlen
        omega
      · simp [bsonFieldsToUbj] at he
    · rw [h]
      simp [bsonFieldsToUbj]

end

/-- A field that is missing stays missing, and any other comes back as it was exactly if its
value is kept. -/
theorem viaBson_eq_self_iff (v : UBJ.Value) : viaBson v = v ↔ v = .null ∨ Kept v := by
  rw [← keeps_val ""]
  rcases ubjValToBson_cases "" v with ⟨h, hv⟩ | ⟨b, h, hv⟩
  · rw [hv, h]
    simp [bsonFieldsToUbj, eq_comm]
  · rw [hv, h]
    constructor
    · intro he
      exact Or.inr (by simp [bsonFieldsToUbj, he])
    · rintro (rfl | he)
      · simp [ubjValToBson] at h
      · simpa [bsonFieldsToUbj] using he

/-! ## Objects and arrays through both converters -/

/-- A string that fits into a BSON field name. -/
def NulFree (key : String) : Prop := Char.ofNat 0 ∉ key.toList

instance (key : String) : Decidable (NulFree key) := by
  unfold NulFree
  infer_instance

/-- A value built, to any depth, by the constructors that the switch of `ubjValToBson` names. -/
inductive Encodable : UBJ.Value → Prop
  | object {fs : UBJ.Object} (hnodup : (fs.map Prod.fst).Nodup) (hkeys : ∀ f ∈ fs, NulFree f.1)
      (hfields : ∀ f ∈ fs, Encodable f.2) : Encodable (.object fs)
  | array {xs : List UBJ.Value} (helems : ∀ x ∈ xs, Encodable x) : Encodable (.array xs)
  | buffer {bs : List UInt8} (hne : bs ≠ []) : Encodable (.buffer bs)
  | string (s : String) : Encodable (.string s)
  | int32 (n : UInt32) : Encodable (.int32 n)
  | int64 (n : UInt64) : Encodable (.int64 n)
  | bool (b : Bool) : Encodable (.bool b)

theorem keptFields_of_forall {fs : UBJ.Object} (h : ∀ f ∈ fs, Kept f.2) : KeptFields fs := by
  induction fs with
  | nil => exact trivial
  | cons f fs ih =>
    exact ⟨h f (List.mem_cons_self ..), ih fun g hg => h g (List.mem_cons_of_mem _ hg)⟩

theorem keptElems_of_forall {xs : List UBJ.Value} (h : ∀ x ∈ xs, Kept x) : KeptElems xs := by
  induction xs with
  | nil => exact trivial
  | cons x xs ih =>
    exact ⟨h x (List.mem_cons_self ..), ih fun y hy => h y (List.mem_cons_of_mem _ hy)⟩

theorem Encodable.kept {v : UBJ.Value} (h : Encodable v) : Kept v := by
  induction h with
  | object hnodup _ _ ih => exact ⟨hnodup, keptFields_of_forall ih⟩
  | array _ ih => exact keptElems_of_forall ih
  | buffer hne => exact hne
  | string | int32 | int64 | bool => exact trivial

/-- **What was converted to BSON comes back.**  Keys, order and leaves are kept, although the
elements of an array are all written under the empty field name. -/
theorem bsonToUbj_ubjToBson :
    (∀ fs, Encodable (.object fs) → bsonObjToUbj (ubjToBson (.object fs)) = fs) ∧
      (∀ xs, Encodable (.array xs) → bsonArrToUbj (ubjToBson (.array xs)) = xs) := by
  constructor
  · intro fs h
    obtain ⟨hnodup, hfields⟩ := h.kept
    rw [ubjToBson, bsonObjToUbj, (keeps_fields fs).mpr hfields]
    exact UBJ.Object.foldl_set_of_nodup fs [] hnodup
  · intro xs h
    rw [ubjToBson, bsonArrToUbj, (keeps_elems xs).mpr h.kept]

/-- An array in an object in an array, beside a buffer. -/
def nestedArray : List UBJ.Value :=
  [.object [("a", .array [.int32 1, .bool true]), ("", .string "b")], .buffer [0]]

theorem bsonToUbj_ubjToBson_nested :
    bsonArrToUbj (ubjToBson (.array nestedArray)) = nestedArray := by
  refine bsonToUbj_ubjToBson.2 nestedArray (Encodable.array ?_)
  intro x hx
  simp only [nestedArray, List.mem_cons, List.not_mem_nil, or_false] at hx
  rcases hx with rfl | rfl
  · refine Encodable.object (by decide) (by decide) ?_
    intro f hf
    simp only [List.mem_cons, List.not_mem_nil, or_false] at hf
    rcases hf with rfl | rfl
    · refine Encodable.array ?_
      intro y hy
      simp only [List.mem_cons, List.not_mem_nil, or_false] at hy
      rcases hy with rfl | rfl
      · exact Encodable.int32 1
      · exact Encodable.bool true
    · exact Encodable.string "b"
  · exact Encodable.buffer (by decide)

/-! ## What is posted -/

/-- A posted request carries what its record says. -/
structure Posted.Genuine (env : Env) (p : Posted) : Prop where
  id : p.id = p.record.id
  type : p.type = p.record.type
  dst : ∃ x, p.record.dst = some x
  head : ∃ contactStatus, p.head = postedHead env p.record contactStatus

theorem MadeFrom.genuine {env : Env} {requests : List Record} {x : UInt32} {p : Posted}
    (h : MadeFrom env requests x p) : p.Genuine env :=
  ⟨h.id, h.type, ⟨x, h.dst⟩, h.head⟩

section

variable {env : Env} {σ : ServerState}

/-- A delivery posts requests that carry what their records say, and the records are stored. -/
theorem genuine_of_delivers {F : SessionId → Posted → Prop} {σ' : ServerState}
    (hd : Delivers F σ σ') (hF : ∀ s p, F s p → ∃ x, MadeFrom env σ.requests x p) {s : SessionId}
    {p : Posted} (hp : p ∈ (σ'.sessions s).posted) :
    p ∈ (σ.sessions s).posted ∨ p.Genuine env ∧ p.record ∈ σ'.requests := by
  refine (hd.mem_posted hp).imp id fun hFp => ?_
  obtain ⟨x, hmade⟩ := hF s p hFp
  rw [hd.requests]
  exact ⟨hmade.genuine, hmade.mem⟩

/-- A step posts requests that carry what their records say, and the records are stored. -/
theorem posted_next {a : Act} (hp : a.Possible σ) {s : SessionId} {p : Posted}
    (hmem : p ∈ ((next env σ a).sessions s).posted) :
    p ∈ (σ.sessions s).posted ∨ p.Genuine env ∧ p.record ∈ (next env σ a).requests := by
  by_cases hlife : a.event.IsLife
  · exact Or.inl (by rwa [(sameStore_next env hp hlife).posted s] at hmem)
  obtain ⟨event, tape⟩ := a
  cases event with
  | connect | handshake | disconnect | removeSessions => exact absurd trivial hlife
  | request u head =>
    cases next_request env hp with
    | refused _ hq => exact Or.inl (by rwa [hq.posted_eq] at hmem)
    | edited _ _ he => exact Or.inl (by rwa [he.posted] at hmem)
    | loggedOut _ _ hq =>
      rw [hq.posted_eq] at hmem
      by_cases hs : s = u
      · subst hs
        exact Or.inl (by simpa [ServerState.setStatus] using hmem)
      · exact Or.inl (by simpa [ServerState.setStatus, hs] using hmem)
    | created account _ _ _ hq => exact Or.inl (by rwa [hq.posted_eq] at hmem)
    | loggedIn x _ _ hd =>
      have hF : ∀ t q, (t = u ∧ MadeFrom env σ.requests x q) →
          ∃ y, MadeFrom env (σ.login u x).requests y q := fun t q hmade => by
        rw [ServerState.login_eq]
        exact ⟨x, hmade.2⟩
      rcases genuine_of_delivers hd hF hmem with hold | hnew
      · by_cases hs : s = u
        · subst hs
          exact Or.inl (by simpa using hold)
        · exact Or.inl (by simpa [hs] using hold)
      · exact Or.inr hnew
  | response u k head =>
    obtain ⟨q, hq, hresp⟩ := next_response env hp
    refine Or.inl (σ.mem_posted_takePosted (s := u) (k := k) ?_)
    split at hresp
    · rw [hresp.posted_eq, World.removeRequest] at hmem
      split at hmem <;> exact hmem
    · rwa [hresp] at hmem
  | createReceiver u pkt => exact Or.inl (by rwa [(next_createReceiver env hp).posted_eq] at hmem)
  | receive u id body => exact Or.inl (by rwa [(next_receive env hp).posted_eq] at hmem)
  | received u id =>
    have hrecv := next_received env hp
    split at hrecv
    · exact Or.inl (by rwa [hrecv] at hmem)
    · rcases genuine_of_delivers hrecv (fun t p hmade => ⟨_, hmade.2⟩) hmem with hold | hnew
      · rw [sessions_insertRequest] at hold
        exact Or.inl hold
      · exact Or.inr hnew
  | userRequests k =>
    rcases genuine_of_delivers (next_userRequests env hp) (fun t p hmade => ⟨_, hmade.2⟩) hmem
      with hold | hnew
    · exact Or.inl hold
    · exact Or.inr hnew
  | send k size offset => exact Or.inl (by rwa [(next_send env hp).posted_eq] at hmem)
  | timer completed => exact Or.inl (by rwa [(next_timer env hp).posted_eq] at hmem)

end

/-- Whatever is posted carries what its record says. -/
theorem genuine_after (env : Env) (tr : List Act) :
    ∀ s, ∀ p ∈ ((after env tr).sessions s).posted, p.Genuine env := by
  refine invariant_after (P := fun σ => ∀ s, ∀ p ∈ (σ.sessions s).posted, p.Genuine env)
    (fun s p hp => absurd hp List.not_mem_nil) (fun σ a hp h s p hmem => ?_) tr
  rcases posted_next hp hmem with hold | hnew
  · exact h s p hold
  · exact hnew.1

/-! ## From the sender to the recipient -/

/-- The object posted to the recipient of an entry of the keys is the one that was sent: the id
as the server read it, the type, the resources, the salt, the meta data, and the key of the
entry. -/
structure Carries (posted head : UBJ.Object) (it : UBJ.Value) : Prop where
  requestId : posted.get "requestId" = .int32 (head.get "requestId").toInt
  requestType : posted.get "requestType" = head.get "requestType"
  resources : posted.get "resources" = head.get "resources"
  salt : posted.get "salt" = head.get "salt"
  metaData : posted.get "meta" = head.get "meta"
  key : posted.get "key" = it.get "key"

/-- A field that is missing, or has a value that is kept. -/
def KeptField (v : UBJ.Value) : Prop := v = .null ∨ Kept v

/-- Everything that a push sends is missing or kept. -/
structure KeptPush (head : UBJ.Object) (it : UBJ.Value) : Prop where
  requestType : KeptField (head.get "requestType")
  resources : KeptField (head.get "resources")
  salt : KeptField (head.get "salt")
  metaData : KeptField (head.get "meta")
  key : KeptField (it.get "key")

/-- Through the store, an object is carried exactly if all of it is kept. -/
theorem carries_iff (x : UInt32) (head : UBJ.Object) (it : UBJ.Value) :
    Carries (bsonObjToUbj (ubjToBson (.object ((forwardOf x head).set "key" (it.get "key")))))
        head it ↔
      KeptPush head it := by
  have hkeys : (forwardOf x head).map Prod.fst =
      ["requestId", "requestType", "src", "resources", "salt", "meta"] := rfl
  have hnodup : (((forwardOf x head).set "key" (it.get "key")).map Prod.fst).Nodup :=
    UBJ.Object.nodup_set (by rw [hkeys]; decide) _ _
  have hget := fun k => get_bsonObjToUbj_ubjToBson hnodup k
  have hfield : ∀ k v, ((forwardOf x head).set "key" (it.get "key")).get k = v →
      ((bsonObjToUbj (ubjToBson (.object ((forwardOf x head).set "key" (it.get "key"))))).get k =
          v ↔ KeptField v) := by
    rintro k v rfl
    rw [hget k]
    exact viaBson_eq_self_iff _
  have hid : (bsonObjToUbj (ubjToBson (.object ((forwardOf x head).set "key" (it.get "key"))))).get
      "requestId" = .int32 (head.get "requestId").toInt := by
    rw [hget]
    simp [forwardOf]
  have htype := hfield "requestType" (head.get "requestType") (by simp [forwardOf])
  have hresources := hfield "resources" (head.get "resources") (by simp [forwardOf])
  have hsalt := hfield "salt" (head.get "salt") (by simp [forwardOf])
  have hmeta := hfield "meta" (head.get "meta") (by simp [forwardOf])
  have hkey := hfield "key" (it.get "key") (by simp)
  constructor
  · intro h
    exact ⟨htype.mp h.requestType, hresources.mp h.resources, hsalt.mp h.salt, hmeta.mp h.metaData,
      hkey.mp h.key⟩
  · intro h
    exact ⟨hid, htype.mpr h.requestType, hresources.mpr h.resources, hsalt.mpr h.salt,
      hmeta.mpr h.metaData, hkey.mpr h.key⟩

/-- A record that is new after a push was made from one entry of its keys. -/
theorem new_pushed {env : Env} {tr : List Act} {s : SessionId} {head : UBJ.Object}
    {tape : Nat → Choice} (hp : (Act.mk (.request s head) tape).Possible (after env tr))
    (ht : env.decode (head.get "requestType").toInt = some .push) {r : Record}
    (hr : r ∈ (after env (⟨.request s head, tape⟩ :: tr)).requests)
    (hnew : (after env tr).nextOid ≤ r.oid) :
    ∃ it ∈ (head.get "keys").toArray,
      (it.get "dst").toInt ≠ ((after env tr).sessions s).accountId ∧
      r.toRequest = pushRequest ((after env tr).sessions s).accountId (head.get "requestId").toInt
        (it.get "dst").toInt
        ((forwardOf ((after env tr).sessions s).accountId head).set "key" (it.get "key")) := by
  have hinv := storeInv_after env tr
  rw [after_cons, requests_next_request env hinv hp] at hr
  rcases List.mem_append.mp hr with hold | hstored
  · have hlt := hinv.fresh r ((without_sublist _ _).subset hold)
    omega
  · have hmem := (oid_of_mem_storedFrom hstored).2
    rw [wanted, ht] at hmem
    dsimp only at hmem
    split at hmem
    · obtain ⟨it, hit, hne, he⟩ := (mem_pushedRequests head).mp hmem
      exact ⟨it, hit, hne, he⟩
    · cases hmem

/-- **The payload of a push.**  Whatever is posted, at any later time and to any session, from a
record that a push stored carries what the sender put into the push and into the recipient's
entry of the keys, exactly if all of it is missing or kept. -/
theorem payload_iff (env : Env) {later earlier : List Act} {s : SessionId} {head : UBJ.Object}
    {tape : Nat → Choice} (hp : (Act.mk (.request s head) tape).Possible (after env earlier))
    (ht : env.decode (head.get "requestType").toInt = some .push) {t : SessionId} {p : Posted}
    (hposted : p ∈ ((after env (later ++ ⟨.request s head, tape⟩ :: earlier)).sessions t).posted)
    (hrecord : p.record ∈ (after env (⟨.request s head, tape⟩ :: earlier)).requests)
    (hnew : (after env earlier).nextOid ≤ p.record.oid) :
    ∃ it ∈ (head.get "keys").toArray,
      p.record.toRequest = pushRequest ((after env earlier).sessions s).accountId
        (head.get "requestId").toInt (it.get "dst").toInt
        ((forwardOf ((after env earlier).sessions s).accountId head).set "key" (it.get "key")) ∧
      (Carries p.head head it ↔ KeptPush head it) := by
  obtain ⟨it, hit, -, hrequest⟩ := new_pushed hp ht hrecord hnew
  obtain ⟨contactStatus, hhead⟩ := (genuine_after env _ t p hposted).head
  have htype : p.record.type = .push := congrArg Request.type hrequest
  have hdata : p.record.data = some (ubjToBson (.object
      ((forwardOf ((after env earlier).sessions s).accountId head).set "key" (it.get "key")))) :=
    congrArg Request.data hrequest
  refine ⟨it, hit, hrequest, ?_⟩
  have hobject : p.head = bsonObjToUbj (ubjToBson (.object
      ((forwardOf ((after env earlier).sessions s).accountId head).set "key" (it.get "key")))) := by
    rw [hhead, postedHead, htype, hdata]
    rfl
  rw [hobject]
  exact carries_iff _ head it

/-- A push to the account 2 whose meta data is an object with one double. -/
def doublePush : UBJ.Object :=
  sampleRequest .push 7 [("meta", .object [("x", .double 0x3FF8000000000000)]),
    ("keys", .array [.object [("dst", .int32 2)]])]

/-- Two accounts join, and one pushes to the other. -/
def doubleRun : List Act :=
  ⟨.userRequests 0, calm 0⟩ :: sampleStep 0 doublePush ::
    (sampleJoin 1 "b" 2 ++ sampleJoin 0 "a" 1)

/-- A posted push without any meta data left. -/
def Posted.emptyMeta (p : Posted) : Bool :=
  match p.type, p.head.get "meta" with
  | .push, .object [] => true
  | _, _ => false

theorem exists_posted_double :
    ∃ p ∈ ((after sampleEnv doubleRun).sessions 1).posted, p.emptyMeta = true := by
  have h : ((after sampleEnv doubleRun).sessions 1).posted.any Posted.emptyMeta = true := by
    decide +kernel
  exact List.any_eq_true.mp h

theorem not_carries_double : ∃ p ∈ ((after sampleEnv doubleRun).sessions 1).posted,
    p.type = .push ∧ ∀ it ∈ (doublePush.get "keys").toArray, ¬ Carries p.head doublePush it := by
  obtain ⟨p, hp, hempty⟩ := exists_posted_double
  rw [Posted.emptyMeta] at hempty
  split at hempty
  · next htype hmeta =>
    refine ⟨p, hp, htype, fun it _ hcarries => ?_⟩
    have hsent := hcarries.metaData
    rw [hmeta] at hsent
    cases hsent
  · cases hempty

theorem payload_iff_double : ∃ p ∈ ((after sampleEnv doubleRun).sessions 1).posted,
    ∃ it ∈ (doublePush.get "keys").toArray,
      p.record.toRequest = pushRequest 1 7 (it.get "dst").toInt
        ((forwardOf 1 doublePush).set "key" (it.get "key")) ∧
      (Carries p.head doublePush it ↔ KeptPush doublePush it) := by
  have hposted :
      ((after sampleEnv doubleRun).sessions 1).posted.all (·.record.oid == 0) = true := by
    decide +kernel
  have hstored : (after sampleEnv doubleRun).requests.map Record.oid = [0] := by decide +kernel
  obtain ⟨p, hp, -⟩ := exists_posted_double
  have hoid : p.record.oid = 0 := by simpa using List.all_eq_true.mp hposted p hp
  -- the record is still there, and it was there right after the push
  obtain ⟨r, hr, hroid⟩ : ∃ r ∈ (after sampleEnv doubleRun).requests, r.oid = 0 := by
    have hmem : 0 ∈ (after sampleEnv doubleRun).requests.map Record.oid := by
      rw [hstored]
      exact List.mem_singleton.mpr rfl
    obtain ⟨r, hr, he⟩ := List.mem_map.mp hmem
    exact ⟨r, hr, he⟩
  obtain rfl : r = p.record :=
    (storeInv_after sampleEnv doubleRun).postedSame 1 p hp r hr (hroid.trans hoid.symm)
  have hearlier : p.record ∈ (after sampleEnv (doubleRun.drop 1)).requests := by
    rcases mem_earlier sampleEnv [⟨.userRequests 0, calm 0⟩] (doubleRun.drop 1) hr with h | h
    · exact h
    · have hnext : (after sampleEnv (doubleRun.drop 1)).nextOid = 1 := by decide +kernel
      omega
  have hpossible : (Act.mk (.request 0 doublePush) (calm 0)).Possible
      (after sampleEnv (doubleRun.drop 2)) := by decide +kernel
  have hzero : (after sampleEnv (doubleRun.drop 2)).nextOid = 0 := by decide +kernel
  have hid : ((after sampleEnv (doubleRun.drop 2)).sessions 0).accountId = 1 := by decide +kernel
  have hlater : p ∈ ((after sampleEnv ([⟨.userRequests 0, calm 0⟩] ++
      ⟨.request 0 doublePush, calm 0⟩ :: doubleRun.drop 2)).sessions 1).posted := hp
  have hpayload := payload_iff sampleEnv hpossible (by decide +kernel) hlater hearlier (by omega)
  rw [hid] at hpayload
  exact ⟨p, hp, hpayload⟩

end ZwayServer
