import ZwayServer.Ubj

/-!
# BSON documents and the two converters

Requests are stored in MongoDB as BSON, so client data crosses two converters of
`ClientSession`: `ubjToBson` on the way in and `bsonObjToUbj` / `bsonArrToUbj` on
the way out.  Both are translated here type switch by type switch; a value whose
type a switch does not name is skipped.

The main fact is `get_bsonObjToUbj_ubjToBson`: reading a field of an object that
went through both converters gives what that field alone becomes.
-/

namespace ZwayServer
namespace Bson

/-- A BSON element's value; a missing element is `eoo`. -/
inductive Value where
  | eoo
  | object (fields : List (String × Value))
  | array (fields : List (String × Value))
  | string (s : String)
  | int32 (n : UInt32)
  | int64 (n : UInt64)
  | double (bits : UInt64)
  | bool (b : Bool)
  | binData (bytes : List UInt8)
  deriving Inhabited, Repr, BEq

/-- A BSON document: its elements in the order they were appended. -/
abbrev Doc := List (String × Value)

end Bson

open Bson (Doc)

/-! ## From UBJ to BSON -/

mutual

/-- `ClientSession::ubjValToBson`: the elements appended for `val` under `key`.
The switch has no case for doubles and for the null value. -/
def ubjValToBson : String → UBJ.Value → Doc
  | key, .object fs => [(key, .object (ubjFieldsToBson fs))]
  | key, .array xs => [(key, .array (ubjElemsToBson xs))]
  | key, .buffer bs => if bs = [] then [(key, .array [])] else [(key, .binData bs)]
  | key, .string s => [(key, .string s)]
  | key, .int32 n => [(key, .int32 n)]
  | key, .int64 n => [(key, .int64 n)]
  | key, .bool b => [(key, .bool b)]
  | _, .double _ => []
  | _, .null => []

/-- The loop of `ClientSession::ubjToBson` over the fields of an object. -/
def ubjFieldsToBson : List (String × UBJ.Value) → Doc
  | [] => []
  | (k, v) :: fs => ubjValToBson k v ++ ubjFieldsToBson fs

/-- The loop of `ClientSession::ubjToBson` over the elements of an array, which
are all written under the empty field name. -/
def ubjElemsToBson : List UBJ.Value → Doc
  | [] => []
  | x :: xs => ubjValToBson "" x ++ ubjElemsToBson xs

end

/-- `ClientSession::ubjToBson`. -/
def ubjToBson : UBJ.Value → Doc
  | .object fs => ubjFieldsToBson fs
  | .array xs => ubjElemsToBson xs
  | _ => []

/-! ## From BSON to UBJ -/

mutual

/-- `ClientSession::bsonToUbj`. -/
def bsonToUbj : Bson.Value → UBJ.Value
  | .object fs => .object ((bsonFieldsToUbj fs).foldl (fun o f => UBJ.Object.set o f.1 f.2) [])
  | .array fs => .array ((bsonFieldsToUbj fs).map Prod.snd)
  | .string s => .string s
  | .int32 n => .int32 n
  | .int64 n => .int64 n
  | .double d => .double d
  | .bool b => .bool b
  | .binData bs => if bs = [] then .null else .buffer bs
  | .eoo => .null

/-- The elements of a document, each converted. -/
def bsonFieldsToUbj : List (String × Bson.Value) → List (String × UBJ.Value)
  | [] => []
  | (k, v) :: fs => (k, bsonToUbj v) :: bsonFieldsToUbj fs

end

/-- `ClientSession::bsonObjToUbj`: `res[name] = value` for each element in turn. -/
def bsonObjToUbj (doc : Doc) : UBJ.Object :=
  (bsonFieldsToUbj doc).foldl (fun o f => o.set f.1 f.2) []

/-- `ClientSession::bsonArrToUbj`: the field names are dropped. -/
def bsonArrToUbj (doc : Doc) : List UBJ.Value := (bsonFieldsToUbj doc).map Prod.snd

/-! ## A field through both converters -/

/-- What a single value becomes when it is stored under some key and read back. -/
def viaBson (v : UBJ.Value) : UBJ.Value :=
  match ubjValToBson "" v with
  | [] => .null
  | f :: _ => bsonToUbj f.2

@[simp] theorem bsonFieldsToUbj_append (d e : Doc) :
    bsonFieldsToUbj (d ++ e) = bsonFieldsToUbj d ++ bsonFieldsToUbj e := by
  induction d with
  | nil => simp [bsonFieldsToUbj]
  | cons f d ih => simp [bsonFieldsToUbj, ih]

/-- At most one element is appended, and its value does not depend on the key. -/
theorem ubjValToBson_cases (k : String) (v : UBJ.Value) :
    (ubjValToBson k v = [] ∧ viaBson v = .null) ∨
      ∃ b, ubjValToBson k v = [(k, b)] ∧ viaBson v = bsonToUbj b := by
  cases v with
  | null => exact Or.inl ⟨rfl, rfl⟩
  | double d => exact Or.inl ⟨rfl, rfl⟩
  | buffer bs =>
    refine Or.inr ?_
    by_cases h : bs = []
    · exact ⟨.array [], by simp [ubjValToBson, h], by simp [viaBson, ubjValToBson, h]⟩
    · exact ⟨.binData bs, by simp [ubjValToBson, h], by simp [viaBson, ubjValToBson, h]⟩
  | _ => exact Or.inr (by simp [viaBson, ubjValToBson])

@[simp] theorem viaBson_int32 (n : UInt32) : viaBson (.int32 n) = .int32 n := by
  simp [viaBson, ubjValToBson, bsonToUbj]

/-- Assigning fields under other keys does not change what is read under `k`. -/
theorem get_foldl_set_of_ne {k : String} (fs : List (String × UBJ.Value)) (o : UBJ.Object)
    (h : ∀ f ∈ fs, f.1 ≠ k) :
    UBJ.Object.get (fs.foldl (fun o f => o.set f.1 f.2) o) k = o.get k := by
  induction fs generalizing o with
  | nil => rfl
  | cons f fs ih =>
    rw [List.foldl_cons, ih _ fun g hg => h g (List.mem_cons_of_mem _ hg), UBJ.Object.get_set,
      if_neg (h f (List.mem_cons_self ..)).symm]

theorem mem_ubjFieldsToBson {f : String × Bson.Value} {fs : List (String × UBJ.Value)}
    (h : f ∈ ubjFieldsToBson fs) : f.1 ∈ fs.map Prod.fst := by
  induction fs with
  | nil => simp [ubjFieldsToBson] at h
  | cons g fs ih =>
    obtain ⟨k, v⟩ := g
    rw [ubjFieldsToBson, List.mem_append] at h
    rcases h with h | h
    · rcases ubjValToBson_cases k v with ⟨he, -⟩ | ⟨b, he, -⟩
      · simp [he] at h
      · rw [he, List.mem_singleton] at h
        simp [h]
    · exact List.mem_cons_of_mem _ (ih h)

theorem fst_mem_of_mem_bsonFieldsToUbj {f : String × UBJ.Value} {d : Doc}
    (h : f ∈ bsonFieldsToUbj d) : ∃ g ∈ d, g.1 = f.1 := by
  induction d with
  | nil => simp [bsonFieldsToUbj] at h
  | cons g d ih =>
    rw [bsonFieldsToUbj, List.mem_cons] at h
    rcases h with rfl | h
    · exact ⟨g, List.mem_cons_self .., rfl⟩
    · obtain ⟨g', hg', he⟩ := ih h
      exact ⟨g', List.mem_cons_of_mem _ hg', he⟩

/-- Reading a field of an object that was stored and read back gives what that
field's value becomes by itself. -/
theorem get_bsonObjToUbj_ubjToBson {fs : UBJ.Object} (hnd : (fs.map Prod.fst).Nodup) (k : String) :
    (bsonObjToUbj (ubjToBson (.object fs))).get k = viaBson (fs.get k) := by
  -- the object being rebuilt may already hold other fields, as long as it lacks `k`
  have key : ∀ (fs : UBJ.Object), (fs.map Prod.fst).Nodup → ∀ o : UBJ.Object, o.get k = .null →
      UBJ.Object.get ((bsonFieldsToUbj (ubjFieldsToBson fs)).foldl (fun o f => o.set f.1 f.2) o) k =
        viaBson (fs.get k) := by
    intro fs
    induction fs with
    | nil => intro _ o ho; simpa [ubjFieldsToBson, bsonFieldsToUbj, viaBson, ubjValToBson] using ho
    | cons f fs ih =>
      obtain ⟨j, v⟩ := f
      intro hnd o ho
      obtain ⟨hj, hnd⟩ := List.nodup_cons.mp hnd
      rw [ubjFieldsToBson, bsonFieldsToUbj_append, List.foldl_append, UBJ.Object.get_cons]
      by_cases hk : k = j
      · subst hk
        have hrest : ∀ f ∈ bsonFieldsToUbj (ubjFieldsToBson fs), f.1 ≠ k := by
          intro f hf he
          obtain ⟨g, hg, hgf⟩ := fst_mem_of_mem_bsonFieldsToUbj hf
          exact hj (he ▸ hgf ▸ mem_ubjFieldsToBson hg)
        rw [get_foldl_set_of_ne _ _ hrest, if_pos rfl]
        rcases ubjValToBson_cases k v with ⟨he, hv⟩ | ⟨b, he, hv⟩
        · rw [he, hv]; exact ho
        · simp [he, hv, bsonFieldsToUbj]
      · rw [if_neg hk]
        refine ih hnd _ ?_
        rcases ubjValToBson_cases j v with ⟨he, -⟩ | ⟨b, he, -⟩
        · rw [he]; exact ho
        · simpa [he, bsonFieldsToUbj, hk] using ho
  exact key fs hnd [] rfl

end ZwayServer
