import Mathlib

/-!
# UBJ values

The values clients send and receive: `Zway::UBJ::Value` and `Zway::UBJ::Object`
as far as the server uses them.  The library itself is not part of the
repository; its accessors are total, and on a missing field or a value of
another type they answer with the empty value of the type asked for.

* `UBJ.Value` — one constructor for each type tag the server distinguishes.
* `UBJ.Object.get`, `UBJ.Object.set` — `obj["key"]` read and assigned, with
  their laws.
-/

namespace ZwayServer
namespace UBJ

/-- A UBJ value.  Integers and doubles are kept as their bit patterns. -/
inductive Value where
  | null
  | bool (b : Bool)
  | int32 (n : UInt32)
  | int64 (n : UInt64)
  | double (bits : UInt64)
  | string (s : String)
  | buffer (bytes : List UInt8)
  | array (xs : List Value)
  | object (fields : List (String × Value))
  deriving Inhabited, Repr, BEq

/-- The fields of an object, each key once. -/
abbrev Object := List (String × Value)

/-- `obj["key"]`, read: a missing field reads as the null value. -/
def Object.get (o : Object) (k : String) : Value := (o.lookup k).getD .null

/-- `obj.hasField("key")`. -/
def Object.hasField (o : Object) (k : String) : Bool := (o.lookup k).isSome

/-- `obj["key"] = v`. -/
def Object.set : Object → String → Value → Object
  | [], k, v => [(k, v)]
  | (k', v') :: o, k, v => if k' = k then (k, v) :: o else (k', v') :: Object.set o k v

namespace Value

/-- `toInt()`, as the 32-bit pattern the callers store. -/
def toInt : Value → UInt32
  | .int32 n => n
  | _ => 0

/-- `toStr()`. -/
def toStr : Value → String
  | .string s => s
  | _ => ""

/-- `toBool()`; the server writes flags as integers too (`"notifyStatus" << 1`). -/
def toBool : Value → Bool
  | .bool b => b
  | .int32 n => n != 0
  | _ => false

/-- The elements of an array. -/
def toArray : Value → List Value
  | .array xs => xs
  | _ => []

/-- The value as an object. -/
def toObject : Value → Object
  | .object o => o
  | _ => []

/-- `buffer()`: null unless the value is a buffer. -/
def buffer? : Value → Option (List UInt8)
  | .buffer bs => some bs
  | _ => none

/-- `bufferSize()`. -/
def bufferSize (v : Value) : Nat := (v.buffer?.getD []).length

/-- `v["key"]` on a value that may be an object. -/
def get (v : Value) (k : String) : Value := v.toObject.get k

end Value

/-! ## Reading after assigning -/

@[simp] theorem Object.get_nil (k : String) : Object.get [] k = .null := rfl

@[simp] theorem Object.get_cons (k' : String) (v : Value) (o : Object) (k : String) :
    Object.get ((k', v) :: o) k = if k = k' then v else Object.get o k := by
  by_cases h : k = k'
  · simp [Object.get, h]
  · simp [Object.get, List.lookup_cons, h, beq_eq_false_iff_ne.mpr h]

@[simp] theorem Object.hasField_nil (k : String) : Object.hasField [] k = false := rfl

@[simp] theorem Object.hasField_cons (k' : String) (v : Value) (o : Object) (k : String) :
    Object.hasField ((k', v) :: o) k = (k == k' || Object.hasField o k) := by
  rw [Object.hasField, List.lookup_cons]
  split
  · next h => simp [h]
  · next h => simp [h, Object.hasField]

@[simp] theorem Object.get_set (o : Object) (k : String) (v : Value) (j : String) :
    (o.set k v).get j = if j = k then v else o.get j := by
  induction o with
  | nil => simp [Object.set]
  | cons f o ih =>
    obtain ⟨k', v'⟩ := f
    by_cases hk : k' = k
    · subst hk
      by_cases hj : j = k' <;> simp [Object.set, hj]
    · by_cases hj : j = k'
      · subst hj
        simp [Object.set, hk]
      · simp [Object.set, hk, hj, ih]

/-- The second assignment under a key undoes the first. -/
@[simp] theorem Object.set_set (o : Object) (k : String) (v v' : Value) :
    (o.set k v).set k v' = o.set k v' := by
  induction o with
  | nil => simp [Object.set]
  | cons f o ih =>
    obtain ⟨j, w⟩ := f
    by_cases hj : j = k <;> simp [Object.set, hj, ih]

/-- Assigning under an existing key keeps the keys, under a new one it adds the key. -/
theorem Object.mem_keys_set {o : Object} {k j : String} {v : Value}
    (h : j ∈ (o.set k v).map Prod.fst) : j = k ∨ j ∈ o.map Prod.fst := by
  induction o with
  | nil =>
    simp only [Object.set, List.map_cons, List.map_nil, List.mem_singleton] at h
    exact Or.inl h
  | cons f o ih =>
    obtain ⟨k', v'⟩ := f
    by_cases hk : k' = k
    · subst hk
      simp only [Object.set, if_true, List.map_cons, List.mem_cons] at h ⊢
      exact Or.inr h
    · simp only [Object.set, hk, if_false, List.map_cons, List.mem_cons] at h ⊢
      rcases h with h | h
      · exact Or.inr (Or.inl h)
      · rcases ih h with h | h
        · exact Or.inl h
        · exact Or.inr (Or.inr h)

/-- An object keeps each key once. -/
theorem Object.nodup_set {o : Object} (h : (o.map Prod.fst).Nodup) (k : String) (v : Value) :
    ((o.set k v).map Prod.fst).Nodup := by
  induction o with
  | nil => simp [Object.set]
  | cons f o ih =>
    obtain ⟨k', v'⟩ := f
    rw [List.map_cons, List.nodup_cons] at h
    by_cases hk : k' = k
    · subst hk
      simpa [Object.set] using h
    · simp only [Object.set, hk, if_false, List.map_cons, List.nodup_cons]
      refine ⟨fun hmem => ?_, ih h.2⟩
      rcases Object.mem_keys_set hmem with he | hmem
      · exact hk he
      · exact h.1 hmem

end UBJ
end ZwayServer
