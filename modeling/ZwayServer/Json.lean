import Mathlib.Data.List.Count
import Mathlib.Tactic.Common

/-!
# JSON texts of strings and objects

The part of JSON that has strings and objects only: a reader, with its white space and its
escapes, and a writer that puts every string down as it is.

* `readString_append_iff` — a string put down as it is, and what comes back.
* `length_write_le` — a text is not shorter than what it says.
* `read_write_iff` — a written value is read back if and only if it is clean: none of its strings
  needed an escape.
-/

namespace Json

mutual

/-- A string or an object. -/
inductive Value where
  | string (s : List Char)
  | object (fields : Fields)

/-- The fields of an object, in order, repeated keys and all. -/
inductive Fields where
  | nil
  | cons (key : List Char) (v : Value) (rest : Fields)

end

/-! ## Reading -/

/-- The character that ends a string. -/
abbrev quote : Char := '\x22'

/-- White space between the parts of a text. -/
def isSpace (c : Char) : Bool := c = ' ' || c = '\t' || c = '\n' || c = '\r'

/-- The text without the white space at its start. -/
def skip (t : List Char) : List Char := t.dropWhile isSpace

/-- The text after the next part, if that is `c`. -/
def expect (c : Char) (t : List Char) : Option (List Char) :=
  match skip t with
  | [] => none
  | d :: r => if d = c then some r else none

/-- The value of a hexadecimal digit. -/
def hexDigit (c : Char) : Option ℕ :=
  if c.isDigit then some (c.toNat - 48)
  else if 97 ≤ c.toNat ∧ c.toNat ≤ 102 then some (c.toNat - 87)
  else if 65 ≤ c.toNat ∧ c.toNat ≤ 70 then some (c.toNat - 55)
  else none

/-- Four hexadecimal digits. -/
def hex4 : List Char → Option (ℕ × List Char)
  | a :: b :: c :: d :: r =>
    match hexDigit a, hexDigit b, hexDigit c, hexDigit d with
    | some a, some b, some c, some d => some (((a * 16 + b) * 16 + c) * 16 + d, r)
    | _, _, _, _ => none
  | _ => none

/-- The escapes of one letter. -/
def letterEscape (c : Char) : Option Char :=
  if c = quote ∨ c = '\\' ∨ c = '/' then some c
  else if c = 'b' then some '\x08'
  else if c = 'f' then some '\x0c'
  else if c = 'n' then some '\n'
  else if c = 'r' then some '\r'
  else if c = 't' then some '\t'
  else none

/-- The second half of a character that is escaped in two halves. -/
def secondHalf (high : ℕ) : List Char → Option (Char × List Char)
  | a :: b :: r =>
    match hex4 r with
    | some (low, r) =>
      if a = '\\' ∧ b = 'u' ∧ 0xdc00 ≤ low ∧ low < 0xe000 then
        some (Char.ofNat (0x10000 + (high - 0xd800) * 0x400 + (low - 0xdc00)), r)
      else none
    | none => none
  | _ => none

/-- What follows a backslash. -/
def unescape : List Char → Option (Char × List Char)
  | [] => none
  | c :: r =>
    if c = 'u' then
      match hex4 r with
      | some (n, r) =>
        if n < 0xd800 ∨ 0xe000 ≤ n then some (Char.ofNat n, r)
        else if n < 0xdc00 then secondHalf n r
        else none
      | none => none
    else (letterEscape c).map fun d => (d, r)

/-- A string, after its first quote. -/
def readString : ℕ → List Char → Option (List Char × List Char)
  | 0, _ => none
  | _ + 1, [] => none
  | n + 1, c :: r =>
    if c = quote then some ([], r)
    else if c = '\\' then
      match unescape r with
      | some (d, r) => (readString n r).map fun x => (d :: x.1, x.2)
      | none => none
    else if c.toNat < 32 then none
    else (readString n r).map fun x => (c :: x.1, x.2)

mutual

/-- A value, and the text after it. -/
def readValue : ℕ → List Char → Option (Value × List Char)
  | 0, _ => none
  | n + 1, t =>
    match expect quote t with
    | some r => (readString r.length r).map fun x => (.string x.1, x.2)
    | none =>
      match expect '{' t with
      | some r =>
        match expect '}' r with
        | some r => some (.object .nil, r)
        | none => (readFields n r).map fun x => (.object x.1, x.2)
      | none => none

/-- One field or more, and the brace that ends them. -/
def readFields : ℕ → List Char → Option (Fields × List Char)
  | 0, _ => none
  | n + 1, t =>
    match (expect quote t).bind fun r => readString r.length r with
    | some (k, r) =>
      match (expect ':' r).bind (readValue n) with
      | some (v, r) =>
        match expect ',' r with
        | some r => (readFields n r).map fun x => (.cons k v x.1, x.2)
        | none => (expect '}' r).map fun r => (.cons k v .nil, r)
      | none => none
    | none => none

end

/-- A whole text. -/
def read (t : List Char) : Option Value :=
  match readValue (t.length + 1) t with
  | some (v, r) => if skip r = [] then some v else none
  | none => none

/-! ## Writing -/

mutual

/-- The value, each string as it is. -/
def write : Value → List Char
  | .string s => quote :: (s ++ [quote])
  | .object fields => '{' :: writeFields fields

/-- The fields, and the brace that ends them. -/
def writeFields : Fields → List Char
  | .nil => ['}']
  | .cons k v .nil => quote :: (k ++ quote :: ':' :: (write v ++ ['}']))
  | .cons k v (.cons k' v' rest) =>
    quote :: (k ++ quote :: ':' :: (write v ++ ',' :: writeFields (.cons k' v' rest)))

end

/-- No character of the string needs an escape. -/
def Clean (s : List Char) : Prop := ∀ c ∈ s, c ≠ quote ∧ c ≠ '\\' ∧ 32 ≤ c.toNat

instance (s : List Char) : Decidable (Clean s) :=
  List.decidableBAll (fun c => c ≠ quote ∧ c ≠ '\\' ∧ 32 ≤ c.toNat) s

mutual

/-- No string in the value needs an escape. -/
def Value.Clean : Value → Prop
  | .string s => Json.Clean s
  | .object fields => fields.Clean

/-- No string in the fields needs an escape. -/
def Fields.Clean : Fields → Prop
  | .nil => True
  | .cons k v rest => Json.Clean k ∧ v.Clean ∧ rest.Clean

end

/-! ## Strings -/

/-- What the reader of a string has passed over: not shorter than what it has read, and with no
more quotes in it.  It is as long only if it is the same, with nothing escaped. -/
structure Passed (used s : List Char) : Prop where
  length : s.length ≤ used.length
  count : used.count quote ≤ s.count quote
  clean : s.length = used.length → used = s ∧ Clean s

theorem hexDigit_ne_quote {c : Char} {n : ℕ} (h : hexDigit c = some n) : c ≠ quote := by
  rintro rfl
  cases h

theorem hex4_split {t r : List Char} {n : ℕ} (h : hex4 t = some (n, r)) :
    ∃ used, t = used ++ r ∧ used.count quote = 0 := by
  match t, h with
  | a :: b :: c :: d :: t, h =>
    simp only [hex4] at h
    split at h
    · next ha hb hc hd =>
      obtain ⟨-, rfl⟩ := Prod.mk.inj (Option.some.inj h)
      refine ⟨[a, b, c, d], rfl, ?_⟩
      rw [List.count_eq_zero]
      simp only [List.mem_cons, List.not_mem_nil, or_false, not_or]
      exact ⟨(hexDigit_ne_quote ha).symm, (hexDigit_ne_quote hb).symm,
        (hexDigit_ne_quote hc).symm, (hexDigit_ne_quote hd).symm⟩
    · cases h

theorem letterEscape_quote {c d : Char} (h : letterEscape c = some d) (hc : c = quote) :
    d = quote := by
  subst hc
  exact (Option.some.inj h).symm

theorem secondHalf_split {high : ℕ} {t r : List Char} {d : Char}
    (h : secondHalf high t = some (d, r)) : ∃ used, t = used ++ r ∧ used.count quote = 0 := by
  match t, h with
  | a :: b :: t, h =>
    simp only [secondHalf] at h
    split at h
    · next low r' hlow =>
      obtain ⟨used, rfl, hused⟩ := hex4_split hlow
      split at h
      · next hab =>
        obtain ⟨-, rfl⟩ := Prod.mk.inj (Option.some.inj h)
        obtain ⟨rfl, rfl, -⟩ := hab
        exact ⟨'\\' :: 'u' :: used, rfl, by simpa [List.count_cons, quote] using hused⟩
      · cases h
    · cases h

/-- An escape takes at least one character, and a quote only for a quote. -/
theorem unescape_split {t r : List Char} {d : Char} (h : unescape t = some (d, r)) :
    ∃ used, t = used ++ r ∧ 1 ≤ used.length ∧ used.count quote ≤ [d].count quote := by
  match t, h with
  | c :: t, h =>
    simp only [unescape] at h
    split at h
    · next hc =>
      subst hc
      split at h
      · next n r' hn =>
        obtain ⟨used, rfl, hused⟩ := hex4_split hn
        split at h
        · obtain ⟨-, rfl⟩ := Prod.mk.inj (Option.some.inj h)
          exact ⟨'u' :: used, rfl, by simp, by simp [List.count_cons, quote, hused]⟩
        · split at h
          · obtain ⟨used', rfl, hused'⟩ := secondHalf_split h
            exact ⟨'u' :: (used ++ used'), by simp, by simp,
              by simp [List.count_cons, quote, hused, hused']⟩
          · cases h
      · cases h
    · obtain ⟨d', hd, heq⟩ := Option.map_eq_some_iff.mp h
      obtain ⟨rfl, rfl⟩ := Prod.mk.inj heq
      refine ⟨[c], rfl, by simp, ?_⟩
      by_cases hc : c = quote
      · simp only [letterEscape_quote hd hc, hc, Nat.le_refl]
      · simp [List.count_singleton, hc]

/-- What a string was read from. -/
theorem readString_split {n : ℕ} {t s r : List Char} (h : readString n t = some (s, r)) :
    ∃ used, t = used ++ quote :: r ∧ Passed used s := by
  induction n generalizing t s with
  | zero => cases h
  | succ n ih =>
    match t, h with
    | c :: t, h =>
      simp only [readString] at h
      split at h
      · next hc =>
        obtain ⟨rfl, rfl⟩ := Prod.mk.inj (Option.some.inj h)
        exact ⟨[], by rw [hc]; rfl, Nat.le_refl _, Nat.le_refl _, fun _ => ⟨rfl, by simp [Clean]⟩⟩
      · next hquote =>
        split at h
        · next hc =>
          split at h
          · next d r' hd =>
            obtain ⟨⟨s', r''⟩, hs, heq⟩ := Option.map_eq_some_iff.mp h
            obtain ⟨rfl, rfl⟩ := Prod.mk.inj heq
            obtain ⟨escape, rfl, hlength, hcount⟩ := unescape_split hd
            obtain ⟨used, rfl, hpassed⟩ := ih hs
            have := hpassed.length
            have := hpassed.count
            subst hc
            refine ⟨'\\' :: (escape ++ used), by simp, ?_, ?_, fun heq => ?_⟩
            · simp only [List.length_cons, List.length_append]
              omega
            · simp only [List.count_cons, List.count_append, List.count_nil] at hcount ⊢
              simp only [show ('\\' == quote) = false from rfl, Bool.false_eq_true, if_false]
              omega
            · -- an escape is longer than what it stands for
              simp only [List.length_cons, List.length_append] at heq
              omega
          · cases h
        · next hescape =>
          split at h
          · cases h
          · next hcontrol =>
            obtain ⟨⟨s', r''⟩, hs, heq⟩ := Option.map_eq_some_iff.mp h
            obtain ⟨rfl, rfl⟩ := Prod.mk.inj heq
            obtain ⟨used, rfl, hpassed⟩ := ih hs
            have := hpassed.length
            have := hpassed.count
            refine ⟨c :: used, rfl, by simpa using hpassed.length, ?_, fun heq => ?_⟩
            · simp only [List.count_cons]
              omega
            · obtain ⟨rfl, hclean⟩ := hpassed.clean (by simpa using heq)
              refine ⟨rfl, fun x hx => ?_⟩
              rcases List.mem_cons.mp hx with rfl | hx
              · exact ⟨hquote, hescape, by omega⟩
              · exact hclean x hx

/-- A clean string is read back. -/
theorem readString_of_clean {n : ℕ} {s : List Char} (r : List Char) (h : Clean s)
    (hn : s.length < n) : readString n (s ++ quote :: r) = some (s, r) := by
  induction s generalizing n with
  | nil =>
    obtain ⟨n, rfl⟩ : ∃ m, n = m + 1 := ⟨n - 1, by omega⟩
    rfl
  | cons c s ih =>
    obtain ⟨n, rfl⟩ : ∃ m, n = m + 1 := ⟨n - 1, by omega⟩
    obtain ⟨hquote, hescape, hcontrol⟩ := h c (List.mem_cons_self ..)
    have hrest := ih (fun x hx => h x (List.mem_cons_of_mem _ hx)) (Nat.lt_of_succ_lt_succ hn)
    simp only [List.cons_append, readString, if_neg hquote, if_neg hescape,
      if_neg (Nat.not_lt.mpr hcontrol), hrest, Option.map_some]

/-- **Strings.**  A string that was put down as it is comes back if and only if it is clean.  An
escape makes what is read shorter, unless it hides the quote at the end, and then what is read has
a quote too many. -/
theorem readString_append_iff {n : ℕ} {s r r' : List Char} (hn : s.length < n) :
    readString n (s ++ quote :: r) = some (s, r') ↔ Clean s ∧ r' = r := by
  constructor
  · intro h
    obtain ⟨used, heq, hpassed⟩ := readString_split h
    have hcount := hpassed.count
    rcases Nat.lt_trichotomy used.length s.length with hlt | hsame | hgt
    · exact absurd hpassed.length (by omega)
    · obtain ⟨rfl, htail⟩ := List.append_inj heq hsame.symm
      exact ⟨(hpassed.clean rfl).2, (List.cons.inj htail).2.symm⟩
    · -- the quote after the string was passed over
      obtain ⟨more, hmore⟩ : ∃ more, used = (s ++ [quote]) ++ more := by
        have hpre : s ++ [quote] <+: used ++ quote :: r' := ⟨r, by rw [← heq]; simp⟩
        obtain ⟨more, hmore⟩ := List.prefix_of_prefix_length_le hpre
          (List.prefix_append used (quote :: r')) (by simp; omega)
        exact ⟨more, hmore.symm⟩
      rw [hmore] at hcount
      simp only [List.count_append, List.count_singleton_self] at hcount
      omega
  · rintro ⟨hclean, rfl⟩
    exact readString_of_clean _ hclean hn

/-! ## Values -/

mutual

/-- The calls that reading a value takes. -/
def Value.size : Value → ℕ
  | .string _ => 1
  | .object fields => fields.size + 1

/-- The calls that reading fields takes. -/
def Fields.size : Fields → ℕ
  | .nil => 0
  | .cons _ v rest => v.size + rest.size + 1

end

mutual

theorem Value.size_le (v : Value) : v.size ≤ (write v).length := by
  cases v with
  | string s => simp [Value.size, write]
  | object fields =>
    have := Fields.size_le fields
    simp only [Value.size, write, List.length_cons]
    omega

theorem Fields.size_le (fields : Fields) : fields.size ≤ (writeFields fields).length := by
  match fields with
  | .nil => simp [Fields.size]
  | .cons k v .nil =>
    have := Value.size_le v
    simp only [Fields.size, writeFields, List.length_cons, List.length_append]
    omega
  | .cons k v (.cons k' v' rest) =>
    have := Value.size_le v
    have := Fields.size_le (.cons k' v' rest)
    simp only [Fields.size, writeFields, List.length_cons, List.length_append] at this ⊢
    omega

end

@[simp] theorem expect_quote (t : List Char) : expect quote (quote :: t) = some t := rfl

@[simp] theorem expect_brace (t : List Char) : expect '{' ('{' :: t) = some t := rfl

@[simp] theorem expect_quote_brace (t : List Char) : expect quote ('{' :: t) = none := rfl

@[simp] theorem expect_close (t : List Char) : expect '}' ('}' :: t) = some t := rfl

@[simp] theorem expect_close_quote (t : List Char) : expect '}' (quote :: t) = none := rfl

/-- Fields that are written start with a quote, unless there is none. -/
theorem writeFields_cons (k : List Char) (v : Value) (rest : Fields) :
    ∃ t, writeFields (.cons k v rest) = quote :: t := by
  cases rest <;> exact ⟨_, rfl⟩

/-- What it takes to read a field and those after it. -/
theorem readFields_eq_some_iff {n : ℕ} {t k r : List Char} {v : Value} {rest : Fields} :
    readFields (n + 1) t = some (.cons k v rest, r) ↔
      ∃ r₀ r₁ r₂ r₃, expect quote t = some r₀ ∧ readString r₀.length r₀ = some (k, r₁) ∧
        expect ':' r₁ = some r₂ ∧ readValue n r₂ = some (v, r₃) ∧
          ((∃ r₄, expect ',' r₃ = some r₄ ∧ readFields n r₄ = some (rest, r)) ∨
            expect ',' r₃ = none ∧ expect '}' r₃ = some r ∧ rest = .nil) := by
  constructor
  · intro h
    simp only [readFields] at h
    split at h
    · next k' r₁ hkey =>
      obtain ⟨r₀, hquote, hkey⟩ := Option.bind_eq_some_iff.mp hkey
      split at h
      · next v' r₃ hvalue =>
        obtain ⟨r₂, hcolon, hvalue⟩ := Option.bind_eq_some_iff.mp hvalue
        split at h
        · next r₄ hcomma =>
          obtain ⟨⟨rest', r'⟩, hrest, heq⟩ := Option.map_eq_some_iff.mp h
          cases heq
          exact ⟨r₀, r₁, r₂, r₃, hquote, hkey, hcolon, hvalue, Or.inl ⟨r₄, hcomma, hrest⟩⟩
        · next hcomma =>
          obtain ⟨r', hclose, heq⟩ := Option.map_eq_some_iff.mp h
          cases heq
          exact ⟨r₀, r₁, r₂, r₃, hquote, hkey, hcolon, hvalue, Or.inr ⟨hcomma, hclose, rfl⟩⟩
      · cases h
    · cases h
  · rintro ⟨r₀, r₁, r₂, r₃, hquote, hkey, hcolon, hvalue, ⟨r₄, hcomma, hrest⟩ |
      ⟨hcomma, hclose, rfl⟩⟩
    · simp only [readFields, hquote, hkey, hcolon, hvalue, hcomma, hrest, Option.bind_some,
        Option.map_some]
    · simp only [readFields, hquote, hkey, hcolon, hvalue, hcomma, hclose, Option.bind_some,
        Option.map_some]

/-- A string that was put down as it is, read with the calls the reader allows. -/
theorem readString_whole_iff (s r r' : List Char) :
    readString (s ++ quote :: r).length (s ++ quote :: r) = some (s, r') ↔ Clean s ∧ r' = r :=
  readString_append_iff (by simp)

mutual

/-- **Values.**  What is written is read back if and only if it is clean. -/
theorem readValue_write_iff (v : Value) {n : ℕ} (hn : v.size ≤ n) (r r' : List Char) :
    readValue n (write v ++ r) = some (v, r') ↔ v.Clean ∧ r' = r := by
  obtain ⟨n, rfl⟩ : ∃ m, n = m + 1 := ⟨n - 1, by cases v <;> simp [Value.size] at hn <;> omega⟩
  match v with
  | .string s =>
    have hstring := readString_whole_iff s r r'
    simp only [write, readValue, List.cons_append, List.append_assoc, List.nil_append,
      expect_quote, Option.map_eq_some_iff, Prod.mk.injEq, Value.string.injEq, Value.Clean]
    rw [← hstring]
    constructor
    · rintro ⟨⟨s', r''⟩, h, rfl, rfl⟩
      exact h
    · exact fun h => ⟨_, h, rfl, rfl⟩
  | .object .nil =>
    simp only [write, writeFields, readValue, List.cons_append, List.nil_append,
      expect_quote_brace, expect_brace, expect_close]
    simp [Value.Clean, Fields.Clean, eq_comm]
  | .object (.cons k v rest) =>
    have hfields := readFields_write_iff k v rest (n := n) (by simpa [Value.size] using hn) r r'
    obtain ⟨t, ht⟩ := writeFields_cons k v rest
    simp only [write, readValue, List.cons_append, expect_quote_brace, expect_brace]
    rw [ht, List.cons_append, expect_close_quote, ← List.cons_append, ← ht]
    simp only [Option.map_eq_some_iff, Prod.mk.injEq, Value.object.injEq, Value.Clean]
    rw [← hfields]
    constructor
    · rintro ⟨⟨s', r''⟩, h, rfl, rfl⟩
      exact h
    · exact fun h => ⟨_, h, rfl, rfl⟩

/-- **Fields.**  What is written is read back if and only if it is clean. -/
theorem readFields_write_iff (k : List Char) (v : Value) (rest : Fields) {n : ℕ}
    (hn : (Fields.cons k v rest).size ≤ n) (r r' : List Char) :
    readFields n (writeFields (.cons k v rest) ++ r) = some (.cons k v rest, r') ↔
      (Fields.cons k v rest).Clean ∧ r' = r := by
  obtain ⟨n, rfl⟩ : ∃ m, n = m + 1 := ⟨n - 1, by simp [Fields.size] at hn; omega⟩
  simp only [Fields.size] at hn
  rw [readFields_eq_some_iff]
  match rest with
  | .nil =>
    have hkey := readString_whole_iff k (':' :: (write v ++ '}' :: r))
    have hvalue := readValue_write_iff v (n := n) (by omega) ('}' :: r)
    simp only [writeFields, List.cons_append, List.append_assoc, List.nil_append, expect_quote,
      Option.some.injEq, Fields.Clean]
    constructor
    · rintro ⟨r₀, r₁, r₂, r₃, rfl, h₁, h₂, h₃, h₄⟩
      obtain ⟨hk, rfl⟩ := (hkey _).mp h₁
      cases h₂
      obtain ⟨hv, rfl⟩ := (hvalue _).mp h₃
      rcases h₄ with ⟨r₄, hcomma, -⟩ | ⟨-, hclose, -⟩
      · cases hcomma
      · exact ⟨⟨hk, hv, trivial⟩, (Option.some.inj hclose).symm⟩
    · rintro ⟨⟨hk, hv, -⟩, rfl⟩
      exact ⟨_, _, _, _, rfl, (hkey _).mpr ⟨hk, rfl⟩, rfl, (hvalue _).mpr ⟨hv, rfl⟩,
        Or.inr ⟨rfl, rfl, trivial⟩⟩
  | .cons k' v' rest =>
    have hkey := readString_whole_iff k
      (':' :: (write v ++ ',' :: (writeFields (.cons k' v' rest) ++ r)))
    have hvalue := readValue_write_iff v (n := n) (by omega)
      (',' :: (writeFields (.cons k' v' rest) ++ r))
    have hrest := readFields_write_iff k' v' rest (n := n) (by omega) r r'
    simp only [writeFields, List.cons_append, List.append_assoc, expect_quote, Option.some.injEq]
    constructor
    · rintro ⟨r₀, r₁, r₂, r₃, rfl, h₁, h₂, h₃, h₄⟩
      obtain ⟨hk, rfl⟩ := (hkey _).mp h₁
      cases h₂
      obtain ⟨hv, rfl⟩ := (hvalue _).mp h₃
      rcases h₄ with ⟨r₄, hcomma, hmore⟩ | ⟨hcomma, -⟩
      · cases hcomma
        obtain ⟨hclean, hr⟩ := hrest.mp hmore
        exact ⟨⟨hk, hv, hclean⟩, hr⟩
      · cases hcomma
    · rintro ⟨⟨hk, hv, hclean⟩, hr⟩
      exact ⟨_, _, _, _, rfl, (hkey _).mpr ⟨hk, rfl⟩, rfl, (hvalue _).mpr ⟨hv, rfl⟩,
        Or.inl ⟨_, rfl, hrest.mpr ⟨hclean, hr⟩⟩⟩

end

/-! ## A text is not shorter than what it says -/

theorem length_expect {c : Char} {t r : List Char} (h : expect c t = some r) :
    r.length < t.length := by
  have hskip : (skip t).length ≤ t.length := (List.dropWhile_sublist _).length_le
  rw [expect] at h
  split at h
  · cases h
  · next d u hu =>
    split at h
    · cases h
      rw [hu, List.length_cons] at hskip
      omega
    · cases h

theorem length_readString {n : ℕ} {t s r : List Char} (h : readString n t = some (s, r)) :
    s.length + r.length < t.length := by
  obtain ⟨used, rfl, hpassed⟩ := readString_split h
  have := hpassed.length
  simp only [List.length_append, List.length_cons]
  omega

theorem readFields_ne_nil (n : ℕ) (t r : List Char) : readFields n t ≠ some (.nil, r) := by
  intro h
  cases n with
  | zero => cases h
  | succ n =>
    simp only [readFields] at h
    split at h
    · split at h
      · split at h
        · obtain ⟨x, -, hx⟩ := Option.map_eq_some_iff.mp h
          cases hx
        · obtain ⟨x, -, hx⟩ := Option.map_eq_some_iff.mp h
          cases hx
      · cases h
    · cases h

/-- **Lengths.**  Whatever is read as a value or as fields is at least as long as these are when
they are written: white space and escapes only add to it. -/
theorem length_read (n : ℕ) :
    (∀ {t r : List Char} {v : Value}, readValue n t = some (v, r) →
      (write v).length + r.length ≤ t.length) ∧
    (∀ {t r : List Char} {fields : Fields}, readFields n t = some (fields, r) →
      (writeFields fields).length + r.length ≤ t.length) := by
  induction n with
  | zero => exact ⟨fun h => (nomatch h), fun h => (nomatch h)⟩
  | succ n ih =>
    obtain ⟨ihValue, ihFields⟩ := ih
    constructor
    · intro t r v h
      simp only [readValue] at h
      split at h
      · next r₀ hquote =>
        obtain ⟨⟨s, r₁⟩, hs, heq⟩ := Option.map_eq_some_iff.mp h
        cases heq
        have := length_expect hquote
        have := length_readString hs
        simp only [write, List.length_cons, List.length_append, List.length_nil]
        omega
      · split at h
        · next r₀ hbrace =>
          have := length_expect hbrace
          split at h
          · next r₁ hclose =>
            cases h
            have := length_expect hclose
            simp only [write, writeFields, List.length_cons, List.length_nil]
            omega
          · obtain ⟨⟨fields, r₁⟩, hfields, heq⟩ := Option.map_eq_some_iff.mp h
            cases heq
            have := ihFields hfields
            simp only [write, List.length_cons]
            omega
        · cases h
    · intro t r fields h
      cases fields with
      | nil => exact absurd h (readFields_ne_nil _ _ _)
      | cons k v rest =>
        obtain ⟨r₀, r₁, r₂, r₃, hquote, hkey, hcolon, hvalue, hrest⟩ :=
          readFields_eq_some_iff.mp h
        have := length_expect hquote
        have := length_readString hkey
        have := length_expect hcolon
        have := ihValue hvalue
        rcases hrest with ⟨r₄, hcomma, hrest⟩ | ⟨-, hclose, rfl⟩
        · have := length_expect hcomma
          have := ihFields hrest
          cases rest with
          | nil => exact absurd hrest (readFields_ne_nil _ _ _)
          | cons k' v' rest =>
            simp only [writeFields, List.length_cons, List.length_append] at this ⊢
            omega
        · have := length_expect hclose
          simp only [writeFields, List.length_cons, List.length_append, List.length_nil]
          omega

/-- A text that reads as a value is not shorter than the value is when it is written. -/
theorem length_write_le {t : List Char} {v : Value} (h : read t = some v) :
    (write v).length ≤ t.length := by
  rw [read] at h
  split at h
  · next v' r hread =>
    split at h
    · cases h
      have := (length_read _).1 hread
      omega
    · cases h
  · cases h

/-- **A whole text.**  What is written is read back if and only if it is clean. -/
theorem read_write_iff (v : Value) : read (write v) = some v ↔ v.Clean := by
  have hsize := v.size_le
  have hvalue := readValue_write_iff v (n := (write v).length + 1) (by omega) []
  rw [List.append_nil] at hvalue
  rw [read]
  constructor
  · intro h
    split at h
    · next v' r hread =>
      split at h
      · cases h
        exact ((hvalue r).mp hread).1
      · cases h
    · cases h
  · intro h
    rw [(hvalue []).mpr ⟨h, rfl⟩]
    rfl

end Json
