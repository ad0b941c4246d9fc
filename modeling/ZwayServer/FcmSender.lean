import ZwayServer.Op
import ZwayServer.Json

/-!
# What the notification service is sent

`FcmSender::sendMessage` puts the token of an account and two numbers into a JSON text, and the
HTTP library fetches that text through `readCallback`, one call for each buffer that it has free.

* `text_says_iff` — the text says what is meant if and only if the token needs no escape.
* `upload_eq` — what is fetched, for any buffers.
* `understood_iff` — when the service is sent the message that is meant, and nothing less.
-/

namespace ZwayServer.FcmSender

/-! ## The text -/

/-- The text of a message, in which a `Char` stands for one byte: the token goes in as it is. -/
def dataStr (token : String) (type numElements : UInt32) : String :=
  "\x7b\"to\":\"" ++ token ++ "\",\"priority\":\"normal\",\"data\":\x7b\"type\":\"" ++
    toString type.toNat ++ "\",\"numElements\":\"" ++ toString numElements.toNat ++ "\"\x7d\x7d"

/-- A field of a message. -/
def field (key : String) (v : Json.Value) (rest : Json.Fields) : Json.Fields :=
  .cons key.toList v rest

/-- The message that is meant. -/
def message (token : String) (type numElements : UInt32) : Json.Value :=
  .object <| field "to" (.string token.toList) <| field "priority" (.string "normal".toList) <|
    field "data" (.object <| field "type" (.string (toString type.toNat).toList) <|
      field "numElements" (.string (toString numElements.toNat).toList) .nil) .nil

/-- The text is the message, written without escapes. -/
theorem toList_dataStr (token : String) (type numElements : UInt32) :
    (dataStr token type numElements).toList = Json.write (message token type numElements) := by
  simp [dataStr, message, field, Json.write, Json.writeFields, String.toList_append]

/-- The digits of a number need no escape. -/
theorem clean_toString (n : ℕ) : Json.Clean (toString n).toList := by
  intro c hc
  have hdigit : c.isDigit = true := by
    refine Nat.isDigit_of_mem_toDigits (by decide) (Nat.le_refl 10) (n := n) ?_
    simpa [Nat.toString_eq_repr, Nat.repr] using hc
  have hrange : 48 ≤ c.toNat := by
    simp only [Char.isDigit, Bool.and_eq_true, decide_eq_true_eq] at hdigit
    exact hdigit.1
  refine ⟨?_, ?_, by omega⟩ <;> rintro rfl
  · exact absurd hrange (by decide)
  · exact absurd hdigit (by decide)

/-- **The text.**  It says what is meant if and only if no character of the token needs an
escape. -/
theorem text_says_iff (token : String) (type numElements : UInt32) :
    Json.read (dataStr token type numElements).toList = some (message token type numElements) ↔
      Json.Clean token.toList := by
  rw [toList_dataStr, Json.read_write_iff]
  simp only [message, field, Json.Value.Clean, Json.Fields.Clean, clean_toString, and_true]
  constructor
  · exact fun h => h.2.1
  · intro h
    refine ⟨?_, h, ?_, ?_, ?_, ?_, ?_⟩ <;> decide

/-! ## How it is fetched -/

/-- What is left of a text: the place of the next character, and how many there are. -/
structure WriteThis where
  readptr : ℕ
  sizeLeft : ℕ

/-- At the start of a text. -/
def WriteThis.start (data : List Char) : WriteThis := ⟨0, data.length⟩

/-- A buffer of the library: `nmemb` items of `size` bytes. -/
abbrev Room := UInt64 × UInt64

/-- There is room in the buffer; the product is that of the machine. -/
def Room.hasRoom (b : Room) : Bool := !decide (b.1 * b.2 < 1)

/-- The number of characters reported, those that were put into the buffer, and what is left. -/
def readCallback (data : List Char) (b : Room) (pooh : WriteThis) : ℕ × List Char × WriteThis :=
  if b.1 * b.2 < 1 then (0, [], pooh)
  else if pooh.sizeLeft ≠ 0 then
    -- one character, however large the buffer
    (1, (data[pooh.readptr]?).toList, ⟨pooh.readptr + 1, pooh.sizeLeft - 1⟩)
  else (0, [], pooh)

/-- The library calls for one buffer after another, until nothing is reported: what it has sent,
and whether it has come to the end. -/
def upload (data : List Char) : List Room → WriteThis → List Char × Bool
  | [], _ => ([], false)
  | b :: bs, pooh =>
    match readCallback data b pooh with
    | (0, _, _) => ([], true)
    | (_ + 1, chars, pooh) => ((chars ++ (upload data bs pooh).1), (upload data bs pooh).2)

theorem readCallback_of_not_hasRoom {data : List Char} {b : Room} (h : b.hasRoom = false)
    (pooh : WriteThis) : readCallback data b pooh = (0, [], pooh) := by
  rw [readCallback, if_pos (by simpa [Room.hasRoom] using h)]

theorem readCallback_of_hasRoom {data : List Char} {b : Room} (h : b.hasRoom = true)
    {k : ℕ} (hk : k < data.length) :
    readCallback data b ⟨k, data.length - k⟩ =
      (1, [data[k]], ⟨k + 1, data.length - (k + 1)⟩) := by
  rw [readCallback, if_neg (by simpa [Room.hasRoom] using h), if_pos (Nat.sub_ne_zero_of_lt hk)]
  simp [List.getElem?_eq_getElem hk, Nat.sub_sub]

theorem readCallback_of_length_le {data : List Char} (b : Room) {k : ℕ} (hk : data.length ≤ k) :
    (readCallback data b ⟨k, data.length - k⟩) = (0, [], ⟨k, data.length - k⟩) := by
  rw [readCallback, Nat.sub_eq_zero_of_le hk]
  simp

/-- The buffers before the first one without room. -/
def withRoom (bs : List Room) : List Room := bs.takeWhile Room.hasRoom

/-- **Any buffers.**  One character goes into each buffer before the first without room, as long as
there are any; the end is reached at the first buffer after that. -/
theorem upload_eq (data : List Char) (bs : List Room) (k : ℕ) :
    upload data bs ⟨k, data.length - k⟩ = ((data.drop k).take (withRoom bs).length,
      decide (min (withRoom bs).length (data.length - k) < bs.length)) := by
  induction bs generalizing k with
  | nil => simp [upload, withRoom]
  | cons b bs ih =>
    cases hroom : b.hasRoom with
    | false => simp [upload, readCallback_of_not_hasRoom hroom, withRoom, hroom]
    | true =>
      have hwith : withRoom (b :: bs) = b :: withRoom bs := by simp [withRoom, hroom]
      by_cases hk : k < data.length
      · rw [upload, readCallback_of_hasRoom hroom hk]
        dsimp only
        rw [ih, hwith]
        refine Prod.ext ?_ ?_
        · rw [List.length_cons, List.drop_eq_getElem_cons hk, List.take_succ_cons]
          rfl
        · simp only [List.length_cons, decide_eq_decide]
          omega
      · have hle : data.length ≤ k := Nat.not_lt.mp hk
        rw [upload, readCallback_of_length_le b hle, hwith, List.drop_eq_nil_of_le hle]
        simp [Nat.sub_eq_zero_of_le hle]

/-- The first `n` all hold of it, and there are as many. -/
theorem le_length_takeWhile_iff {α : Type} (p : α → Bool) (l : List α) (n : ℕ) :
    n ≤ (l.takeWhile p).length ↔ n ≤ l.length ∧ ∀ x ∈ l.take n, p x = true := by
  induction l generalizing n with
  | nil => cases n <;> simp
  | cons x l ih =>
    cases n with
    | zero => simp
    | succ n => cases hx : p x <;> simp [hx, ih]

/-- **What the service is sent.**  It has been sent all there is to send, and reads in it the
message that is meant, if and only if the token needs no escape and no buffer without room came
before the end. -/
theorem understood_iff (token : String) (type numElements : UInt32) (bs : List Room) :
    let data := (dataStr token type numElements).toList
    let sent := upload data bs (.start data)
    (sent.2 = true ∧ Json.read sent.1 = some (message token type numElements)) ↔
      Json.Clean token.toList ∧ data.length < bs.length ∧
        ∀ b ∈ bs.take data.length, b.hasRoom = true := by
  intro data sent
  have hsent : sent = (data.take (withRoom bs).length,
      decide (min (withRoom bs).length data.length < bs.length)) := upload_eq data bs 0
  have hroom := le_length_takeWhile_iff Room.hasRoom bs data.length
  rw [hsent]
  simp only [decide_eq_true_eq]
  constructor
  · rintro ⟨hend, hread⟩
    -- less than the whole text cannot say what the whole of it says
    have hlength := Json.length_write_le hread
    rw [← toList_dataStr, List.length_take] at hlength
    have hle : data.length ≤ (withRoom bs).length := by
      change data.length ≤ _ at hlength
      omega
    rw [List.take_of_length_le hle] at hread
    exact ⟨(text_says_iff token type numElements).mp hread, by omega, (hroom.mp hle).2⟩
  · rintro ⟨hclean, hlt, hall⟩
    have hle : data.length ≤ (withRoom bs).length := hroom.mpr ⟨Nat.le_of_lt hlt, hall⟩
    rw [List.take_of_length_le hle]
    exact ⟨by omega, (text_says_iff token type numElements).mpr hclean⟩

/-- A token with a quote says something else. -/
example :
    Json.read (dataStr "x\",\"to\":\"y" 1 2).toList ≠ some (message "x\",\"to\":\"y" 1 2) := by
  rw [Ne, text_says_iff]
  decide

end ZwayServer.FcmSender
