import RowFactory.Proofs.Text.Json
import RowFactory.Row.ValueJson

namespace RowFactory

theorem skipJsonBlanks_cons {c : Char} (h : isJsonBlank c = false) (cs : List Char) :
    skipJsonBlanks (c :: cs) = c :: cs := by
  simp [skipJsonBlanks, h]

theorem nextJson?_cons {c : Char} (h : isJsonBlank c = false) (cs : List Char) :
    nextJson? (c :: cs) = some (c, cs) := by
  rw [nextJson?, skipJsonBlanks_cons h]

theorem afterJson?_cons {c : Char} (h : isJsonBlank c = false) (cs : List Char) :
    afterJson? c (c :: cs) = some cs := by
  simp [afterJson?, nextJson?_cons h]

theorem isJsonBlank_of_isJsonDigit {c : Char} (h : isJsonDigit c) : isJsonBlank c = false := by
  cases hc : isJsonBlank c with
  | false => rfl
  | true =>
    obtain rfl | rfl | rfl | rfl : c = ' ' ∨ c = '\n' ∨ c = '\t' ∨ c = '\r' := by
      simpa [isJsonBlank, or_assoc] using hc
    all_goals exact absurd h (by decide)

theorem skipJsonBlanks_natDigits (n : Nat) (rest : List Char) :
    skipJsonBlanks (natDigits n ++ rest) = natDigits n ++ rest := by
  obtain ⟨d, ds, hds, hdigit⟩ := exists_natDigits n
  rw [hds]
  exact skipJsonBlanks_cons (isJsonBlank_of_isJsonDigit hdigit) _

theorem skipJsonBlanks_intText (n : Int) (rest : List Char) :
    skipJsonBlanks (intText n ++ rest) = intText n ++ rest := by
  unfold intText
  split
  · rfl
  · exact skipJsonBlanks_natDigits _ rest

theorem readJsonText?_jsonString (content rest : List Char) :
    readJsonText? (jsonString content ++ rest) = some (content, rest) := by
  have hopen : jsonString content ++ rest =
      '\x22' :: (content.flatMap jsonChar ++ '\x22' :: rest) := by simp [jsonString]
  rw [readJsonText?, hopen, afterJson?_cons (by decide), Option.bind_some, readJsonString_content]

theorem readJsonByte?_jsonByte (b : UInt8) {rest : List Char} (hrest : EndsNumber rest) :
    readJsonByte? (jsonByte b ++ rest) = some (b, rest) := by
  have hb : b.toNat < 256 := b.toNat_lt
  rw [readJsonByte?, jsonByte, skipJsonBlanks_natDigits,
    readJsonNumber_natDigits (by omega) hrest]
  simp [hb]

/-- Bytes after the first, as they are written. -/
def commaBytes (bs : List UInt8) : List Char := bs.flatMap fun b => ',' :: jsonByte b

theorem intercalate_jsonByte (b : UInt8) (bs : List UInt8) :
    [','].intercalate ((b :: bs).map jsonByte) = jsonByte b ++ commaBytes bs := by
  induction bs generalizing b with
  | nil => simp [commaBytes]
  | cons next bs ih =>
    rw [List.map_cons, List.map_cons, List.intercalate_cons_cons, ← List.map_cons, ih]
    simp [commaBytes]

theorem endsNumber_commaBytes (bs : List UInt8) (rest : List Char) :
    EndsNumber (commaBytes bs ++ ']' :: rest) := by
  intro c hc
  cases bs with
  | nil =>
    obtain rfl : ']' = c := by simpa [commaBytes] using hc
    decide
  | cons b bs =>
    obtain rfl : ',' = c := by simpa [commaBytes] using hc
    decide

theorem length_le_commaBytes (bs : List UInt8) : bs.length ≤ (commaBytes bs).length := by
  induction bs with
  | nil => exact Nat.le_refl 0
  | cons b bs ih =>
    rw [commaBytes, List.flatMap_cons, List.length_append, ← commaBytes]
    simp only [List.length_cons]
    omega

theorem readMoreBytes?_commaBytes (bs : List UInt8) (rest : List Char) {fuel : Nat}
    (h : bs.length < fuel) :
    readMoreBytes? fuel (commaBytes bs ++ ']' :: rest) = some (bs, rest) := by
  induction bs generalizing fuel with
  | nil =>
    have hclose : isJsonBlank ']' = false := by decide
    cases fuel with
    | zero => simp at h
    | succ fuel => simp [commaBytes, readMoreBytes?, nextJson?_cons hclose]
  | cons b bs ih =>
    have hcomma : isJsonBlank ',' = false := by decide
    cases fuel with
    | zero => simp at h
    | succ fuel =>
      have hmore := ih (Nat.lt_of_succ_lt_succ h)
      have hopen : commaBytes (b :: bs) ++ ']' :: rest =
          ',' :: (jsonByte b ++ (commaBytes bs ++ ']' :: rest)) := by simp [commaBytes]
      simp [hopen, readMoreBytes?, nextJson?_cons hcomma,
        readJsonByte?_jsonByte b (endsNumber_commaBytes bs rest), hmore]

theorem readJsonBytes?_jsonArray (bs : List UInt8) (rest : List Char) :
    readJsonBytes? (jsonArray (bs.map jsonByte) ++ rest) = some (bs, rest) := by
  have hopen : isJsonBlank '[' = false := by decide
  have hclose : isJsonBlank ']' = false := by decide
  cases bs with
  | nil => simp [jsonArray, readJsonBytes?, afterJson?_cons hopen, afterJson?_cons hclose]
  | cons b bs =>
    have htext : jsonArray ((b :: bs).map jsonByte) ++ rest =
        '[' :: (jsonByte b ++ (commaBytes bs ++ ']' :: rest)) := by
      rw [jsonArray, intercalate_jsonByte]
      simp
    have hfirst : afterJson? ']' (jsonByte b ++ (commaBytes bs ++ ']' :: rest)) = none := by
      obtain ⟨d, ds, hds, hdigit⟩ := exists_natDigits b.toNat
      have hother : ']' ≠ d := by
        rintro rfl
        exact absurd hdigit (by decide)
      simp [jsonByte, hds, afterJson?, nextJson?_cons (isJsonBlank_of_isJsonDigit hdigit), hother]
    have hfuel : bs.length < (commaBytes bs ++ ']' :: rest).length + 1 := by
      have := length_le_commaBytes bs
      rw [List.length_append]
      omega
    rw [htext]
    simp only [readJsonBytes?, Option.bind_eq_bind, Option.bind_some, Option.pure_def,
      afterJson?_cons hopen, hfirst, readJsonByte?_jsonByte b (endsNumber_commaBytes bs rest),
      readMoreBytes?_commaBytes bs rest hfuel]

/-- What stands behind the only key of an object ends at the brace. -/
theorem endsNumber_brace : EndsNumber ['\x7d'] := by
  intro c hc
  obtain rfl : '\x7d' = c := by simpa using hc
  decide

/-- An object with one key is read as the value that its key and what stands behind it give. -/
theorem ofJson?_jsonTagged {key : String} {payload : List Char} {v : Value}
    (h : readPayload? key (payload ++ ['\x7d']) = some (v, ['\x7d'])) :
    Value.ofJson? (jsonTagged key payload) = some v := by
  have hopen : isJsonBlank '\x7b' = false := by decide
  have hcolon : isJsonBlank ':' = false := by decide
  have hclose : isJsonBlank '\x7d' = false := by decide
  have htext : jsonTagged key payload =
      '\x7b' :: (jsonString key.toList ++ ':' :: (payload ++ ['\x7d'])) := by simp [jsonTagged]
  have hread : readTagged? (jsonTagged key payload) = some (v, []) := by
    simp only [readTagged?, htext, nextJson?_cons hopen, Option.bind_eq_bind, Option.bind_some,
      ↓reduceIte, readJsonText?_jsonString, afterJson?_cons hcolon, String.ofList_toList, h,
      afterJson?_cons hclose, Option.pure_def]
  rw [Value.ofJson?, hread]
  rfl

theorem readPayload?_int (n : Int64) :
    readPayload? "Int" (intText n.toInt ++ ['\x7d']) = some (.int n, ['\x7d']) := by
  have hlow : -2 ^ 63 ≤ n.toInt := n.le_toInt
  have hhigh : n.toInt < 2 ^ 63 := n.toInt_lt
  by_cases hneg : n.toInt < 0
  · simp [readPayload?, skipJsonBlanks_intText, readJsonNumber_intText hneg hlow endsNumber_brace]
  · have htext : intText n.toInt = natDigits n.toInt.natAbs := if_neg hneg
    have hsize : n.toInt.natAbs < 2 ^ 64 := by omega
    have hrange : n.toInt.natAbs < 9223372036854775808 := by omega
    have hback : Int64.ofNat n.toInt.natAbs = n := by
      apply Int64.toInt_inj.mp
      rw [Int64.toInt_ofNat_of_lt hrange]
      omega
    simp [readPayload?, htext, skipJsonBlanks_natDigits,
      readJsonNumber_natDigits hsize endsNumber_brace, hrange, hback]

theorem readPayload?_uint (n : UInt64) :
    readPayload? "Uint" (natDigits n.toNat ++ ['\x7d']) = some (.uint n, ['\x7d']) := by
  simp [readPayload?, skipJsonBlanks_natDigits,
    readJsonNumber_natDigits n.toNat_lt endsNumber_brace]

/-- Every value that is no float is read back, with its form. -/
theorem ofJson?_json {v : Value} (h : ∀ x, v ≠ .float x) : Value.ofJson? v.json = some v := by
  cases v with
  | null => rfl
  | bool b => cases b <;> exact ofJson?_jsonTagged rfl
  | int n => exact ofJson?_jsonTagged (readPayload?_int n)
  | uint n => exact ofJson?_jsonTagged (readPayload?_uint n)
  | float x => exact absurd rfl (h x)
  | text s => exact ofJson?_jsonTagged (by simp [readPayload?, readJsonText?_jsonString])
  | bytes bs => exact ofJson?_jsonTagged (by simp [readPayload?, readJsonBytes?_jsonArray])

/-- A value other than a float is read back from its JSON text, with its form; so two such values
have the same text only if they are the same, and a signed number never has the text of an unsigned
one. -/
theorem values_read_back_from_json {v w : Value} (hv : ∀ x, v ≠ .float x)
    (hw : ∀ x, w ≠ .float x) :
    Value.ofJson? v.json = some v ∧ (v.json = w.json ↔ v = w) ∧
      ∀ (n : Int64) (m : UInt64), (Value.int n).json ≠ (Value.uint m).json := by
  have determined {a b : Value} (ha : ∀ x, a ≠ .float x) (hb : ∀ x, b ≠ .float x)
      (h : a.json = b.json) : a = b :=
    Option.some.inj ((ofJson?_json ha).symm.trans (h ▸ ofJson?_json hb))
  refine ⟨ofJson?_json hv, ⟨determined hv hw, congrArg Value.json⟩, fun n m h => ?_⟩
  exact Value.noConfusion (determined (by simp) (by simp) h)

/-- Quotes and control characters are escaped, other characters are not, and all come back. -/
theorem values_read_back_from_json_escaped :
    (∀ x, Value.text "\x22\x01é" ≠ .float x) ∧ (∀ x, Value.bytes [0, 255] ≠ .float x) ∧
      (Value.text "\x22\x01é").json = "\x7b\x22Text\x22:\x22\\\x22\\u0001é\x22\x7d".toList ∧
      Value.ofJson? (Value.text "\x22\x01é").json = some (.text "\x22\x01é") ∧
      ((Value.text "\x22\x01é").json = (Value.bytes [0, 255]).json ↔
        Value.text "\x22\x01é" = .bytes [0, 255]) ∧
      ∀ (n : Int64) (m : UInt64), (Value.int n).json ≠ (Value.uint m).json := by
  have htext : ∀ x, Value.text "\x22\x01é" ≠ .float x := by simp
  have hbytes : ∀ x, Value.bytes [0, 255] ≠ .float x := by simp
  exact ⟨htext, hbytes, rfl, values_read_back_from_json htext hbytes⟩

end RowFactory
