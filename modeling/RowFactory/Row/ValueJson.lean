import RowFactory.Row.Value
import RowFactory.Text.Json

namespace RowFactory

def jsonFloat (x : Float) : List Char :=
  if x.isNaN || x.isInf then "null".toList else doubleText x.toBits

def jsonByte (b : UInt8) : List Char := natDigits b.toNat

/-- Items between brackets with commas. -/
def jsonArray (items : List (List Char)) : List Char :=
  '[' :: [','].intercalate items ++ [']']

/-- An object with one key. -/
def jsonTagged (key : String) (payload : List Char) : List Char :=
  '\x7b' :: jsonString key.toList ++ ':' :: payload ++ ['\x7d']

def Value.json : Value → List Char
  | .null => jsonString "Null".toList
  | .bool b => jsonTagged "Bool" (if b then "true" else "false").toList
  | .int n => jsonTagged "Int" (intText n.toInt)
  | .uint n => jsonTagged "Uint" (natDigits n.toNat)
  | .float x => jsonTagged "Float" (jsonFloat x)
  | .text s => jsonTagged "Text" (jsonString s.toList)
  | .bytes bs => jsonTagged "Bytes" (jsonArray (bs.map jsonByte))

def isJsonBlank (c : Char) : Bool := c = ' ' || c = '\n' || c = '\t' || c = '\r'

def skipJsonBlanks (cs : List Char) : List Char := cs.dropWhile isJsonBlank

/-- The character after blanks, and what follows it. -/
def nextJson? (cs : List Char) : Option (Char × List Char) :=
  match skipJsonBlanks cs with
  | c :: rest => some (c, rest)
  | [] => none

/-- What follows the given character. -/
def afterJson? (c : Char) (cs : List Char) : Option (List Char) := do
  let (d, rest) ← nextJson? cs
  if c = d then some rest else none

def readJsonWord? (word : String) (cs : List Char) : Option (List Char) :=
  word.toList.isPrefixOf? (skipJsonBlanks cs)

def readJsonText? (cs : List Char) : Option (List Char × List Char) :=
  (afterJson? '\x22' cs).bind readJsonString

/-- A whole number from 0 to 255. -/
def readJsonByte? (cs : List Char) : Option (UInt8 × List Char) := do
  match ← readJsonNumber (skipJsonBlanks cs) with
  | (.natural n, rest) => if n < 256 then some (n.toUInt8, rest) else none
  | _ => none

/-- Bytes after the first, each behind its comma, and the closing bracket. -/
def readMoreBytes? : Nat → List Char → Option (List UInt8 × List Char)
  | 0, _ => none
  | fuel + 1, cs => do
    let (c, rest) ← nextJson? cs
    if c = ']' then some ([], rest)
    else if c = ',' then
      let (b, rest) ← readJsonByte? rest
      let (bs, rest) ← readMoreBytes? fuel rest
      return (b :: bs, rest)
    else none

def readJsonBytes? (cs : List Char) : Option (List UInt8 × List Char) := do
  let rest ← afterJson? '[' cs
  match afterJson? ']' rest with
  | some rest => some ([], rest)
  | none =>
    let (b, rest) ← readJsonByte? rest
    let (bs, rest) ← readMoreBytes? (rest.length + 1) rest
    return (b :: bs, rest)

/-- What stands behind the key that names the form. -/
def readPayload? (key : String) (cs : List Char) : Option (Value × List Char) := do
  match key with
  | "Null" => (readJsonWord? "null" cs).map (.null, ·)
  | "Bool" =>
    ((readJsonWord? "true" cs).map (.bool true, ·)) <|>
      (readJsonWord? "false" cs).map (.bool false, ·)
  | "Int" =>
    match ← readJsonNumber (skipJsonBlanks cs) with
    | (.natural n, rest) => if n < Nat.pow 2 63 then some (.int (Int64.ofNat n), rest) else none
    | (.negative n, rest) => some (.int (Int64.ofInt n), rest)
    | _ => none
  | "Uint" =>
    match ← readJsonNumber (skipJsonBlanks cs) with
    | (.natural n, rest) => some (.uint (UInt64.ofNat n), rest)
    | _ => none
  | "Float" =>
    match ← readJsonNumber (skipJsonBlanks cs) with
    | (.natural n, rest) => some (.float (UInt64.ofNat n).toFloat, rest)
    | (.negative n, rest) => some (.float (Int64.ofInt n).toFloat, rest)
    | (.float x, rest) => some (.float x, rest)
  | "Text" => (readJsonText? cs).map fun (s, rest) => (.text (String.ofList s), rest)
  | "Bytes" => (readJsonBytes? cs).map fun (bs, rest) => (.bytes bs, rest)
  | _ => none

/-- The value at the head of the text, and what follows it. -/
def readTagged? (cs : List Char) : Option (Value × List Char) := do
  let (c, rest) ← nextJson? cs
  if c = '\x7b' then
    let (key, rest) ← readJsonText? rest
    let rest ← afterJson? ':' rest
    let (v, rest) ← readPayload? (String.ofList key) rest
    let rest ← afterJson? '\x7d' rest
    return (v, rest)
  else if c = '\x22' then
    let (key, rest) ← readJsonString rest
    if key = "Null".toList then some (.null, rest) else none
  else none

/-- The value that a text stands for; nothing but blanks may follow it. -/
def Value.ofJson? (cs : List Char) : Option Value := do
  let (v, rest) ← readTagged? cs
  if (skipJsonBlanks rest).isEmpty then some v else none

end RowFactory
