import RowFactory.Text.Decimal
import RowFactory.Text.Quoted

namespace RowFactory

/-- Four hexadecimal digits. -/
def jsonCode (n : Nat) : List Char :=
  [n / 4096 % 16, n / 256 % 16, n / 16 % 16, n % 16].map fun d => Nat.digitChar d

def jsonChar (c : Char) : List Char :=
  if c = '\x22' then ['\\', '\x22']
  else if c = '\\' then ['\\', '\\']
  else if c = '\x08' then ['\\', 'b']
  else if c = '\x0c' then ['\\', 'f']
  else if c = '\n' then ['\\', 'n']
  else if c = '\r' then ['\\', 'r']
  else if c = '\t' then ['\\', 't']
  else if c.toNat < 32 then '\\' :: 'u' :: jsonCode c.toNat
  else [c]

def jsonString (cs : List Char) : List Char :=
  '\x22' :: cs.flatMap jsonChar ++ ['\x22']

/-- What stands in a string: a character, or a code unit given by number. -/
inductive JsonUnit where
  | char (c : Char)
  | code (n : Nat)
deriving DecidableEq

/-- The character after a backslash, other than `u`. -/
def jsonEscape? (c : Char) : Option Char :=
  match c with
  | '\x22' => some '\x22'
  | '\\' => some '\\'
  | '/' => some '/'
  | 'b' => some '\x08'
  | 'f' => some '\x0c'
  | 'n' => some '\n'
  | 'r' => some '\r'
  | 't' => some '\t'
  | _ => none

def hexCode? (a b c d : Char) : Option Nat := do
  let high := 16 * (← hexValue? a) + (← hexValue? b)
  return 256 * high + 16 * (← hexValue? c) + (← hexValue? d)

/-- What stands before the closing quote, and what follows it. -/
def readJsonUnits : List Char → Option (List JsonUnit × List Char)
  | [] => none
  | '\x22' :: cs => some ([], cs)
  | '\\' :: 'u' :: a :: b :: c :: d :: cs => do
    let n ← hexCode? a b c d
    let (units, rest) ← readJsonUnits cs
    return (.code n :: units, rest)
  | '\\' :: c :: cs => do
    let x ← jsonEscape? c
    let (units, rest) ← readJsonUnits cs
    return (.char x :: units, rest)
  | c :: cs =>
    if c = '\\' || c.toNat < 32 then none
    else (readJsonUnits cs).map fun (units, rest) => (.char c :: units, rest)

/-- Code units as characters; the two halves of a pair must stand side by side. -/
def joinUnits : List JsonUnit → Option (List Char)
  | [] => some []
  | .char c :: rest => (joinUnits rest).map (c :: ·)
  | .code high :: .code low :: rest =>
    if 0xD800 ≤ high && high < 0xDC00 then
      if 0xDC00 ≤ low && low < 0xE000 then
        (joinUnits rest).map
          (Char.ofNat (0x10000 + 0x400 * (high - 0xD800) + (low - 0xDC00)) :: ·)
      else none
    else if high.isValidChar then
      (joinUnits (.code low :: rest)).map (Char.ofNat high :: ·)
    else none
  | .code n :: rest =>
    if n.isValidChar then (joinUnits rest).map (Char.ofNat n :: ·) else none

/-- The text of a string after its opening quote, and what follows its closing one. -/
def readJsonString (cs : List Char) : Option (List Char × List Char) := do
  let (units, rest) ← readJsonUnits cs
  return (← joinUnits units, rest)

inductive JsonNumber where
  | natural (n : Nat)
  /-- Less than zero. -/
  | negative (n : Int)
  | float (x : Float)

def isJsonDigit (c : Char) : Bool := '0' ≤ c && c ≤ '9'

def digitValue (c : Char) : Nat := c.toNat - '0'.toNat

/-- Digits are added to the significand as long as it stays below `2 ^ 64`. The second number says
how many were added, the third how many were not. -/
def takeSignificand (s : Nat) : List Char → Nat × Nat × Nat × List Char
  | [] => (s, 0, 0, [])
  | c :: cs =>
    if isJsonDigit c then
      let next := 10 * s + digitValue c
      if next < Nat.pow 2 64 then
        let (s, added, left, rest) := takeSignificand next cs
        (s, added + 1, left, rest)
      else
        (s, 0, ((c :: cs).takeWhile isJsonDigit).length, (c :: cs).dropWhile isJsonDigit)
    else (s, 0, 0, c :: cs)

/-- The number `f · 10 ^ e`, in steps of `10 ^ 308` where `e` is small, unless it is too large. -/
def scaleFloat (f : Float) (e : Int) : Nat → Option Float
  | 0 => some f
  | fuel + 1 =>
    if e.natAbs ≤ 308 then
      let power := Float.ofScientific 1 false e.natAbs
      if 0 ≤ e then
        if (f * power).isInf then none else some (f * power)
      else some (f / power)
    else if f == 0 then some f
    else if 0 ≤ e then none
    else scaleFloat (f / Float.ofScientific 1 false 308) (e + 308) fuel

def floatOfParts (positive : Bool) (significand : Nat) (exponent : Int) : Option JsonNumber :=
  (scaleFloat significand.toUInt64.toFloat exponent 5).map fun f =>
    .float (if positive then f else -f)

/-- An exponent after its `e`. -/
def readExponent : List Char → Option (Int × List Char)
  | cs => do
    let (negative, cs) := match cs with
      | '+' :: rest => (false, rest)
      | '-' :: rest => (true, rest)
      | _ => (false, cs)
    let digits := cs.takeWhile isJsonDigit
    guard (!digits.isEmpty)
    let e : Int := digitsValue digits
    return (if negative then -e else e, cs.dropWhile isJsonDigit)

/-- What follows the significand: an exponent or nothing. -/
def readScaled (positive : Bool) (significand : Nat) (exponent : Int) (cs : List Char) :
    Option (JsonNumber × List Char) :=
  match cs with
  | c :: rest =>
    if c = 'e' || c = 'E' then do
      let (e, rest) ← readExponent rest
      return (← floatOfParts positive significand (exponent + e), rest)
    else (floatOfParts positive significand exponent).map (·, cs)
  | [] => (floatOfParts positive significand exponent).map (·, [])

/-- A number without its sign. -/
def readUnsigned (positive : Bool) (cs : List Char) : Option (JsonNumber × List Char) := do
  let c ← cs.head?
  guard (isJsonDigit c && !(c = '0' && cs.tail.head?.any isJsonDigit))
  let (significand, _, left, rest) := takeSignificand 0 cs
  match rest with
  | '.' :: fraction =>
    let (significand, added, ignored, rest) := takeSignificand significand fraction
    guard (added + ignored != 0)
    readScaled positive significand ((left : Int) - added) rest
  | _ =>
    if left != 0 || rest.head? = some 'e' || rest.head? = some 'E' then
      readScaled positive significand left rest
    else if positive then some (.natural significand, rest)
    else if significand = 0 || Nat.pow 2 63 < significand then
      some (.float (-significand.toUInt64.toFloat), rest)
    else some (.negative (-(significand : Int)), rest)

def readJsonNumber : List Char → Option (JsonNumber × List Char)
  | '-' :: cs => readUnsigned false cs
  | cs => readUnsigned true cs

end RowFactory
