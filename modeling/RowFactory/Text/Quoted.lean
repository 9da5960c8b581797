import RowFactory.Text.Printable

namespace RowFactory

/-- The form `\u{..}` with the fewest lower-case hexadecimal digits. -/
def escapeByNumber (c : Char) : List Char :=
  ['\\', 'u', '\x7b'] ++ Nat.toDigits 16 c.toNat ++ ['\x7d']

/-- A character between double quotes; NUL is `\0`, whatever follows it. -/
def escapeChar (c : Char) : List Char :=
  if c = '\x00' then ['\\', '0']
  else if c = '\t' then ['\\', 't']
  else if c = '\r' then ['\\', 'r']
  else if c = '\n' then ['\\', 'n']
  else if c = '\\' then ['\\', '\\']
  else if c = '\x22' then ['\\', '\x22']
  else if isExtender c || !isPrintable c then escapeByNumber c
  else [c]

/-- Every character by `escapeChar`, between double quotes. -/
def quoteName (cs : List Char) : List Char :=
  '\x22' :: cs.flatMap escapeChar ++ ['\x22']

def isOctalDigit (c : Char) : Bool := '0' ≤ c && c ≤ '7'

/-- NUL before an octal digit is `\x00`, since `\0` with that digit would look like one octal
escape; all else as in `escapeChar`. -/
def escapeLiteral : List Char → List Char
  | [] => []
  | c :: cs =>
    (if c = '\x00' && (cs.head?.any isOctalDigit) then ['\\', 'x', '0', '0'] else escapeChar c)
      ++ escapeLiteral cs

/-- The text of the string literal that stands for the given characters. -/
def quoteLiteral (cs : List Char) : List Char :=
  '\x22' :: escapeLiteral cs ++ ['\x22']

/-- What a kind of quoted literal admits. -/
structure QuoteRules where
  /-- The largest number after `\x`. -/
  codeLimit : Nat
  /-- Whether `\u{..}` is an escape. -/
  unicode : Bool
  /-- Only code points below 128 stand unescaped. -/
  ascii : Bool
  /-- NUL is admitted, in any spelling. -/
  nul : Bool

def QuoteRules.text : QuoteRules := ⟨127, true, false, true⟩

def QuoteRules.bytes : QuoteRules := ⟨255, false, true, true⟩

def QuoteRules.cText : QuoteRules := ⟨255, true, false, false⟩

/-- Where a reader stands inside quoted text. -/
inductive QuoteState where
  | plain
  /-- After a carriage return, which needs its line feed. -/
  | carriage
  /-- After a backslash. -/
  | escape
  /-- After `\x`, and after its first digit. -/
  | code
  | codeLow (high : Nat)
  /-- After `\u`, and after its brace and `count` digits. -/
  | unicode
  | digits (count value : Nat)
  /-- After a backslash at the end of a line: blanks and line breaks are skipped. -/
  | joined
  | joinedCarriage
deriving DecidableEq

def hexValue? (c : Char) : Option Nat :=
  if '0' ≤ c && c ≤ '9' then some (c.toNat - '0'.toNat)
  else if 'a' ≤ c && c ≤ 'f' then some (10 + (c.toNat - 'a'.toNat))
  else if 'A' ≤ c && c ≤ 'F' then some (10 + (c.toNat - 'A'.toNat))
  else none

/-- The character an escaped number stands for, if the rules admit it. -/
def QuoteRules.char? (rules : QuoteRules) (value : Nat) : Option Char :=
  if value.isValidChar && (rules.nul || value != 0) then some (Char.ofNat value) else none

/-- A character that is neither in an escape nor the closing quote. -/
def QuoteRules.plainStep (rules : QuoteRules) (c : Char) : Option (QuoteState × Option Char) :=
  if c = '\\' then some (.escape, none)
  else if c = '\r' then some (.carriage, none)
  else if (rules.ascii && 127 < c.toNat) || (!rules.nul && c = '\x00') then none
  else some (.plain, some c)

/-- The character after a backslash. -/
def QuoteRules.escapeStep (rules : QuoteRules) (c : Char) : Option (QuoteState × Option Char) :=
  match c with
  | 'n' => some (.plain, some '\n')
  | 'r' => some (.plain, some '\r')
  | 't' => some (.plain, some '\t')
  | '\\' => some (.plain, some '\\')
  | '\x27' => some (.plain, some '\x27')
  | '\x22' => some (.plain, some '\x22')
  | '0' => if rules.nul then some (.plain, some '\x00') else none
  | 'x' => some (.code, none)
  | 'u' => if rules.unicode then some (.unicode, none) else none
  | '\n' => some (.joined, none)
  | '\r' => some (.joinedCarriage, none)
  | _ => none

/-- The digits of a `\u{..}` escape: one to six, with underscores after the first. -/
def QuoteRules.digitStep (rules : QuoteRules) (count value : Nat) (c : Char) :
    Option (QuoteState × Option Char) :=
  match hexValue? c with
  | some d => if count < 6 then some (.digits (count + 1) (16 * value + d), none) else none
  | none =>
    if count = 0 then none
    else if c = '_' then some (.digits count value, none)
    else if c = '\x7d' then (rules.char? value).map fun x => (.plain, some x)
    else none

/-- One character of quoted text: the next state and the character that it completes, or nothing
if it may not stand there. -/
def QuoteRules.step (rules : QuoteRules) (state : QuoteState) (c : Char) :
    Option (QuoteState × Option Char) :=
  match state with
  | .plain => rules.plainStep c
  | .carriage => if c = '\n' then some (.plain, some '\n') else none
  | .escape => rules.escapeStep c
  | .code => (hexValue? c).map fun d => (.codeLow d, none)
  | .codeLow high => do
    let value := 16 * high + (← hexValue? c)
    guard (value ≤ rules.codeLimit)
    let x ← rules.char? value
    return (.plain, some x)
  | .unicode => if c = '\x7b' then some (.digits 0 0, none) else none
  | .digits count value => rules.digitStep count value c
  | .joined =>
    if c = ' ' || c = '\t' || c = '\n' then some (.joined, none)
    else if c = '\r' then some (.joinedCarriage, none)
    else rules.plainStep c
  | .joinedCarriage => if c = '\n' then some (.joined, none) else none

/-- The closing quote counts only outside escapes. -/
def QuoteState.mayClose : QuoteState → Bool
  | .plain | .joined => true
  | _ => false

/-- The content up to the closing double quote, and what follows it. -/
def QuoteRules.readQuoted (rules : QuoteRules) (state : QuoteState) :
    List Char → Option (List Char × List Char)
  | [] => none
  | c :: cs =>
    if c = '\x22' && state.mayClose then some ([], cs)
    else match rules.step state c with
      | none => none
      | some (next, done) =>
        (rules.readQuoted next cs).map fun (content, rest) => (done.toList ++ content, rest)

/-- One character, written as itself or escaped, and what follows it. -/
def QuoteRules.readOne (rules : QuoteRules) (state : QuoteState) :
    List Char → Option (Char × List Char)
  | [] => none
  | c :: cs =>
    if state = .plain && c != '\\' then
      if rules.ascii && 127 < c.toNat then none else some (c, cs)
    else match rules.step state c with
      | none | some (.joined, none) | some (.joinedCarriage, none) => none
      | some (_, some x) => some (x, cs)
      | some (next, none) => rules.readOne next cs

/-- Raw content up to a double quote followed by the given number of `#`; nothing is escaped, and
a carriage return needs its line feed. -/
def QuoteRules.readRaw (rules : QuoteRules) (hashes : Nat) :
    List Char → Option (List Char × List Char)
  | [] => none
  | c :: cs =>
    if c = '\x22' && cs.take hashes = List.replicate hashes '#' then some ([], cs.drop hashes)
    else if c = '\r' && cs.head? != some '\n' then none
    else if (rules.ascii && 127 < c.toNat) || (!rules.nul && c = '\x00') then none
    else (rules.readRaw hashes cs).map fun (content, rest) => (c :: content, rest)

end RowFactory
