import RowFactory.Source.Lexer
import RowFactory.Text.Decimal

namespace RowFactory

inductive LiteralKind where
  | text
  | bytes
  | cText
  | byte
  | character
  | integer
  | float
  | failed
deriving DecidableEq

/-- The kind of the literal with the given text. -/
def literalKind (text : String) : LiteralKind :=
  let cs := text.toList
  if startsWith "\x22" cs || startsWith "r" cs then .text
  else if startsWith "b'" cs then .byte
  else if startsWith "b" cs then .bytes
  else if startsWith "c" cs then .cText
  else if startsWith "'" cs then .character
  else if startsWith "(" cs then .failed
  else if (fractionEnd? cs).isSome then .float
  else .integer

/-- The content of a string literal, escaped or raw; a suffix is not part of it. -/
def stringValue? (text : String) : Option String :=
  match text.toList with
  | '\x22' :: cs => (QuoteRules.text.readQuoted .plain cs).map fun (content, _) => .ofList content
  | 'r' :: cs => do
    let (hashes, cs) ← readHashes? cs
    let (content, _) ← QuoteRules.text.readRaw hashes cs
    return .ofList content
  | _ => none

/-- The number that the digits of an integer stand for, if it has no suffix. -/
def integerValue? (cs : List Char) : Option Nat := do
  let (base, digits) := integerBase cs
  guard (!digits.isEmpty)
  digits.foldlM (fun n c => do
    if c = '_' then return n
    let d ← hexValue? c
    guard (d < base)
    return base * n + d) 0

/-- The token of a position, whatever base its digits have. -/
def positionToken? (cs : List Char) : Option Token := do
  let n ← integerValue? cs
  guard (n < 4294967296)
  return .literal (String.ofList (natDigits n))

/-- The positions that a literal after a point names, the first of them outermost. A literal that
is written as a fraction names several; the flag says that a point stands last. -/
def positionTokens? (text : String) : Option (List Token × Bool) := do
  let parts := text.toList.splitOn '.'
  let pointed := 1 < parts.length && parts.getLast? = some []
  let positions ← (if pointed then parts.dropLast else parts).mapM positionToken?
  return (positions, pointed)

/-- The token of the string literal with the given content. -/
def Token.string (content : String) : Token :=
  .literal (String.ofList (quoteLiteral content.toList))

end RowFactory
