import RowFactory.Source.File

namespace RowFactory

open RowFactory.Parser

namespace Parser

/-- A string literal, and what it stands for. -/
def string : Parser String := do
  let text ← literal
  guard (literalKind text = .text)
  ofOption (stringValue? text)

/-- The path of a key; any word may be part of it. -/
def keyPath : Parser NamePath := do
  let leadingColon ← operator? "::"
  let first ← anyIdent
  let rest ← whileSees (isOperator "::") do
    operator "::"
    anyIdent
  return ⟨leadingColon, first :: rest⟩

end Parser

namespace Grammar

variable (g : Grammar)

/-- The value of a key: an expression after `=`, or keys in parentheses, at least one. -/
def skipValue : Nat → Parser Unit
  | 0 => failure
  | depth + 1 => do
    if ← operator? "=" then let _ ← g.anyExpr
    else if ← sees (isGroup .paren) then
      let (keys, _) ← group .paren <| commaList do
        let _ ← keyPath
        skipValue depth
      guard (!keys.isEmpty)

/-- The first name among the keys, at most `fuel` of them. Reading ends where it is found, so what
stands behind it does not matter; it fails where a key before it is malformed. -/
def columnName : Nat → Parser (Option String)
  | 0 => failure
  | fuel + 1 => do
    if ← atEnd then return none
    let key ← keyPath
    if key.isWord "name" then
      operator "="
      return some (← string)
    g.skipValue (Token.sizeAll (← ahead) + 1)
    if ← atEnd then return none
    operator ","
    columnName fuel

end Grammar

/-- The column that one attribute names, whatever its path. -/
def Attribute.columnName? (a : Attribute) : Option String :=
  match a.content with
  | .list _ _ arguments =>
    match all Parser.string arguments with
    | some name => some name
    | none =>
      let read := (Grammar.forTokens arguments).columnName (arguments.length + 1)
      (read.run (.start arguments)).bind (·.1)
  | _ => none

/-- The first column named by an attribute `column`. -/
def columnOverride? (attrs : List Attribute) : Option String :=
  (attrs.filter (·.isNamed "column")).findSome? Attribute.columnName?

/-- A field marked so is never assigned. -/
def isReadonly (attrs : List Attribute) : Bool := attrs.any (·.isNamed "readonly")

end RowFactory
