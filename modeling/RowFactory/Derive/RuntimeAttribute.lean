import RowFactory.Config
import RowFactory.Mapping.ColumnAttribute
import RowFactory.Text.Similarity

namespace RowFactory

inductive AttributeError where
  | unknownKey (name : String)
  | duplicate
  /-- A literal stands where a key should. -/
  | literalItem
  /-- The key has no value; `format` says what form it has instead. -/
  | notValue (format : String)
  /-- The value is of a kind that is no path. -/
  | wrongType (type : String)
  /-- The text of the value is no path. -/
  | notPath (value : String)
  /-- The attribute itself is given a value. -/
  | nameValue
  /-- The arguments are no list of items. -/
  | malformed
deriving DecidableEq

/-- The only key. -/
def runtimeKey : String := "crate"

def AttributeError.message : AttributeError → String
  | .unknownKey name =>
    "Unknown field: `" ++ name ++
      (if isNearMiss name runtimeKey then "`. Did you mean `" ++ runtimeKey ++ "`?"
        else "`. Available values: `" ++ runtimeKey ++ "`")
  | .duplicate => "Duplicate field `" ++ runtimeKey ++ "`"
  | .literalItem => "Unexpected meta-item format `literal`"
  | .notValue format => "Unexpected meta-item format `" ++ format ++ "` at " ++ runtimeKey
  | .wrongType type => "Unexpected type `" ++ type ++ "` at " ++ runtimeKey
  | .notPath value => "Unknown value: `" ++ value ++ "` at " ++ runtimeKey
  | .nameValue => "Name-value arguments are not supported. Use #[rowmap(...)]"
  | .malformed => "expected `,`"

/-- An item among the arguments: a literal, or a key with what follows it. -/
inductive ArgumentItem where
  | literal
  | key (item : MetaItem)

open RowFactory.Parser

def Grammar.argumentItem (g : Grammar) : Parser ArgumentItem := do
  let ts ← ahead
  let flag := isWord "true" ts || isWord "false" ts
  if isLiteral ts && !(flag && isOperator "=" (ts.drop 1)) then
    let _ ← literalValue
    return .literal
  else return .key (← g.metaRest (← keyPath))

/-- The name of a literal's kind in messages. -/
def LiteralKind.description : LiteralKind → String
  | .text => "string"
  | .bytes => "byte string"
  | .cText => "unknown"
  | .byte => "byte"
  | .character => "char"
  | .integer => "int"
  | .float => "float"
  | .failed => "verbatim"

/-- The runtime that a literal names: only a string can, if it reads as a path. -/
def runtimeOfLiteral (value : List Token) : Except AttributeError Path :=
  match value.getLast? with
  | some (.literal text) =>
    match stringValue? text with
    | some content =>
      match Path.ofText? content with
      | some p => .ok p
      | none => .error (.notPath content)
    | none => .error (.wrongType (literalKind text).description)
  | _ => .error (.wrongType "bool")

/-- The runtime that a path names. What stands before it in `<..>` does not count. -/
def runtimeOfPath (value : List Token) : Except AttributeError Path :=
  match all ((Grammar.forTokens value).anyPath true) value with
  | some (.path _ _ leadingColon segments) => .ok ⟨leadingColon, segments⟩
  | _ => .error (.wrongType ExprKind.path.description)

def runtimeOfValue (kind : ExprKind) (value : List Token) : Except AttributeError Path :=
  match kind with
  | .literal => runtimeOfLiteral value
  | .path => runtimeOfPath value
  | _ => .error (.wrongType kind.description)

def runtimeOfItem : MetaItem → Except AttributeError Path
  | .path _ => .error (.notValue "word")
  | .list .. => .error (.notValue "list")
  | .value _ kind value => runtimeOfValue kind value

/-- The names of a path with `::` between them. -/
def NamePath.joined (p : NamePath) : String := "::".intercalate (p.names.map Ident.text)

/-- What has been read so far: whether the key was met, its value, and the errors. -/
structure RuntimeState where
  met : Bool
  runtime : Option Path
  errors : List AttributeError

namespace RuntimeState

def start : RuntimeState := ⟨false, none, []⟩

def addError (s : RuntimeState) (e : AttributeError) : RuntimeState :=
  { s with errors := s.errors ++ [e] }

def addItem (s : RuntimeState) : ArgumentItem → RuntimeState
  | .literal => s.addError .literalItem
  | .key item =>
    if item.name.joined != runtimeKey then s.addError (.unknownKey item.name.joined)
    else if s.met then s.addError .duplicate
    else match runtimeOfItem item with
      | .ok p => { s with met := true, runtime := some p }
      | .error e => { s.addError e with met := true }

def addAttribute (s : RuntimeState) (a : Attribute) : RuntimeState :=
  if a.content.name.joined != "rowmap" then s
  else match a.content with
    | .path _ => s
    | .value .. => s.addError .nameValue
    | .list _ _ arguments =>
      match all (commaList (Grammar.forTokens arguments).argumentItem) arguments with
      | some (items, _) => items.foldl addItem s
      | none => s.addError .malformed

end RuntimeState

/-- The runtime that the attributes of a struct name, the usual one if they name none. -/
def runtimeOfAttributes (attrs : List Attribute) : Except (List AttributeError) Path :=
  let s := attrs.foldl RuntimeState.addAttribute .start
  if s.errors.isEmpty then .ok (s.runtime.getD defaultRuntime) else .error s.errors

end RowFactory
