import RowFactory.Source.Parser
import RowFactory.Source.Literal
import RowFactory.Source.Item

namespace RowFactory

/-- The readers of nested forms. A production takes the grammar as an argument and refers to it
only after it has taken a token or entered a group. -/
structure Grammar where
  /-- The flag says whether a `+` may continue the type. -/
  type : Bool → Parser Ty
  /-- A bound of a parameter. -/
  bound : Parser Bound
  /-- A generic parameter. -/
  param : Parser GenericParam
  /-- One alternative of a pattern; the answer says whether it is a range open at one end. -/
  pattern : Parser Bool
  /-- The flag says whether a brace may continue a path, the number how strongly an operator must
  bind to continue the expression. -/
  expr : Bool → Nat → Parser ExprKind
  /-- An expression at the head of a statement or of an arm of a `match`. -/
  headExpr : Parser ExprKind
  /-- The statements of a block, to the end of the tokens. -/
  statements : Parser Unit
  /-- A field in braces. -/
  field : Parser Field
  /-- The items of a module, to the end of the tokens. -/
  items : Parser (List Item)

namespace Parser

/-- A path made of names, such as an attribute's; words that name a place may be among them. -/
def namePath : Parser NamePath := do
  let leadingColon ← operator? "::"
  let name : Parser Ident := do
    let i ← anyIdent
    guard (!i.isKeyword || pathKeywords.contains i.name)
    return i
  let first ← name
  let rest ← whileSees (isOperator "::") do
    operator "::"
    name
  return ⟨leadingColon, first :: rest⟩

/-- A literal of any kind, a number with its minus included. -/
def literalValue : Parser (List Token) := do
  require isLiteral
  let ((), ts) ← withWritten do
    let _ ← operator? "-"
    copy 1
  return ts

/-- The word `extern`, with the name of a calling convention or without. -/
def abi : Parser (Option String) := do
  word "extern"
  match ← ahead with
  | .literal text :: _ =>
    if literalKind text = .text then
      copy 1
      return some text
    else return none
  | _ => return none

/-- The word `extern` and its name, if they are there. -/
def abi? : Parser (Option (Option String)) := ifSees (isWord "extern") abi

/-- The parenthesis after `pub` that narrows it. -/
def restriction? (ts : List Token) : Bool :=
  match ts with
  | [.ident i] => !i.raw && ["crate", "self", "super"].contains i.name
  | .ident i :: path => i = .plain "in" && (Parser.all namePath path).isSome
  | _ => false

def visibility : Parser Visibility := do
  if ← word? "pub" then
    match ← ahead with
    | .group .paren inner :: _ =>
      if restriction? inner then
        copy 1
        return .restricted
      else return .anyone
    | _ => return .anyone
  else return .inherited

/-- The arguments of a macro, as they stand. -/
def callArguments : Parser (Delimiter × List Token) := do
  operator "!"
  anyGroup

end Parser

open RowFactory.Parser

namespace Grammar

variable (g : Grammar)

/-- An expression of any kind. -/
def anyExpr : Parser ExprKind := g.expr true 0

/-- A block in its braces. -/
def block : Parser Unit := group .brace g.statements

/-- What follows the path of an attribute or of an item nested in one. -/
def metaRest (path : NamePath) : Parser MetaItem := do
  match ← ahead with
  | .group .. :: _ =>
    let (d, arguments) ← anyGroup
    return .list path d arguments
  | ts =>
    if isOperator "=" ts then
      operator "="
      let literal ← attempt do
        let value ← literalValue
        require List.isEmpty
        return value
      match literal with
      | some value => return .value path .literal value
      | none =>
        require fun ts => !(isOperator "#" ts && isGroup .bracket (ts.drop 1))
        let (kind, value) ← withWritten g.anyExpr
        return .value path kind value
    else return .path path

/-- The content of an attribute, also of an item in the list of another. -/
def metaItem : Parser MetaItem := do
  if ← word? "unsafe" then g.metaRest ⟨false, [.plain "unsafe"]⟩
  else g.metaRest (← namePath)

/-- An attribute of the item that follows. -/
def outerAttribute : Parser Attribute := do
  operator "#"
  return ⟨false, ← group .bracket g.metaItem⟩

def outerAttributes : Parser (List Attribute) :=
  whileSees (isOperator "#") g.outerAttribute

/-- Attributes of what encloses them. -/
def innerAttributes : Parser (List Attribute) :=
  whileSees (fun ts => isOperator "#" ts && isOperator "!" (ts.drop 1)) do
    operator "#"
    operator "!"
    return ⟨true, ← group .bracket g.metaItem⟩

/-- A block in its braces with attributes of its own in front. -/
def attributedBlock : Parser (List Attribute) :=
  group .brace do
    let attrs ← g.innerAttributes
    g.statements
    return attrs

/-- A constant that needs no brackets: a literal, a name or a block. -/
def constant : Parser (List Token) := do
  let (_, ts) ← withWritten do
    if ← sees isLiteral then let _ ← literalValue
    else if ← sees isIdent then let _ ← ident
    else let _ ← g.attributedBlock
  return ts

/-- A lifetime parameter; its bounds go on up to a comma or the closing bracket. -/
def lifetimeParam : Parser LifetimeParam :=
  writtenAs LifetimeParam.tokens do
    let attrs ← g.outerAttributes
    let name ← lifetime
    if ← operator? ":" then
      let (bounds, trailing) ←
        openList (fun ts => isOperator "," ts || isOperator ">" ts) "+" lifetime
      return ⟨attrs, name, bounds, trailing⟩
    else return ⟨attrs, name, [], false⟩

def binderParam : Parser BinderParam := do
  match ← withWritten g.param with
  | (.lifetime p, _) => return .lifetime p
  | (_, ts) => return .other ts

/-- A binder, if it is there. -/
def binder? : Parser (Option Binder) :=
  ifSees (isWord "for") do
    word "for"
    operator "<"
    let params ← closedList (isOperator ">") "," g.binderParam
    operator ">"
    return params

end Grammar

end RowFactory
