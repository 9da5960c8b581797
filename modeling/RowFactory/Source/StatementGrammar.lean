import RowFactory.Source.ExprGrammar
import RowFactory.Source.ItemGrammar

namespace RowFactory

open RowFactory.Parser

/-- What follows the path of names in front, if there is one. -/
def afterNamePath (ts : List Token) : List Token :=
  match namePath.run (.start ts) with
  | some (_, c) => c.ahead
  | none => []

/-- After a path: a macro is called with a name of its own. -/
def namesMacro (ts : List Token) : Bool :=
  isOperator "!" ts && (isIdent (ts.drop 1) || isWord "try" (ts.drop 1))

/-- After a path: a macro is called with braces, and nothing is applied to the call. -/
def callsWithBraces (ts : List Token) : Bool :=
  let third := ts.drop 2
  isOperator "!" ts && isGroup .brace (ts.drop 1) && !(isDot third || isOperator "?" third)

/-- A word that begins a function, unless it belongs to an expression. -/
def startsMarkedFunction (ts : List Token) : Bool :=
  ["unsafe", "extern", "fn"].any (isWord · ts)

/-- The word `const` begins an expression. -/
def startsConstExpr (ts : List Token) : Bool :=
  let second := ts.drop 1
  isGroup .brace second || isWord "static" second || isWord "move" second ||
    isOperator "|" second || (isWord "async" second && !startsMarkedFunction (ts.drop 2))

/-- An item begins here, and not an expression. -/
def startsItem (ts : List Token) : Bool :=
  let second := ts.drop 1
  ["pub", "extern", "use", "fn", "mod", "type", "struct", "enum", "trait", "impl", "macro"].any
      (isWord · ts) ||
    (isWord "crate" ts && !isOperator "::" second) ||
    (isWord "static" ts && (isWord "mut" second || isIdent second)) ||
    (isWord "const" ts && !startsConstExpr ts) ||
    (isWord "unsafe" ts && !isGroup .brace second) ||
    (isWord "async" ts && startsMarkedFunction second) ||
    (isWord "union" ts && isIdent second) || (isWord "auto" ts && isWord "trait" second) ||
    (isWord "default" ts && (isWord "unsafe" second || isWord "impl" second))

namespace Grammar

variable (g : Grammar)

/-- A `let`, perhaps with a block for where its pattern does not match. -/
def bindingStatement : Parser Unit := do
  word "let"
  let _ ← g.pattern
  if ← operator? ":" then let _ ← g.type true
  if ← operator? "=" then
    let _ ← g.anyExpr
    if !(← endsInBraces) && isWord "else" (← ahead) then
      word "else"
      g.block
  operator ";"

/-- A statement. The answer says that another may follow it at once. -/
def statement : Parser Bool := do
  let before ← cursor
  let attrs ← g.outerAttributes
  let ts ← ahead
  let afterPath := afterNamePath ts
  if callsWithBraces afterPath then
    let _ ← namePath
    let _ ← callArguments
    let _ ← operator? ";"
    return true
  else if isWord "let" ts then
    g.bindingStatement
    return true
  else if startsItem ts || namesMacro afterPath then
    let _ ← g.itemSince before attrs
    return true
  else
    let kind ← g.leadingExpr
    let closed := kind.isBlockLike || (kind = .macroCall && (← endsInBraces))
    return (← operator? ";") || closed

/-- Statements to the end, at most `fuel` of them, with any number of semicolons between them. -/
def statementsFrom : Nat → Parser Unit
  | 0 => failure
  | fuel + 1 => do
    let _ ← whileSees (isOperator ";") (operator ";")
    if ← atEnd then return
    let complete ← g.statement
    if ← atEnd then return
    guard complete
    statementsFrom fuel

def statementsToEnd : Parser Unit := do
  g.statementsFrom ((← ahead).length + 1)

/-- The grammar of what is nested at most `depth` deep. -/
def atDepth : Nat → Grammar
  | 0 =>
    { type := fun _ => failure, bound := failure, param := failure, pattern := failure
      expr := fun _ _ => failure, headExpr := failure, statements := failure, field := failure
      items := failure }
  | depth + 1 =>
    let g := atDepth depth
    { type := fun plus => writtenAs Ty.tokens (g.oneType plus)
      bound := writtenAs Bound.tokens (g.oneBound true)
      param := g.genericParam
      pattern := g.onePattern
      expr := g.operatorExpr
      headExpr := g.leadingExpr
      statements := g.statementsToEnd
      field := g.namedField
      items := toEnd g.oneItem }

/-- The grammar of anything in the given tokens: each level of nesting takes one of them. -/
def forTokens (ts : List Token) : Grammar := atDepth (Token.sizeAll ts + 1)

end Grammar

end RowFactory
