import RowFactory.Source.PatternGrammar

namespace RowFactory

open RowFactory.Parser

/-- Operators between operands, by what they do. -/
inductive BinaryKind where
  | assignment
  | or
  | and
  | comparison
  | bitOr
  | bitXor
  | bitAnd
  | shift
  | sum
  | product
deriving DecidableEq

/-- How strongly an operator binds. A range binds more strongly than an assignment and less than
all others, `let` lies between `&&` and a comparison, and a cast binds most strongly. -/
def BinaryKind.level : BinaryKind → Nat
  | .assignment => 1
  | .or => 3
  | .and => 4
  | .comparison => 6
  | .bitOr => 7
  | .bitXor => 8
  | .bitAnd => 9
  | .shift => 10
  | .sum => 11
  | .product => 12

def assignLevel : Nat := 1

def rangeLevel : Nat := 2

def comparisonLevel : Nat := 6

def castLevel : Nat := 13

/-- Operators between operands; longer ones first. -/
def binaryOperators : List (String × BinaryKind) :=
  [("<<=", .assignment), (">>=", .assignment), ("+=", .assignment), ("-=", .assignment),
    ("*=", .assignment), ("/=", .assignment), ("%=", .assignment), ("^=", .assignment),
    ("&=", .assignment), ("|=", .assignment), ("&&", .and), ("||", .or), ("<<", .shift),
    (">>", .shift), ("==", .comparison), ("<=", .comparison), ("!=", .comparison),
    (">=", .comparison), ("+", .sum), ("-", .sum), ("*", .product), ("/", .product),
    ("%", .product), ("^", .bitXor), ("&", .bitAnd), ("|", .bitOr), ("<", .comparison),
    (">", .comparison)]

def binaryOperator? (ts : List Token) : Option (String × BinaryKind) :=
  binaryOperators.find? fun (op, _) => isOperator op ts

/-- A point that is not part of a range. -/
def isDot (ts : List Token) : Bool := isOperator "." ts && !isOperator ".." ts

def isAssign (ts : List Token) : Bool := isOperator "=" ts && !isOperator "=>" ts

/-- An expression may begin here. -/
def startsExpr (ts : List Token) : Bool :=
  (isAnyIdent ts && !isWord "as" ts) || isGroup .paren ts || isGroup .bracket ts ||
    isGroup .brace ts || isLiteral ts || isLifetime ts ||
    (isOperator "!" ts && !isOperator "!=" ts) ||
    (isOperator "-" ts && !isOperator "-=" ts && !isOperator "->" ts) ||
    (isOperator "*" ts && !isOperator "*=" ts) || (isOperator "|" ts && !isOperator "|=" ts) ||
    (isOperator "&" ts && !isOperator "&=" ts) || isOperator ".." ts ||
    (isOperator "<" ts && !isOperator "<=" ts && !isOperator "<<=" ts) ||
    isOperator "::" ts || isOperator "#" ts

/-- Operators that cannot begin the end of a range. -/
def afterRange : List String :=
  [",", ";", "?", "=>", "=", "+", "/", "%", "^", ">", "<=", "!=", "-=", "*=", "&=", "|=", "<<="]

/-- The range that has just begun has no end. -/
def endsRange (structs : Bool) (ts : List Token) : Bool :=
  ts.isEmpty || isDot ts || afterRange.any (isOperator · ts) || (!structs && isGroup .brace ts) ||
    isWord "as" ts

/-- What may not follow a cast. -/
def afterCast (ts : List Token) : Bool :=
  isDot ts || isOperator "?" ts || isGroup .bracket ts || isGroup .paren ts

/-- A binder `for<..>` and not a loop. -/
def startsBinder (ts : List Token) : Bool := isWord "for" ts && startsGenerics (ts.drop 1)

/-- An `async` block and not a closure. -/
def startsAsyncBlock (ts : List Token) : Bool :=
  isWord "async" ts &&
    (isGroup .brace (ts.drop 1) || (isWord "move" (ts.drop 1) && isGroup .brace (ts.drop 2)))

/-- A closure begins here, perhaps with words before its bars. -/
def startsClosure (ts : List Token) : Bool :=
  let after := ts.drop 1
  isOperator "|" ts || isWord "move" ts || startsBinder ts ||
    (isWord "const" ts && !isGroup .brace after) || isWord "static" ts ||
    (isWord "async" ts && (isOperator "|" after || isWord "move" after))

/-- Something may be applied to what has been read. -/
def beforeTrailer (ts : List Token) : Bool :=
  isGroup .paren ts || isGroup .bracket ts || isDot ts || isOperator "?" ts

/-- An attribute or an operator in front of its operand. -/
def beforeOperand (ts : List Token) : Bool := ["#", "&", "*", "!", "-"].any (isOperator · ts)

/-- A form that ends in a block and begins with a word or brace of its own. -/
def startsBlockLike (ts : List Token) : Bool :=
  ["if", "while", "loop", "match", "unsafe"].any (isWord · ts) ||
    (isWord "for" ts && !startsBinder ts) ||
    (["try", "const"].any (isWord · ts) && isGroup .brace (ts.drop 1)) || isGroup .brace ts ||
    isLifetime ts

namespace Parser

/-- The dots of a range, and whether an end must follow. -/
def rangeDots : Parser Bool := do
  require (!isOperator "..." ·)
  if ← operator? "..=" then return true
  else
    operator ".."
    return false

/-- The last token written is a group in braces. -/
def endsInBraces : Parser Bool := do
  match (← cursor).written with
  | .group .brace _ :: _ => return true
  | _ => return false

end Parser

namespace Grammar

variable (g : Grammar)

/-- A parameter of a closure. -/
def closureParam : Parser Unit := do
  let _ ← g.outerAttributes
  let _ ← g.pattern
  if ← operator? ":" then let _ ← g.type true

def closure (structs : Bool) : Parser Unit := do
  let _ ← writtenAs binderTokens g.binder?
  let _ ← word? "const"
  let _ ← word? "static"
  let _ ← word? "async"
  let _ ← word? "move"
  operator "|"
  let _ ← closedList (isOperator "|") "," g.closureParam
  operator "|"
  if ← operator? "->" then
    let _ ← g.type true
    g.block
  else let _ ← g.expr structs 0

/-- The fields of a struct expression up to the end or up to its base; at most `fuel` of them. -/
def structFields : Nat → Parser Unit
  | 0 => failure
  | fuel + 1 => do
    if ← atEnd then return
    if ← operator? ".." then
      if !(← atEnd) then let _ ← g.anyExpr
      return
    let _ ← g.outerAttributes
    let named ← fieldName
    if !named || isOperator ":" (← ahead) then
      operator ":"
      let _ ← g.anyExpr
    if ← atEnd then return
    operator ","
    structFields fuel

/-- A path, a macro call or a struct expression. -/
def pathExpr (structs : Bool) : Parser ExprKind := do
  let path ← g.valuePath
  let ts ← ahead
  let plain := match path with
    | .path none _ _ segments => segments.all (!·.hasArguments)
    | _ => false
  if plain && isOperator "!" ts && !isOperator "!=" ts then
    let _ ← callArguments
    return .macroCall
  else if structs && isGroup .brace ts then
    group .brace do g.structFields ((← ahead).length + 1)
    return .struct
  else return .path

/-- An `if` with the parts that follow it, at most `fuel` of them. -/
def conditional : Nat → Parser Unit
  | 0 => failure
  | fuel + 1 => do
    word "if"
    let _ ← g.expr false 0
    g.block
    if ← word? "else" then
      if ← sees (isWord "if") then conditional fuel else g.block

/-- Expressions with commas between them. -/
def exprList : Parser Unit := do
  let _ ← commaList g.anyExpr

/-- In parentheses: a tuple, or one expression. -/
def parenExpr : Parser ExprKind :=
  group .paren do
    let (items, trailing) ← commaList g.anyExpr
    return if items.length = 1 && !trailing then .paren else .tuple

/-- The elements of an array, or one element and how often it stands there. -/
def arrayExpr : Parser ExprKind :=
  group .bracket do
    if ← atEnd then return .array
    let _ ← g.anyExpr
    if ← operator? ";" then
      let _ ← g.anyExpr
      return .repetition
    else
      if !(← atEnd) then
        operator ","
        g.exprList
      return .array

/-- A loop or a block; what stands in the place of a label has been read. -/
def loopOrBlock : Parser ExprKind := do
  if ← word? "while" then
    let _ ← g.expr false 0
    let _ ← g.attributedBlock
    return .whileLoop
  else if ← word? "for" then
    let _ ← g.alternatives
    word "in"
    let _ ← g.expr false 0
    let _ ← g.attributedBlock
    return .forLoop
  else if ← word? "loop" then
    let _ ← g.attributedBlock
    return .loop
  else
    let _ ← g.attributedBlock
    return .block

/-- A `let` in a condition. -/
def bindingExpr (structs : Bool) : Parser Unit := do
  word "let"
  let _ ← g.alternatives
  operator "="
  let _ ← g.expr structs comparisonLevel

/-- A way out of a loop, with a label, a value or both. -/
def exitExpr (structs : Bool) : Parser Unit := do
  word "break"
  let label ← ifSees isLifetime lifetime
  require fun ts => !(label.isSome && isOperator ":" ts)
  if ← sees fun ts => startsExpr ts && (structs || !isGroup .brace ts) then
    let _ ← g.anyExpr

/-- A word, and a value if there is one. -/
def wordValue (w : String) : Parser Unit := do
  word w
  if ← sees startsExpr then let _ ← g.anyExpr

/-- An arm of a `match`; a comma must follow it unless its value ends in a block. -/
def arm : Parser Unit := do
  let _ ← g.outerAttributes
  let _ ← g.alternatives
  if ← word? "if" then let _ ← g.anyExpr
  operator "=>"
  let kind ← g.headExpr
  if kind.isBlockLike || (← atEnd) then let _ ← operator? ","
  else operator ","

def matchExpr : Parser Unit := do
  word "match"
  let _ ← g.expr false 0
  group .brace do
    let _ ← g.innerAttributes
    let _ ← toEnd g.arm

/-- A range without a start. -/
def rangeTail (structs : Bool) : Parser Unit := do
  let closed ← rangeDots
  if closed || !endsRange structs (← ahead) then let _ ← g.expr structs (rangeLevel + 1)

/-- An expression that begins with a word of its own. -/
def wordExpr (structs : Bool) : Parser ExprKind := do
  let ts ← ahead
  if isWord "break" ts then
    g.exitExpr structs
    return .exit
  else if isWord "continue" ts then
    word "continue"
    let _ ← ifSees isLifetime lifetime
    return .continuation
  else if isWord "return" ts then
    g.wordValue "return"
    return .result
  else if isWord "become" ts then
    let _ ← verbatim do
      word "become"
      g.anyExpr
    return .verbatim
  else if isWord "let" ts then
    g.bindingExpr structs
    return .binding
  else if isWord "if" ts then
    g.conditional ts.length
    return .conditional
  else if isWord "match" ts then
    g.matchExpr
    return .selection
  else if isWord "yield" ts then
    g.wordValue "yield"
    return .yielding
  else if ← word? "unsafe" then
    let _ ← g.attributedBlock
    return .unsafeBlock
  else if ← word? "const" then
    let _ ← g.attributedBlock
    return .constBlock
  else if ← word? "_" then return .infer
  else g.loopOrBlock

/-- An expression without operators around it. -/
def atom (structs : Bool) : Parser ExprKind := do
  let ts ← ahead
  if isLiteral ts then
    copy 1
    return .literal
  else if startsAsyncBlock ts then
    word "async"
    let _ ← word? "move"
    g.block
    return .asyncBlock
  else if isWord "try" ts && isGroup .brace (ts.drop 1) then
    word "try"
    g.block
    return .tryBlock
  else if startsClosure ts then
    g.closure structs
    return .closure
  else if startsBuiltin ts then
    let _ ← verbatim builtin
    return .verbatim
  else if startsPath ts || isOperator "::" ts || isOperator "<" ts ||
      (isWord "try" ts && (isOperator "!" (ts.drop 1) || isOperator "::" (ts.drop 1))) then
    g.pathExpr structs
  else if isGroup .paren ts then g.parenExpr
  else if isGroup .bracket ts then g.arrayExpr
  else if isOperator ".." ts then
    g.rangeTail structs
    return .range
  else if isLifetime ts then
    let _ ← lifetime
    operator ":"
    require fun ts => ["while", "for", "loop"].any (isWord · ts) || isGroup .brace ts
    g.loopOrBlock
  else g.wordExpr structs

/-- Generic arguments of a method. -/
def turbofish : Parser Unit := do
  operator "::"
  let _ ← writtenAs
    (fun (arguments, trailing) =>
      [.punct '<' false] ++ lifetimesFirst trailing (Argument.parts arguments) ++
        [.punct '>' false])
    g.angleArguments

/-- What stands after a point, at most `fuel` times: a field, a method, or the positions of
fields. -/
def memberAccess : Parser ExprKind := do
  operator "."
  match ← ahead with
  | .literal text :: _ =>
    skip 1
    match positionTokens? text with
    | some (positions, pointed) =>
      write (joinTokens "." pointed (positions.map fun t => [t]))
      if pointed then named else return .field
    | none => failure
  | _ => named
where
  /-- A name, or the number of a position after another. -/
  named : Parser ExprKind := do
    if ← word? "await" then return .await
    if ← fieldName then
      let applied ← sees (isOperator "::")
      if applied then g.turbofish
      if applied || isGroup .paren (← ahead) then
        group .paren g.exprList
        return .methodCall
    return .field

/-- A call, an index, a field or method, or `?`. -/
def trailer : Parser ExprKind := do
  let ts ← ahead
  if isGroup .paren ts then
    group .paren g.exprList
    return .call
  else if isGroup .bracket ts then
    let _ ← group .bracket g.anyExpr
    return .index
  else if ← operator? "?" then return .propagation
  else g.memberAccess

/-- What is applied to an expression of the given kind. -/
def trailers (kind : ExprKind) : Parser ExprKind := do
  if kind = .range then return kind
  let kinds ← whileSees beforeTrailer g.trailer
  return kinds.getLastD kind

/-- An attribute or an operator in front of an operand; an attribute has no kind. -/
def operandLead : Parser (Option ExprKind) := do
  let ts ← ahead
  if isOperator "#" ts then
    let _ ← g.outerAttribute
    return none
  else if ← operator? "&" then
    let raw ← sees fun ts => isWord "raw" ts && ["mut", "const"].any (isWord · (ts.drop 1))
    if raw then
      word "raw"
      copy 1
      return some .rawAddress
    else
      let _ ← word? "mut"
      return some .reference
  else
    match ← next with
    | .punct c _ =>
      write [.punct c false]
      return some .unary
    | _ => failure

/-- An operand with the operators in front of it and what is applied to it. An attribute cannot
stand on a range. -/
def operand (structs : Bool) : Parser ExprKind := do
  let leads ← whileSees beforeOperand g.operandLead
  let kind ← g.trailers (← g.atom structs)
  guard (!(kind = .range && leads.getLast? = some none))
  return (leads.findSome? id).getD kind

/-- What follows an operand of the given kind, in at most `fuel` steps: operators that bind at
least as strongly as `level`. Nothing follows a range, and comparisons do not follow each other. -/
def operations (structs : Bool) (level : Nat) : Nat → ExprKind → Parser ExprKind
  | 0, kind => return kind
  | fuel + 1, kind => do
    let ts ← ahead
    if kind = .range then return kind
    match binaryOperator? ts with
    | some (op, binary) =>
      if binary.level < level then return kind
      guard (!(binary = .comparison && kind = .comparison))
      operator op
      let _ ← g.expr structs (if binary = .assignment then assignLevel else binary.level + 1)
      operations structs level fuel (if binary = .comparison then .comparison else .binary)
    | none =>
      if level ≤ assignLevel && isAssign ts then
        operator "="
        let _ ← g.expr structs assignLevel
        operations structs level fuel .assignment
      else if level ≤ rangeLevel && isOperator ".." ts then
        g.rangeTail structs
        operations structs level fuel .range
      else if level ≤ castLevel && isWord "as" ts then
        word "as"
        let _ ← g.type false
        require (!afterCast ·)
        operations structs level fuel .cast
      else return kind

/-- Operations after an operand that has been read. -/
def operationsAfter (structs : Bool) (level : Nat) (kind : ExprKind) : Parser ExprKind := do
  g.operations structs level (← ahead).length kind

/-- An expression at the head of a statement or of an arm of a `match`: a form that ends in a
block is complete there unless a point or `?` follows. -/
def leadingExpr : Parser ExprKind := do
  let _ ← g.outerAttributes
  if ← sees startsBlockLike then
    let kind ← g.atom true
    if ← sees fun ts => isDot ts || isOperator "?" ts then
      g.operationsAfter true 0 (← g.trailers kind)
    else return kind
  else g.operationsAfter true 0 (← g.operand true)

/-- An expression to which an operator belongs that binds at least as strongly as `level`. -/
def operatorExpr (structs : Bool) (level : Nat) : Parser ExprKind := do
  g.operationsAfter structs level (← g.operand structs)

end Grammar

end RowFactory
