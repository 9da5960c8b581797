import RowFactory.Source.TypeGrammar

namespace RowFactory

open RowFactory.Parser

/-- A further alternative follows. -/
def beforeAlternative (ts : List Token) : Bool :=
  isOperator "|" ts && !isOperator "||" ts && !isOperator "|=" ts

/-- A pattern that begins with a path and is no name alone. -/
def startsPathPattern (ts : List Token) : Bool :=
  let after := ts.drop 1
  (isIdent ts &&
    (isOperator "::" after || isOperator "!" after || isGroup .brace after ||
      isGroup .paren after || isOperator ".." after)) ||
    (isWord "self" ts && isOperator "::" after) || isOperator "::" ts || isOperator "<" ts ||
    ["Self", "super", "crate"].any (isWord · ts)

/-- A range has no end here. -/
def endsPatternRange (ts : List Token) : Bool :=
  ts.isEmpty || isOperator "|" ts || isOperator "=" ts ||
    (isOperator ":" ts && !isOperator "::" ts) || isOperator "," ts || isOperator ";" ts ||
    isWord "if" ts

namespace Parser

/-- The dots of a range in a pattern, three of which are written as `..=`. The flag says that an
end must follow. -/
def patternDots : Parser Bool := do
  if ← sees (isOperator "...") then
    skip 3
    write (Token.operator "..=")
    return true
  else if ← operator? "..=" then return true
  else
    operator ".."
    return false

/-- The number of a position. -/
def position : Parser Unit := do
  match ← next with
  | .literal text =>
    match positionTokens? text with
    | some ([t], false) => write [t]
    | _ => failure
  | _ => failure

/-- A field: its name, or the number of its position. The flag says that it is a name. -/
def fieldName : Parser Bool := do
  if ← sees isAnyIdent then
    let _ ← ident
    return true
  else
    position
    return false

end Parser

namespace Grammar

variable (g : Grammar)

/-- A path in an expression or pattern, written as one. -/
def valuePath : Parser Ty := writtenAs Ty.tokens (g.anyPath true)

/-- One pattern or several alternatives; the answer says whether it is a range open at one end. -/
def alternatives : Parser Bool := do
  let led ← operator? "|"
  let first ← g.pattern
  let more ← whileSees beforeAlternative do
    operator "|"
    g.pattern
  return first && !led && more.isEmpty

/-- The end of a range, if there is one. -/
def patternEnd : Parser Bool := do
  let ts ← ahead
  if endsPatternRange ts then return false
  else
    if isLiteral ts then let _ ← literalValue
    else if isWord "const" ts then
      word "const"
      let _ ← g.attributedBlock
    else
      require fun ts => startsPath ts || isOperator "::" ts || isOperator "<" ts
      let _ ← g.valuePath
    return true

/-- What may follow the start of a range: dots and an end. -/
def patternRest : Parser Bool := do
  if ← sees (isOperator "..") then
    let closed ← patternDots
    let ended ← g.patternEnd
    guard (ended || !closed)
    return !ended
  else return false

/-- A range without a start, or the dots that stand for all the rest. -/
def patternTail : Parser Bool := do
  require (!isOperator "..." ·)
  let closed ← patternDots
  let ended ← g.patternEnd
  guard (ended || !closed)
  return ended

/-- Patterns with commas between them. -/
def patternList : Parser Unit := do
  let _ ← commaList g.alternatives

/-- A field in a struct's pattern. -/
def fieldPattern : Parser Unit := do
  let boxed ← word? "box"
  let byRef ← word? "ref"
  let mutable ← word? "mut"
  let marked := boxed || byRef || mutable
  let named ← fieldName
  guard (named || !marked)
  if !named || (!marked && isOperator ":" (← ahead)) then
    operator ":"
    let _ ← g.alternatives

/-- Fields up to the end, or up to the dots that stand for all others; at most `fuel` of them. -/
def fieldPatterns : Nat → Parser Unit
  | 0 => failure
  | fuel + 1 => do
    if ← atEnd then return
    let _ ← g.outerAttributes
    if ← operator? ".." then return
    g.fieldPattern
    if ← atEnd then return
    operator ","
    fieldPatterns fuel

/-- A pattern that begins with a path. -/
def pathPattern : Parser Bool := do
  let path ← g.valuePath
  let ts ← ahead
  let plain := match path with
    | .path none _ _ segments => segments.all (!·.hasArguments)
    | _ => false
  if plain && isOperator "!" ts && !isOperator "!=" ts then
    let _ ← callArguments
    return false
  else if isGroup .brace ts then
    group .brace do g.fieldPatterns ((← ahead).length + 1)
    return false
  else if isGroup .paren ts then
    group .paren g.patternList
    return false
  else g.patternRest

/-- A name, perhaps with what it stands for. -/
def namePattern : Parser Unit := do
  let _ ← word? "ref"
  let _ ← word? "mut"
  if ← sees (isWord "self") then word "self" else let _ ← ident
  if ← operator? "@" then let _ ← g.pattern

/-- One pattern without alternatives. The answer says whether it is a range open at one end. -/
def onePattern : Parser Bool := do
  let ts ← ahead
  if startsPathPattern ts then g.pathPattern
  else if isLiteral ts || isOperator "-" ts then
    let _ ← literalValue
    g.patternRest
  else if isWord "const" ts then
    word "const"
    let _ ← g.attributedBlock
    g.patternRest
  else if isOperator ".." ts then g.patternTail
  else
    if isWord "_" ts then word "_"
    else if isWord "box" ts then
      let _ ← verbatim do
        word "box"
        g.pattern
    else if isOperator "&" ts then
      operator "&"
      let _ ← word? "mut"
      let _ ← g.pattern
    else if isGroup .paren ts then group .paren g.patternList
    else if isGroup .bracket ts then
      group .bracket do
        let (items, _) ← commaList g.alternatives
        guard (items.all (!·))
    else g.namePattern
    return false

end Grammar

end RowFactory
