import RowFactory.Source.Grammar

namespace RowFactory

open RowFactory.Parser

/-- A word that is a path segment by itself and takes no arguments. -/
def isBareSegment (ts : List Token) : Bool :=
  ["super", "self", "crate", "try"].any fun w => isWord w ts

/-- Arguments in parentheses follow, perhaps after `::`. -/
def beforeRound (ts : List Token) : Bool :=
  isGroup .paren ts || (isOperator "::" ts && isGroup .paren (ts.drop 2))

/-- Arguments in angle brackets follow; in an expression they need `::` before them. -/
def beforeAngle (inExpr : Bool) (ts : List Token) : Bool :=
  (!inExpr && isOperator "<" ts && !isOperator "<=" ts && !isOperator "<<=" ts) ||
    (isOperator "::" ts && isOperator "<" (ts.drop 2))

/-- A further segment follows. -/
def beforeSegment (ts : List Token) : Bool :=
  isOperator "::" ts && !isGroup .paren (ts.drop 2)

/-- A bound of a type may begin here. -/
def startsBound (ts : List Token) : Bool :=
  isAnyIdent ts || isOperator "::" ts || isOperator "?" ts || isLifetime ts || isGroup .paren ts

/-- A constant stands where a type could. -/
def startsConstant (ts : List Token) : Bool :=
  isLiteral ts || isGroup .brace ts

/-- A path may begin here, and with it a type. -/
def startsPath (ts : List Token) : Bool :=
  isIdent ts || pathKeywords.any (isWord · ts)

/-- The word begins a function type, perhaps after others. -/
def startsFunction (ts : List Token) : Bool :=
  ["fn", "unsafe", "extern"].any (isWord · ts)

/-- Angle brackets begin here that declare parameters: they cannot hold the type of a qualified
path. -/
def startsGenerics (ts : List Token) : Bool :=
  let after := ts.drop 1
  let third := ts.drop 2
  isOperator "<" ts &&
    (isOperator ">" after || isOperator "#" after || isWord "const" after ||
      ((isLifetime after || isIdent after) &&
        (isOperator ">" third || isOperator "," third || isOperator "=" third ||
          (isOperator ":" third && !isOperator "::" third))))

/-- A form that the compiler has for itself. -/
def startsBuiltin (ts : List Token) : Bool :=
  isWord "builtin" ts && isOperator "#" (ts.drop 1)

/-- A bound that counts when at least one trait is required. -/
def Bound.isTrait : Bound → Bool
  | .trait .. | .verbatim _ => true
  | _ => false

/-- The last segment may be given arguments in parentheses: it has none between angle brackets. -/
def endsBare (segments : List Segment) : Bool :=
  match segments.getLast? with
  | some (.plain _) => true
  | some (.angle _ _ arguments _) => arguments.isEmpty
  | _ => false

/-- The last segment without arguments. -/
def stripEnd (segments : List Segment) : List Segment :=
  segments.dropLast ++ (segments.getLast?.map fun s => Segment.plain s.name).toList

/-- The last segment is given arguments in parentheses. -/
def giveRound (inputs : List Ty) (trailing : Bool) (output : Option Ty) (segments : List Segment) :
    List Segment :=
  segments.dropLast ++
    (segments.getLast?.map fun s => Segment.round s.name inputs trailing output).toList

namespace Parser

/-- A form that the compiler has for itself: its name and arguments. -/
def builtin : Parser Unit := do
  word "builtin"
  operator "#"
  let _ ← ident
  require (isGroup .paren)
  copy 1

end Parser

namespace Grammar

variable (g : Grammar)

/-- An output type after `->`. -/
def output? (plus : Bool) : Parser (Option Ty) :=
  ifSees (isOperator "->") do
    operator "->"
    g.type plus

/-- Types in parentheses, and an output. -/
def roundArguments : Parser (List Ty × Bool × Option Ty) := do
  let (inputs, trailing) ← group .paren (commaList (g.type true))
  return (inputs, trailing, ← g.output? false)

/-- Between angle brackets. A single name may be given a type, a constant or bounds. -/
def argument : Parser Argument := do
  if ← sees fun ts => isLifetime ts && !isOperator "+" (ts.drop 1) then
    return .lifetime (← lifetime)
  if ← sees startsConstant then return .const (← g.constant)
  let type ← g.type true
  match type with
  | .path none _ false [owner] =>
    if ← operator? "=" then
      if ← sees startsConstant then return .assocConst owner (← g.constant)
      else return .assocType owner (← g.type true)
    else if ← operator? ":" then
      let (bounds, trailing) ←
        openList (fun ts => isOperator "," ts || isOperator ">" ts) "+" g.bound
      return .constraint owner bounds trailing
    else return .type type
  | _ => return .type type

/-- Arguments between angle brackets. -/
def angleArguments : Parser (List Argument × Bool) := do
  operator "<"
  let arguments ← closedList (isOperator ">") "," g.argument
  operator ">"
  return arguments

def segment (inExpr : Bool) : Parser Segment := do
  if ← sees isBareSegment then return .plain (← anyIdent)
  let name ← if ← sees (isWord "Self") then anyIdent else ident
  if ← sees (beforeAngle inExpr) then
    let turbofish ← operator? "::"
    let (arguments, trailing) ← g.angleArguments
    return .angle name turbofish arguments trailing
  else return .plain name

/-- A path whose segments have arguments in angle brackets only. -/
def path (inExpr : Bool) : Parser Path := do
  let leadingColon ← operator? "::"
  let first ← g.segment inExpr
  let rest ← whileSees beforeSegment do
    operator "::"
    g.segment inExpr
  return ⟨leadingColon, first :: rest⟩

/-- A path of which the first `depth` segments name a trait of the type in front. -/
def qualifiedPath (inExpr : Bool) : Parser Ty := do
  operator "<"
  let self ← g.type true
  let trait ← ifSees (isWord "as") do
    word "as"
    g.path false
  operator ">"
  operator "::"
  let first ← g.segment inExpr
  let rest ← whileSees (isOperator "::") do
    operator "::"
    g.segment inExpr
  match trait with
  | some t =>
    return .path (some self) t.segments.length t.leadingColon (t.segments ++ first :: rest)
  | none => return .path (some self) 0 true (first :: rest)

/-- A path, perhaps one that a type in front qualifies. -/
def anyPath (inExpr : Bool) : Parser Ty := do
  if ← sees (isOperator "<") then g.qualifiedPath inExpr
  else
    let p ← g.path inExpr
    return .path none 0 p.leadingColon p.segments

/-- The path of a bound, which may end in arguments in parentheses; empty angle brackets and `::`
before those are not written. -/
def boundPath : Parser Path := do
  let (p, written) ← unwritten (withWritten (g.path false))
  if endsBare p.segments && beforeRound (← ahead) then
    write (Path.tokens { p with segments := stripEnd p.segments })
    let _ ← unwritten (operator? "::")
    let (inputs, trailing, output) ← g.roundArguments
    return { p with segments := giveRound inputs trailing output p.segments }
  else
    write written
    return p

/-- A trait with what may stand in front of it. There is no bound if it is marked `const`: then it
is only carried through. -/
def traitBound? (paren const : Bool) : Parser (Option Bound) := do
  let binder ← g.binder?
  let marked ←
    if ← sees (isGroup .bracket) then
      group .bracket (word "const")
      pure true
    else word? "const"
  guard (const || !marked)
  let optional ← operator? "?"
  let binder ← if optional && binder.isNone then g.binder? else pure binder
  let p ← g.boundPath
  guard (binder.isNone || !optional)
  return if marked then none else some (.trait paren optional binder p.leadingColon p.segments)

/-- A bound; only a trait may stand in parentheses. The flag admits traits marked `const`. -/
def oneBound (const : Bool) : Parser Bound := do
  if ← sees isLifetime then return .lifetime (← lifetime)
  let before ← cursor
  let bound ←
    if ← sees (isGroup .paren) then group .paren (g.traitBound? true const)
    else g.traitBound? false const
  match bound with
  | some b => return b
  | none => return .verbatim (← restoreSince before)

/-- A list of captured parameters, written with the lifetimes first. -/
def capture : Parser Bound := do
  word "use"
  operator "<"
  let (params, trailing) ← closedList (isOperator ">") "," do
    match ← next with
    | .lifetime i => return (true, [.lifetime i])
    | .ident i =>
      guard (!i.isKeyword || i = .plain "Self")
      return (false, [.ident i])
    | _ => failure
  operator ">"
  return .capture
    (.word "use" :: .punct '<' false :: lifetimesFirst trailing params ++ [.punct '>' false])

/-- A bound of an opaque type, which may list what the type captures. -/
def opaqueBound : Parser Bound := do
  if ← sees (isWord "use") then capture else g.oneBound true

/-- An opaque type's further bound may begin here. -/
def startsOpaqueBound (ts : List Token) : Bool := startsBound ts || isGroup .bracket ts

/-- Bounds of which at least one is a trait; without `plus` there is one bound. -/
def boundsOf (starts : List Token → Bool) (bound : Parser Bound) (plus : Bool) :
    Parser (List Bound × Bool) := do
  let first ← bound
  let (rest, trailing) ←
    if plus && isOperator "+" (← ahead) then
      operator "+"
      let (rest, trailing) ← openList (!starts ·) "+" bound
      pure (rest, trailing || rest.isEmpty)
    else pure ([], false)
  guard ((first :: rest).any Bound.isTrait)
  return (first :: rest, trailing)

/-- Bounds of a type. -/
def typeBounds (plus : Bool) : Parser (List Bound × Bool) :=
  boundsOf startsBound (g.oneBound false) plus

/-- Further bounds, each after its `+`. -/
def moreBounds : Parser (List Bound) :=
  whileSees (isOperator "+") do
    operator "+"
    g.oneBound false

/-- A type in parentheses that bounds follow is itself a bound, if it is one trait. -/
def parenBound? : Ty → Option Bound
  | .path none _ leading segments => some (.trait true false none leading segments)
  | .object false [.trait _ optional binder leading segments] false =>
    some (.trait true optional binder leading segments)
  | .object false [bound] false => some bound
  | _ => none

/-- In parentheses: a tuple, an object type, or one type. -/
def parenContent : Parser Ty := do
  if ← atEnd then return .tuple [] false
  if ← sees isLifetime then
    let (bounds, trailing) ← g.typeBounds true
    return .paren (.object false bounds trailing)
  if ← sees (isOperator "?") then
    match ← g.traitBound? true false with
    | some bound => return .object false [bound] false
    | none => failure
  let first ← g.type true
  if ← operator? "," then
    let (others, trailing) ← commaList (g.type true)
    return .tuple (first :: others) (trailing || others.isEmpty)
  else return .paren first

/-- A type that begins with a parenthesis. -/
def parenType (plus : Bool) : Parser Ty := do
  match ← group .paren g.parenContent with
  | .object dyn bounds trailing => return .object dyn (bounds ++ (← g.moreBounds)) trailing
  | .paren first =>
    if plus && isOperator "+" (← ahead) then
      match parenBound? first with
      | some bound => return .object false (bound :: (← g.moreBounds)) false
      | none => return .paren first
    else return .paren first
  | type => return type

/-- A name before the colon of a parameter in a function type. -/
def beforeColon (isName : List Token → Bool) (ts : List Token) : Bool :=
  isName ts && isOperator ":" (ts.drop 1) && !isOperator "::" (ts.drop 1)

def isNameOrBlank (ts : List Token) : Bool := isIdent ts || isWord "_" ts

/-- A name with its colon. -/
def paramName : Parser Ident := do
  let name ← anyIdent
  operator ":"
  return name

/-- Dots `...`, perhaps after a name. -/
def variadic : Parser (Option Ident × Bool) := do
  let name ← ifSees isNameOrBlank paramName
  operator "..."
  return (name, ← operator? ",")

/-- A parameter of a function type. Only the first may be `self`, and a changeable `self` is only
carried through. -/
def functionParam (attrs : List Attribute) (first : Bool) : Parser FnParam := do
  let mutableSelf (ts : List Token) : Bool := first && isWord "mut" ts && isWord "self" (ts.drop 1)
  let isName (ts : List Token) : Bool := isNameOrBlank ts || (first && isWord "self" ts)
  let before ← cursor
  let isMutable ← sees mutableSelf
  if isMutable then word "mut"
  let name ← ifSees (beforeColon isName) paramName
  let later := !isMutable && name != some (.plain "self") && mutableSelf (← ahead)
  let type ←
    if later then
      copy 2
      pure none
    else if isMutable && name.isNone then
      word "self"
      pure none
    else some <$> g.type true
  match type with
  | some t =>
    if isMutable then return .mk attrs none (.verbatim (← restoreSince before))
    else return .mk attrs name t
  | none => return .mk attrs none (.verbatim (← restoreSince before))

/-- Parameters of a function type up to the end, at most `fuel` of them. -/
def functionParams (first : Bool) : Nat →
    Parser (List FnParam × Bool × Option (List Attribute × Option Ident × Bool))
  | 0 => failure
  | fuel + 1 => do
    if ← atEnd then return ([], true, none)
    let attrs ← g.outerAttributes
    let ts ← ahead
    if isOperator "..." ts ||
        (isNameOrBlank ts && isOperator ":" (ts.drop 1) && isOperator "..." (ts.drop 2)) then
      let (name, comma) ← variadic
      return ([], true, some (attrs, name, comma))
    let param ← g.functionParam attrs first
    if ← atEnd then return ([param], false, none)
    operator ","
    let (rest, trailing, dots) ← functionParams false fuel
    return (param :: rest, trailing, dots)

/-- A function type; its binder has been read. -/
def functionType (binder : Option Binder) : Parser Ty := do
  let isUnsafe ← word? "unsafe"
  let abi ← abi?
  word "fn"
  let (params, trailing, dots) ← group .paren do
    g.functionParams true ((← ahead).length + 1)
  return .function binder isUnsafe abi params (trailing && !params.isEmpty) dots
    (← g.output? false)

/-- A type that begins with a path; its binder has been read. -/
def pathType (plus : Bool) (binder : Option Binder) : Parser Ty := do
  let type ← g.anyPath false
  match type with
  | .path none _ leading segments =>
    let ts ← ahead
    if isOperator "!" ts && !isOperator "!=" ts && segments.all (!·.hasArguments) then
      let (d, arguments) ← callArguments
      return .call ⟨leading, segments.map Segment.name⟩ d arguments
    else
      let first := Bound.trait false false binder leading segments
      if plus && isOperator "+" ts then
        operator "+"
        let (rest, trailing) ← openList (!startsBound ·) "+" (g.oneBound false)
        return .object false (first :: rest) (trailing || rest.isEmpty)
      else if binder.isSome then return .object false [first] false
      else return type
  | _ => return type

/-- In brackets: a slice, or an array with its size. -/
def bracketType : Parser Ty :=
  group .bracket do
    let element ← g.type true
    if ← operator? ";" then
      let (_, size) ← withWritten g.anyExpr
      return .array element size
    else return .slice element

/-- A type that begins with an operator or a word of its own. -/
def markedType (plus : Bool) : Parser Ty := do
  let before ← cursor
  if ← word? "dyn" then
    let starred ← operator? "*"
    let (bounds, trailing) ← g.typeBounds plus
    if starred then return .verbatim (← restoreSince before)
    else return .object true bounds trailing
  else if ← sees (isGroup .bracket) then g.bracketType
  else if ← operator? "*" then
    let mutable ← word? "mut"
    if !mutable then word "const"
    return .pointer mutable (← g.type false)
  else if ← operator? "&" then
    let lifetime ← ifSees isLifetime lifetime
    let mutable ← word? "mut"
    return .reference lifetime mutable (← g.type false)
  else if ← operator? "!" then return .never
  else if ← word? "impl" then
    let (bounds, trailing) ← boundsOf startsOpaqueBound g.opaqueBound plus
    return .impl bounds trailing
  else if ← word? "_" then return .infer
  else
    require isLifetime
    let (bounds, trailing) ← g.typeBounds true
    return .object false bounds trailing

/-- One type; `plus` says whether it may go on after a `+`. -/
def oneType (plus : Bool) : Parser Ty := do
  let before ← cursor
  let binder ← g.binder?
  let ts ← ahead
  if startsFunction ts then g.functionType binder
  else if startsBuiltin ts then
    builtin
    return .verbatim (← restoreSince before)
  else if binder.isSome then
    require startsPath
    g.pathType plus binder
  else if isGroup .paren ts then g.parenType plus
  else if startsPath ts || isOperator "::" ts || isOperator "<" ts then g.pathType plus none
  else g.markedType plus

end Grammar

end RowFactory
