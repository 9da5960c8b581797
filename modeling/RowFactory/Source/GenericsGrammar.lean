import RowFactory.Source.TypeGrammar
import RowFactory.Source.Generics

namespace RowFactory

open RowFactory.Parser

/-- The bounds of a predicate end here. -/
def endsPredicate (ts : List Token) : Bool :=
  ts.isEmpty || isGroup .brace ts || isOperator "," ts || isOperator ";" ts ||
    (isOperator ":" ts && !isOperator "::" ts) || isOperator "=" ts

/-- A colon and the bounds after it; there is no colon without bounds. -/
def boundTokens (bounds : List Bound) (trailing : Bool) : List Token :=
  if bounds.isEmpty then [] else .punct ':' false :: joinTokens "+" trailing (Bound.parts bounds)

/-- Angle brackets around parameters with what is written for each, lifetimes first. -/
def paramTokens (params : List (GenericParam × List Token)) (trailing : Bool) : List Token :=
  if params.isEmpty then []
  else
    [.punct '<' false] ++
      lifetimesFirst trailing (params.map fun (p, ts) => (p.isLifetime, ts)) ++ [.punct '>' false]

namespace Grammar

variable (g : Grammar)

/-- Bounds after a colon, up to where `stop` holds. -/
def boundsAfterColon (stop : List Token → Bool) : Parser (List Bound × Bool) := do
  if ← sees (isOperator ":") then
    writtenAs (fun (bounds, trailing) => boundTokens bounds trailing) do
      operator ":"
      openList stop "+" g.bound
  else return ([], false)

def typeParam (attrs : List Attribute) (name : Ident) : Parser GenericParam := do
  let (bounds, trailing) ← g.boundsAfterColon fun ts =>
    isOperator "," ts || isOperator ">" ts || isOperator "=" ts
  if ← operator? "=" then let _ ← g.type true
  return .type attrs name bounds trailing

def genericParam : Parser GenericParam := do
  let attrs ← g.outerAttributes
  if ← sees isLifetime then return .lifetime { (← g.lifetimeParam) with attrs }
  else if ← word? "const" then
    let name ← ident
    operator ":"
    let type ← g.type true
    if ← operator? "=" then let _ ← g.constant
    return .const attrs name type
  else g.typeParam attrs (← ident)

/-- A parameter of a declaration, which may also be a blank. -/
def declaredParam : Parser GenericParam := do
  let isBlank ← peek do
    let _ ← g.outerAttributes
    sees (isWord "_")
  if isBlank = some true then return .type (← g.outerAttributes) (← anyIdent) [] false
  else g.genericParam

/-- Parameters in angle brackets, if there are any. -/
def genericParams : Parser Generics := do
  if ← sees (isOperator "<") then
    let (params, trailing) ← writtenAs (fun (params, trailing) => paramTokens params trailing) do
      operator "<"
      let params ← closedList (isOperator ">") "," (withWritten g.declaredParam)
      operator ">"
      return params
    return ⟨params.map (·.1), trailing, [], false⟩
  else return .none

def predicate : Parser WherePredicate := do
  if ← sees fun ts => isLifetime ts && isOperator ":" (ts.drop 1) then
    let name ← lifetime
    operator ":"
    let (bounds, trailing) ← openList endsPredicate "+" lifetime
    return .lifetime name bounds trailing
  else
    let binder ← g.binder?
    let bounded ← g.type true
    operator ":"
    let (bounds, trailing) ← openList endsPredicate "+" g.bound
    return .type binder bounded bounds trailing

/-- The predicates of a where clause, if there is one. -/
def whereClause (generics : Generics) : Parser Generics := do
  if ← sees (isWord "where") then
    writtenAs Generics.whereTokens do
      word "where"
      require (!startsGenerics ·)
      let (predicates, trailing) ← openList endsPredicate "," g.predicate
      return { generics with predicates, predicatesTrailing := trailing }
  else return generics

end Grammar

end RowFactory
