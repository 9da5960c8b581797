import RowFactory.Source.Ty

namespace RowFactory

/-- A default of a type or constant is read but not kept: no form that is written has one. -/
inductive GenericParam where
  | lifetime (param : LifetimeParam)
  | type (attrs : List Attribute) (name : Ident) (bounds : List Bound) (trailing : Bool)
  | const (attrs : List Attribute) (name : Ident) (type : Ty)

inductive WherePredicate where
  | lifetime (name : Ident) (bounds : List Ident) (trailing : Bool)
  | type (binder : Option Binder) (bounded : Ty) (bounds : List Bound) (trailing : Bool)

/-- The flags say that a comma stands last. -/
structure Generics where
  params : List GenericParam
  trailing : Bool
  predicates : List WherePredicate
  predicatesTrailing : Bool

def Generics.none : Generics := ⟨[], false, [], false⟩

instance : Inhabited Generics := ⟨.none⟩

def GenericParam.name : GenericParam → Ident
  | .lifetime p => p.name
  | .type _ n _ _ => n
  | .const _ n _ => n

def GenericParam.isLifetime : GenericParam → Bool
  | .lifetime _ => true
  | _ => false

/-- The parameter with its bounds, as an `impl` declares it. -/
def GenericParam.tokens : GenericParam → List Token
  | .lifetime p => p.tokens
  | .type attrs name bounds trailing =>
    attributeTokens attrs ++ [.ident name] ++
      (if bounds.isEmpty then []
        else .punct ':' false :: joinTokens "+" trailing (Bound.parts bounds))
  | .const attrs name ty =>
    attributeTokens attrs ++ [.word "const", .ident name, .punct ':' false] ++ ty.tokens

/-- The parameter as an argument. -/
def GenericParam.argument : GenericParam → Token
  | .lifetime p => .lifetime p.name
  | p => .ident p.name

def WherePredicate.tokens : WherePredicate → List Token
  | .lifetime name bounds trailing =>
    .lifetime name :: .punct ':' false ::
      joinTokens "+" trailing (bounds.map fun b => [.lifetime b])
  | .type binder bounded bounds trailing =>
    binderTokens binder ++ bounded.tokens ++
      .punct ':' false :: joinTokens "+" trailing (Bound.parts bounds)

/-- Angle brackets around what is given for each parameter, lifetimes first; nothing without
parameters. -/
def Generics.angled (g : Generics) (form : GenericParam → List Token) : List Token :=
  if g.params.isEmpty then []
  else
    [.punct '<' false] ++
      lifetimesFirst g.trailing (g.params.map fun p => (p.isLifetime, form p)) ++
      [.punct '>' false]

/-- The parameters as an `impl` declares them. -/
def Generics.declarationTokens (g : Generics) : List Token := g.angled GenericParam.tokens

/-- The parameters as arguments of the type they belong to. -/
def Generics.argumentTokens (g : Generics) : List Token := g.angled fun p => [p.argument]

def Generics.whereTokens (g : Generics) : List Token :=
  if g.predicates.isEmpty then []
  else
    .word "where" ::
      joinTokens "," g.predicatesTrailing (g.predicates.map WherePredicate.tokens)

/-- A further predicate at the end. -/
def Generics.require (g : Generics) (p : WherePredicate) : Generics :=
  { g with predicates := g.predicates ++ [p], predicatesTrailing := false }

end RowFactory
