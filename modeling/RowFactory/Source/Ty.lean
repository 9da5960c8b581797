import RowFactory.Source.Attribute

namespace RowFactory

/-- A lifetime parameter with its bounds. -/
structure LifetimeParam where
  attrs : List Attribute
  name : Ident
  bounds : List Ident
  trailing : Bool
deriving Inhabited

/-- A parameter of a binder. One that is not a lifetime is only carried through. -/
inductive BinderParam where
  | lifetime (param : LifetimeParam)
  | other (tokens : List Token)

/-- The parameters of a binder `for<..>`; the flag says that a comma stands last. -/
abbrev Binder := List BinderParam × Bool

mutual

inductive Ty where
  /-- A path; `self` is the type in `<self as ..>`, where `depth` segments name the trait. -/
  | path (self : Option Ty) (depth : Nat) (leadingColon : Bool) (segments : List Segment)
  | reference (lifetime : Option Ident) (mutable : Bool) (target : Ty)
  | pointer (mutable : Bool) (target : Ty)
  | slice (element : Ty)
  | array (element : Ty) (size : List Token)
  | tuple (elements : List Ty) (trailing : Bool)
  | paren (inner : Ty)
  | never
  | infer
  | object (dyn : Bool) (bounds : List Bound) (trailing : Bool)
  | impl (bounds : List Bound) (trailing : Bool)
  | function (binder : Option Binder) (isUnsafe : Bool)
      (abi : Option (Option String)) (params : List FnParam) (trailing : Bool)
      (variadic : Option (List Attribute × Option Ident × Bool)) (output : Option Ty)
  | call (path : NamePath) (delimiter : Delimiter) (arguments : List Token)
  /-- A form that is only carried through. -/
  | verbatim (tokens : List Token)

/-- A name of a path, alone or with arguments in angle brackets or parentheses. -/
inductive Segment where
  | plain (name : Ident)
  | angle (name : Ident) (turbofish : Bool) (arguments : List Argument) (trailing : Bool)
  | round (name : Ident) (inputs : List Ty) (trailing : Bool) (output : Option Ty)

/-- What may stand between angle brackets. In the last three forms `owner` names an associated
item. -/
inductive Argument where
  | lifetime (name : Ident)
  | type (type : Ty)
  | const (value : List Token)
  | assocType (owner : Segment) (type : Ty)
  | assocConst (owner : Segment) (value : List Token)
  | constraint (owner : Segment) (bounds : List Bound) (trailing : Bool)

inductive Bound where
  | trait (paren : Bool) (optional : Bool) (binder : Option Binder)
      (leadingColon : Bool) (segments : List Segment)
  | lifetime (name : Ident)
  /-- A list of captured parameters, `use<..>`. -/
  | capture (tokens : List Token)
  /-- A form that is only carried through. -/
  | verbatim (tokens : List Token)

/-- A parameter of a function type. -/
inductive FnParam where
  | mk (attrs : List Attribute) (name : Option Ident) (type : Ty)

end

instance : Inhabited Ty := ⟨.never⟩

/-- A path that may have arguments. -/
structure Path where
  leadingColon : Bool
  segments : List Segment

instance : Inhabited Path := ⟨⟨false, []⟩⟩

def Segment.name : Segment → Ident
  | .plain n => n
  | .angle n _ _ _ => n
  | .round n _ _ _ => n

def Segment.hasArguments : Segment → Bool
  | .plain _ => false
  | _ => true

/-- Token sequences with a separator between them, and after the last if it trails. -/
def joinTokens (separator : String) (trailing : Bool) : List (List Token) → List Token
  | [] => []
  | [ts] => ts ++ (if trailing then Token.operator separator else [])
  | ts :: rest => ts ++ Token.operator separator ++ joinTokens separator trailing rest

def Token.comma : Token := .punct ',' false

def wordIf (condition : Bool) (w : String) : List Token :=
  if condition then [.word w] else []

def operatorIf (condition : Bool) (op : String) : List Token :=
  if condition then Token.operator op else []

def attributeTokens (attrs : List Attribute) : List Token :=
  attrs.flatMap Attribute.tokens

def LifetimeParam.tokens (p : LifetimeParam) : List Token :=
  attributeTokens p.attrs ++ [.lifetime p.name] ++
    (if p.bounds.isEmpty then []
      else .punct ':' false :: joinTokens "+" p.trailing (p.bounds.map fun b => [.lifetime b]))

def BinderParam.tokens : BinderParam → List Token
  | .lifetime p => p.tokens
  | .other ts => ts

/-- The binder, if there is one. -/
def binderTokens : Option Binder → List Token
  | none => []
  | some (params, trailing) =>
    [.word "for", .punct '<' false] ++
      joinTokens "," trailing (params.map BinderParam.tokens) ++ [.punct '>' false]

def abiTokens : Option (Option String) → List Token
  | none => []
  | some none => [.word "extern"]
  | some (some name) => [.word "extern", .literal name]

/-- An argument that is a lifetime; those are written before all others. -/
def Argument.isLifetime : Argument → Bool
  | .lifetime _ => true
  | _ => false

/-- Lists written in two rounds, lifetimes first: a comma stands after every item but the last of
the list, and after that one if it trails; where the first round ends without one, it is added
before the second. -/
def lifetimesFirst (trailing : Bool) (items : List (Bool × List Token)) : List Token :=
  let marked := items.mapIdx fun i (isLifetime, ts) =>
    (isLifetime, ts, i + 1 < items.length || trailing)
  let render (chosen : List (Bool × List Token × Bool)) : List Token :=
    chosen.flatMap fun (_, ts, comma) => ts ++ operatorIf comma ","
  let first := marked.filter (·.1)
  let second := marked.filter (!·.1)
  let gap := match first.getLast? with
    | some (_, _, comma) => !comma && !second.isEmpty
    | none => false
  render first ++ operatorIf gap "," ++ render second

mutual

def Ty.tokens : Ty → List Token
  | .path none _ leading segments => operatorIf leading "::" ++ Segment.joined segments
  | .path (some self) depth leading segments =>
    let parts := Segment.parts segments
    let trait := parts.take depth
    [.punct '<' false] ++ self.tokens ++
      (if depth = 0 then []
        else [.word "as"] ++ operatorIf leading "::" ++ joinTokens "::" false trait) ++
      [.punct '>' false] ++
      ((parts.drop depth).flatMap fun part => Token.operator "::" ++ part)
  | .reference lifetime mutable target =>
    .punct '&' false :: (lifetime.toList.map Token.lifetime) ++ wordIf mutable "mut" ++
      target.tokens
  | .pointer mutable target =>
    .punct '*' false :: .word (if mutable then "mut" else "const") :: target.tokens
  | .slice element => [.group .bracket element.tokens]
  | .array element size => [.group .bracket (element.tokens ++ [.punct ';' false] ++ size)]
  | .tuple elements trailing =>
    [.group .paren (joinTokens "," (trailing || elements.length = 1) (Ty.parts elements))]
  | .paren inner => [.group .paren inner.tokens]
  | .never => [.punct '!' false]
  | .infer => [.word "_"]
  | .object dyn bounds trailing =>
    wordIf dyn "dyn" ++ joinTokens "+" trailing (Bound.parts bounds)
  | .impl bounds trailing => .word "impl" :: joinTokens "+" trailing (Bound.parts bounds)
  | .function binder isUnsafe abi params trailing variadic output =>
    let dots : List Token := match variadic with
      | none => []
      | some (attrs, name, comma) =>
        operatorIf (!params.isEmpty && !trailing) "," ++ attributeTokens attrs ++
          (name.toList.flatMap fun i => [.ident i, .punct ':' false]) ++ Token.operator "..." ++
          operatorIf comma ","
    binderTokens binder ++ wordIf isUnsafe "unsafe" ++ abiTokens abi ++ [.word "fn"] ++
      [.group .paren (joinTokens "," trailing (FnParam.parts params) ++ dots)] ++
      Ty.outputTokens output
  | .call path delimiter arguments =>
    path.tokens ++ [.punct '!' false, .group delimiter arguments]
  | .verbatim tokens => tokens

/-- An output type after `->`, if there is one. -/
def Ty.outputTokens : Option Ty → List Token
  | none => []
  | some ty => Token.operator "->" ++ ty.tokens

def Ty.parts : List Ty → List (List Token)
  | [] => []
  | ty :: rest => ty.tokens :: Ty.parts rest

def Segment.tokens : Segment → List Token
  | .plain name => [.ident name]
  | .angle name turbofish arguments trailing =>
    .ident name :: operatorIf turbofish "::" ++ [.punct '<' false] ++
      lifetimesFirst trailing (Argument.parts arguments) ++ [.punct '>' false]
  | .round name inputs trailing output =>
    .ident name :: .group .paren (joinTokens "," trailing (Ty.parts inputs)) ::
      Ty.outputTokens output

def Segment.parts : List Segment → List (List Token)
  | [] => []
  | s :: rest => s.tokens :: Segment.parts rest

/-- Segments with `::` between them. -/
def Segment.joined : List Segment → List Token
  | [] => []
  | [s] => s.tokens
  | s :: t :: rest => s.tokens ++ Token.operator "::" ++ Segment.joined (t :: rest)

def Argument.tokens : Argument → List Token
  | .lifetime name => [.lifetime name]
  | .type type => type.tokens
  | .const value => value
  | .assocType owner type => owner.tokens ++ [.punct '=' false] ++ type.tokens
  | .assocConst owner value => owner.tokens ++ [.punct '=' false] ++ value
  | .constraint owner bounds trailing =>
    owner.tokens ++ [.punct ':' false] ++ joinTokens "+" trailing (Bound.parts bounds)

def Argument.parts : List Argument → List (Bool × List Token)
  | [] => []
  | a :: rest => (a.isLifetime, a.tokens) :: Argument.parts rest

def Bound.tokens : Bound → List Token
  | .trait paren optional binder leading segments =>
    let bare := operatorIf optional "?" ++ binderTokens binder ++ operatorIf leading "::" ++
      Segment.joined segments
    if paren then [.group .paren bare] else bare
  | .lifetime name => [.lifetime name]
  | .capture tokens => tokens
  | .verbatim tokens => tokens

def Bound.parts : List Bound → List (List Token)
  | [] => []
  | b :: rest => b.tokens :: Bound.parts rest

def FnParam.tokens : FnParam → List Token
  | .mk attrs name type =>
    attributeTokens attrs ++ (name.toList.flatMap fun i => [.ident i, .punct ':' false]) ++
      type.tokens

def FnParam.parts : List FnParam → List (List Token)
  | [] => []
  | p :: rest => p.tokens :: FnParam.parts rest

end

def Path.tokens (p : Path) : List Token :=
  operatorIf p.leadingColon "::" ++ Segment.joined p.segments

end RowFactory
