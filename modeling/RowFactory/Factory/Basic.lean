import RowFactory.Factory.Artifact
import RowFactory.Mapping.Binding
import RowFactory.Source.Literal

namespace RowFactory

structure Assignment where
  field : Ident
  column : String
deriving DecidableEq, Inhabited

structure Factory where
  target : Path
  generics : Generics
  /-- Where the traits of rows are found. -/
  runtime : Path
  assignments : List Assignment

namespace Factory

/-- The factory of a type; it fails where the type's name is no path. -/
def ofType? (t : AnnotatedType) (bindings : List ColumnBinding) (runtime : Path) :
    Except NameError Factory := do
  return ⟨← t.name.path?, t.generics, runtime, bindings.map fun b => ⟨b.field, b.column⟩⟩

/-- Nothing is assigned. -/
def isDegenerate (f : Factory) : Bool := f.assignments.isEmpty

end Factory

/-- A path below the crate of standard definitions. -/
def corePath (names : List String) : Path :=
  ⟨true, ("core" :: names).map fun n => .plain (.plain n)⟩

def plainTy (name : String) : Ty := .path none 0 false [.plain (.plain name)]

def Path.ty (p : Path) : Ty := .path none 0 p.leadingColon p.segments

/-- The predicate that `Self` has a default. -/
def defaultPredicate : WherePredicate :=
  .type none (plainTy "Self")
    [.trait false false none true (corePath ["default", "Default"]).segments] false

namespace Factory

/-- The parameters and predicates of the factory: those of the type, and if there are any
parameters the type must have a default. -/
def implGenerics (f : Factory) : Generics :=
  if f.generics.params.isEmpty then f.generics else f.generics.require defaultPredicate

/-- The row is not used where nothing is assigned. -/
def rowName (f : Factory) : Ident := .plain (if f.isDegenerate then "_row" else "row")

/-- A path below the runtime. -/
def below (f : Factory) (names : List String) : Path :=
  { f.runtime with segments := f.runtime.segments ++ names.map fun n => .plain (.plain n) }

def pathTokens (names : List String) : List Token := (corePath names).tokens

/-- The name of the row's type among the factory's own names. -/
def rowParam : Token := .word "__R"

/-- The statement of one assignment. -/
def assignmentTokens (f : Factory) (a : Assignment) : List Token :=
  [Token.word "instance", .punct '.' false, .ident a.field, .punct '=' false] ++
    (f.below ["Row", "get"]).tokens ++
    [Token.group .paren [.ident f.rowName, .comma, .string a.column], .punct '?' false,
      .punct ';' false]

/-- The tokens of the function's parameter list and result. -/
def signatureTokens (f : Factory) : List Token :=
  [Token.word "fn", .word "from_row", .punct '<' false, rowParam, .punct ':' false] ++
    (f.below ["Row"]).tokens ++
    [Token.punct '>' false,
      .group .paren [.ident f.rowName, .punct ':' false, .punct '&' false, rowParam]] ++
    Token.operator "->" ++ pathTokens ["result", "Result"] ++
    [Token.punct '<' false, .word "Self", .comma, rowParam] ++ Token.operator "::" ++
    [Token.word "Error", .punct '>' false]

/-- The statements of the function. -/
def bodyTokens (f : Factory) : List Token :=
  Token.word "let" :: wordIf (!f.isDegenerate) "mut" ++
    [Token.word "instance", .punct '=' false, .punct '<' false, .word "Self", .word "as"] ++
    pathTokens ["default", "Default"] ++ [Token.punct '>' false] ++ Token.operator "::" ++
    [Token.word "default", .group .paren [], .punct ';' false] ++
    f.assignments.flatMap f.assignmentTokens ++
    pathTokens ["result", "Result"] ++ Token.operator "::" ++
    [Token.word "Ok", .group .paren [Token.word "instance"]]

/-- The whole `impl` block. -/
def tokens (f : Factory) : List Token :=
  [Token.punct '#' false, .group .bracket [Token.word "automatically_derived"], .word "impl"] ++
    f.implGenerics.declarationTokens ++ (f.below ["FromRow"]).tokens ++ [Token.word "for"] ++
    f.target.tokens ++ f.implGenerics.argumentTokens ++ f.implGenerics.whereTokens ++
    [Token.group .brace (f.signatureTokens ++ [Token.group .brace f.bodyTokens])]

/-- All tokens on one line. -/
def compactText (f : Factory) : String := Token.line f.tokens ++ "\n"

end Factory

end RowFactory
