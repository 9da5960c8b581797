import RowFactory.Layout.TokenLayout
import RowFactory.Source.Generics

namespace RowFactory

/-- Sequences with a text between them. -/
def separatedBy (separator : String) : List (List Piece) → List Piece
  | [] => []
  | [ps] => ps
  | ps :: rest => ps ++ [Piece.word separator] ++ separatedBy separator rest

/-- Items in brackets that may be broken, one on a line. -/
def bracketed (opening closing : String) (offset : Int) (items : List (List Piece)) :
    List Piece :=
  .word opening :: Piece.group offset true (.gap .thin :: Piece.commaItems .closing items) ++
    [Piece.word closing]

/-- Bounds of which all after the first may begin a line. -/
def boundPieces (first : String) : List (List Piece) → List Piece
  | [] => []
  | b :: rest => .word first :: b ++ rest.flatMap fun b => .gap .blank :: .word "+ " :: b

def attributePieces (attrs : List Attribute) : List Piece := attrs.flatMap Attribute.pieces

def LifetimeParam.pieces (p : LifetimeParam) : List Piece :=
  attributePieces p.attrs ++ [Piece.word ("'" ++ p.name.text)] ++
    (if p.bounds.isEmpty then []
      else .word ": " :: separatedBy " + " (p.bounds.map fun b => [.word ("'" ++ b.text)]))

def BinderParam.pieces : BinderParam → List Piece
  | .lifetime p => p.pieces
  | .other ts => [.word (Token.exprWords ts)]

def binderPieces : Option Binder → List Piece
  | none => []
  | some (params, _) =>
    .word "for<" :: separatedBy ", " (params.map BinderParam.pieces) ++ [Piece.word "> "]

def abiPieces : Option (Option String) → List Piece
  | none => []
  | some none => [.word "extern "]
  | some (some name) => [.word "extern ", .word name, .word " "]

/-- Lifetimes before all else. -/
def lifetimesLed (items : List (Bool × List Piece)) : List (List Piece) :=
  ((items.filter (·.1)) ++ items.filter (!·.1)).map (·.2)

mutual

def Ty.pieces : Ty → List Piece
  | .path none _ leading segments =>
    (if leading then [.word "::"] else []) ++ separatedBy "::" (Segment.pieceParts false segments)
  | .path (some self) depth leading segments =>
    let parts := Segment.pieceParts false segments
    [Piece.word "<"] ++ self.pieces ++
      (if depth = 0 then []
        else .word " as " :: (if leading then [.word "::"] else []) ++
          separatedBy "::" (parts.take depth)) ++
      [Piece.word ">"] ++ (parts.drop depth).flatMap fun part => .word "::" :: part
  | .reference lifetime mutable target =>
    .word "&" :: (lifetime.toList.map fun l => .word ("'" ++ l.text ++ " ")) ++
      (if mutable then [.word "mut "] else []) ++ target.pieces
  | .pointer mutable target =>
    .word "*" :: .word (if mutable then "mut " else "const ") :: target.pieces
  | .slice element => .word "[" :: element.pieces ++ [Piece.word "]"]
  | .array element size =>
    .word "[" :: element.pieces ++ [Piece.word "; "] ++ constantPieces size ++ [Piece.word "]"]
  | .tuple elements _ =>
    match elements with
    | [e] =>
      .word "(" :: Piece.group indentStep true
        (.gap .thin :: e.pieces ++
          [Piece.word ",", .gap { Gap.thin with offset := -indentStep }]) ++
        [Piece.word ")"]
    | elements => bracketed "(" ")" indentStep (Ty.pieceParts elements)
  | .paren inner => .word "(" :: inner.pieces ++ [Piece.word ")"]
  | .never => [.word "!"]
  | .infer => [.word "_"]
  | .object _ bounds _ => .word "dyn " :: separatedBy " + " (Bound.pieceParts bounds)
  | .impl bounds _ => .word "impl " :: separatedBy " + " (Bound.pieceParts bounds)
  | .function binder isUnsafe abi params _ variadic output =>
    let inner : List Piece := match variadic with
      | none => Piece.commaItems .closing (FnParam.pieceParts params)
      | some (attrs, name, _) =>
        ((FnParam.pieceParts params).flatMap fun p => p ++ [Piece.word ",", .gap .blank]) ++
          attributePieces attrs ++ (name.toList.map fun n => .word (n.text ++ ": ")) ++
          [Piece.word "...", .gap { Gap.thin with offset := -indentStep }]
    binderPieces binder ++ (if isUnsafe then [.word "unsafe "] else []) ++ abiPieces abi ++
      [Piece.word "fn("] ++ Piece.group indentStep true (.gap .thin :: inner) ++ [Piece.word ")"] ++
      Ty.outputPieces output
  | .call path d arguments =>
    [.word (path.text ++ "!" ++ (Token.group d arguments).exprWord)]
  | .verbatim tokens => [.word (Token.exprWords tokens)]

def Ty.outputPieces : Option Ty → List Piece
  | none => []
  | some ty => .word " -> " :: ty.pieces

def Ty.pieceParts : List Ty → List (List Piece)
  | [] => []
  | ty :: rest => ty.pieces :: Ty.pieceParts rest

/-- A segment; `turbofish` writes `::` before arguments in angle brackets. -/
def Segment.pieces (turbofish : Bool) : Segment → List Piece
  | .plain name => [.word name.text]
  | .angle name _ arguments _ =>
    .word name.text ::
      (if arguments.isEmpty then []
        else bracketed (if turbofish then "::<" else "<") ">" indentStep
          (lifetimesLed (Argument.pieceParts arguments)))
  | .round name inputs _ output =>
    .word name.text ::
      Piece.group indentStep true
        (.word "(" :: .gap .thin :: Piece.commaItems .closing (Ty.pieceParts inputs) ++
          [Piece.word ")"]) ++
      Ty.outputPieces output

def Segment.pieceParts (turbofish : Bool) : List Segment → List (List Piece)
  | [] => []
  | s :: rest => s.pieces turbofish :: Segment.pieceParts turbofish rest

def Argument.pieces : Argument → List Piece
  | .lifetime name => [.word ("'" ++ name.text)]
  | .type type => type.pieces
  | .const value => constantPieces value
  | .assocType owner type => owner.pieces false ++ [Piece.word " = "] ++ type.pieces
  | .assocConst owner value => owner.pieces false ++ [Piece.word " = "] ++ constantPieces value
  | .constraint owner bounds _ =>
    owner.pieces false ++ Piece.group indentStep false (boundPieces ": " (Bound.pieceParts bounds))

def Argument.pieceParts : List Argument → List (Bool × List Piece)
  | [] => []
  | a :: rest => (a.isLifetime, a.pieces) :: Argument.pieceParts rest

def Bound.pieces : Bound → List Piece
  | .trait paren optional binder leading segments =>
    (if paren then [.word "("] else []) ++ (if optional then [.word "?"] else []) ++
      binderPieces binder ++ (if leading then [.word "::"] else []) ++
      separatedBy "::" (Segment.pieceParts false segments) ++ (if paren then [.word ")"] else [])
  | .lifetime name => [.word ("'" ++ name.text)]
  | .capture tokens => [.word (Token.exprWords tokens)]
  | .verbatim tokens => [.word (Token.exprWords tokens)]

def Bound.pieceParts : List Bound → List (List Piece)
  | [] => []
  | b :: rest => b.pieces :: Bound.pieceParts rest

def FnParam.pieces : FnParam → List Piece
  | .mk attrs name type =>
    attributePieces attrs ++ (name.toList.map fun n => .word (n.text ++ ": ")) ++ type.pieces

def FnParam.pieceParts : List FnParam → List (List Piece)
  | [] => []
  | p :: rest => p.pieces :: FnParam.pieceParts rest

end

/-- A path where a type stands. -/
def Path.pieces (p : Path) : List Piece :=
  (if p.leadingColon then [.word "::"] else []) ++
    separatedBy "::" (Segment.pieceParts false p.segments)

/-- A path where a value stands. -/
def Path.valuePieces (p : Path) : List Piece :=
  (if p.leadingColon then [.word "::"] else []) ++
    separatedBy "::" (Segment.pieceParts true p.segments)

def GenericParam.pieces : GenericParam → List Piece
  | .lifetime p => p.pieces
  | .type attrs name bounds _ =>
    attributePieces attrs ++ [Piece.word name.text] ++
      Piece.group indentStep false (boundPieces ": " (Bound.pieceParts bounds))
  | .const attrs name ty =>
    attributePieces attrs ++ [Piece.word "const ", .word name.text, .word ": "] ++ ty.pieces

/-- Parameters as an `impl` or a function declares them. -/
def Generics.declarationPieces (g : Generics) : List Piece :=
  if g.params.isEmpty then []
  else bracketed "<" ">" 0 (lifetimesLed (g.params.map fun p => (p.isLifetime, p.pieces)))

/-- Parameters as arguments of the type they belong to. -/
def Generics.argumentPieces (g : Generics) : List Piece :=
  if g.params.isEmpty then []
  else bracketed "<" ">" indentStep
    (lifetimesLed (g.params.map fun p => (p.isLifetime, [.word p.argument.text])))

def WherePredicate.pieces : WherePredicate → List Piece
  | .lifetime name bounds _ =>
    .word ("'" ++ name.text ++ ":") ::
      Piece.group indentStep false
        (boundPieces " " (bounds.map fun b => [.word ("'" ++ b.text)]))
  | .type binder bounded bounds _ =>
    binderPieces binder ++ bounded.pieces ++ [Piece.word ":"] ++
      Piece.group (if bounds.length = 1 then 0 else indentStep) false
        (boundPieces " " (Bound.pieceParts bounds))

/-- Predicates on lines of their own before a body in braces, a blank if there are none. -/
def Generics.wherePieces (g : Generics) : List Piece :=
  if g.predicates.isEmpty then [.word " "]
  else
    let lines := g.predicates.map fun p => p.pieces ++ [Piece.word ","]
    [Piece.gap { Gap.lineEnd with offset := -indentStep }, .word "where", .gap .lineEnd] ++
      (lines.dropLast.flatMap fun line => line ++ [Piece.gap .lineEnd]) ++
      (lines.getLast?.getD []) ++ [Piece.gap { Gap.lineEnd with offset := -indentStep }]

end RowFactory
