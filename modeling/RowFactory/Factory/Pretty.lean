import RowFactory.Factory.Basic
import RowFactory.Layout.TypeLayout
import RowFactory.Source.File

namespace RowFactory

/-- Why a factory has no text. -/
inductive PrintError where
  /-- The tokens do not form a program. -/
  | invalid
  /-- The tokens form a program with a form in it that is only carried through, and has no layout. -/
  | stray
deriving DecidableEq

/-- The way a factory is printed. -/
structure Printer where
  print : Factory → Except PrintError String

namespace Factory

/-- The items that the tokens are read back as, if they are those of a source file. -/
def items? (f : Factory) : Option (List Item) := itemsOfTokens? f.tokens

/-- The tokens form a program, all of which has a layout. -/
def isPrintable (f : Factory) : Bool := f.items?.any (·.all (!·.isVerbatim))

/-- The parameter `name: T`. -/
def paramPieces (f : Factory) : List Piece := [.word (f.rowName.text ++ ": "), .word "&__R"]

def resultPieces : List Piece :=
  (corePath ["result", "Result"]).pieces ++
    bracketed "<" ">" indentStep [[.word "Self"], [.word "__R", .word "::", .word "Error"]]

/-- The function up to its brace. -/
def signaturePieces (f : Factory) : List Piece :=
  let rowParam : List Piece :=
    Piece.word "__R" :: Piece.group indentStep false (Piece.word ": " :: (f.below ["Row"]).pieces)
  [Piece.word "fn ", .word "from_row"] ++ bracketed "<" ">" 0 [rowParam] ++
    [Piece.word "(", .gap .never] ++
    Piece.group 0 true (Piece.gap .thin :: Piece.commaItems .closing [f.paramPieces]) ++
    [Piece.word ")"] ++
    Piece.group (-indentStep) true (Piece.word " -> " :: resultPieces) ++ [Piece.word " "]

/-- Arguments of a call. -/
def callPieces (arguments : List (List Piece)) : List Piece :=
  bracketed "(" ")" indentStep arguments

def instancePieces (f : Factory) : List Piece :=
  Piece.group 0 false
    ([Piece.word "let ", .word (if f.isDegenerate then "instance" else "mut instance"),
        .word " = ", .gap .never,
        .word "<Self as ::core::default::Default>::default", .word "(", .word ")", .word ";"]) ++
    [Piece.gap .lineEnd]

def assignmentPieces (f : Factory) (a : Assignment) : List Piece :=
  let left := Piece.group indentStep true
    (Piece.group (-indentStep) true [Piece.word "instance"] ++
      [Piece.gap .thin, .word ".", .word a.field.text])
  let column := Token.text (.string a.column)
  let right := (f.below ["Row", "get"]).valuePieces ++
    callPieces [[.word f.rowName.text], [.word column]] ++ [Piece.word "?"]
  Piece.group 0 false
    (Piece.group 0 false (left ++ [Piece.word " = ", .gap .never] ++ right) ++ [Piece.word ";"]) ++
    [Piece.gap .lineEnd]

/-- The statement that ends the function. -/
def answerPieces : List Piece :=
  Piece.group 0 false
    ([Piece.word "::core::result::Result::Ok"] ++ callPieces [[.word "instance"]])

/-- The function of the factory. -/
def functionPieces (f : Factory) : List Piece :=
  Piece.group indentStep true
    (f.signaturePieces ++ [Piece.word "\x7b", .gap .lineEnd] ++ f.instancePieces ++
      f.assignments.flatMap f.assignmentPieces ++ answerPieces ++
      [Piece.gap { Gap.lineEnd with offset := -indentStep }]) ++
    [Piece.word "\x7d"]

/-- The whole `impl` block. -/
def pieces (f : Factory) : List Piece :=
  let generics := f.implGenerics
  let header :=
    Piece.group (-indentStep) false
      (Piece.group indentStep true (Piece.word "impl" :: generics.declarationPieces) ++
        [Piece.word " "] ++
        (f.below ["FromRow"]).pieces ++ [Piece.gap .blank, .word "for "] ++ f.target.pieces ++
        generics.argumentPieces)
  [Piece.word "#[", .word "automatically_derived", .word "]", .gap .blank] ++
    Piece.group indentStep true
      (header ++ generics.wherePieces ++ [Piece.word "\x7b", .gap .lineEnd] ++ f.functionPieces ++
        [Piece.gap { Gap.lineEnd with offset := -indentStep }]) ++
    [Piece.word "\x7d", .gap .lineEnd]

end Factory

namespace Printer

/-- Over several lines, if the tokens form a program. A blank in angle brackets in front of the
runtime's path is read with it as one path, below a type that is left open. -/
def pretty : Printer where
  print f :=
    if f.isPrintable then .ok (layOut f.pieces)
    else .error (if f.items?.isSome then .stray else .invalid)

/-- All tokens on one line. -/
def compact : Printer where
  print f := .ok f.compactText

end Printer

end RowFactory
