import RowFactory.Layout.Piece
import RowFactory.Source.Literal
import RowFactory.Source.Attribute

namespace RowFactory

def Token.isPunct (c : Char) : Token → Bool
  | .punct d _ => c = d
  | _ => false

/-- What an operand may end in. -/
def Token.endsOperand : Token → Bool
  | .punct c _ => c = '?' || c = '>'
  | _ => true

/-- The token is joined to the one after it. -/
def Token.isJoint : Token → Bool
  | .punct _ joint => joint
  | _ => false

/-- An operand begins after the token in front. -/
def beginsOperand (before : Option Token) : Bool :=
  !(before.any fun t => t.endsOperand || t.isJoint)

/-- The token is an operator in front of its operand. -/
def Token.isUnary (before : Option Token) (t : Token) : Bool :=
  beginsOperand before && !t.isJoint && ['&', '*', '-', '!'].any (t.isPunct ·)

/-- The token follows what stands before it without a blank. -/
def Token.isTrailing : Token → Bool
  | .punct c _ => [',', ';', '?', '.', ':'].contains c
  | _ => false

/-- Nothing stands between `a` and `b`; `before` is the token before `a`. -/
def Token.touches (before : Option Token) (a b : Token) : Bool :=
  a.isUnary before || b.isTrailing ||
    match a, b with
    | .punct _ true, .punct _ _ => true
    | .punct '.' _, _ => true
    | .punct '=' _, _ => before.any (·.isPunct '.')
    | .punct ':' _, _ => before.any (·.isPunct ':')
    | .punct '!' _, .group .. => true
    | _, .punct '!' _ => a.endsOperand
    | .ident _, .group d _ => d != .brace
    | .group .., .group d _ => d != .brace
    | _, _ => false

/-- What has been written of an expression. -/
structure WordState where
  before : Option Token
  /-- How many angle brackets are open. -/
  depth : Nat
  /-- A type stands after `as`. -/
  inCast : Bool
  /-- The parameters of a closure have begun. -/
  inBars : Bool

namespace WordState

def start : WordState := ⟨none, 0, false, false⟩

/-- The token opens a list of generic arguments, or the type of a qualified path. -/
def opensAngle (s : WordState) (t : Token) : Bool :=
  t.isPunct '<' && !t.isJoint && (0 < s.depth || s.inCast || beginsOperand s.before)

def closesAngle (s : WordState) (t : Token) : Bool :=
  t.isPunct '>' && 0 < s.depth && !(s.before.any (·.isPunct '-'))

/-- A word that may stand before the parameters of a closure. -/
def leadsClosure : Token → Bool
  | .ident i => ["move", "static", "async", "const"].contains i.text
  | _ => false

def opensBars (s : WordState) (t : Token) : Bool :=
  t.isPunct '|' && !t.isJoint && !s.inBars &&
    (beginsOperand s.before || s.before.any leadsClosure)

def closesBars (s : WordState) (t : Token) : Bool := t.isPunct '|' && s.inBars

/-- The token may belong to a type after `as`. -/
def staysInCast : Token → Bool
  | .ident _ | .lifetime _ => true
  | .punct c _ => [':', '&', '*'].contains c
  | _ => false

/-- After the token. -/
def step (s : WordState) (t : Token) : WordState where
  before := some t
  depth :=
    if s.opensAngle t then s.depth + 1
    else if s.closesAngle t then s.depth - 1
    else s.depth
  inCast := (t matches .ident ⟨false, "as"⟩) || (s.inCast && staysInCast t)
  inBars := s.opensBars t || (s.inBars && !s.closesBars t)

/-- Nothing stands between `a` and `b`. -/
def touches (s : WordState) (a b : Token) : Bool :=
  let next := s.step a
  let called := s.closesAngle a && b matches .group .paren _
  let nested := (0 < s.depth || s.inCast) && a.endsOperand && next.opensAngle b
  if s.closesBars a then false
  else
    s.opensAngle a || next.closesAngle b || s.opensBars a || next.closesBars b || called ||
      nested || Token.touches s.before a b

end WordState

mutual

/-- The text of an expression's token. -/
def Token.exprWord : Token → String
  | .group d body =>
    d.openText ++ Token.wordsFrom .start body ++
      (if d = .brace && !body.isEmpty then " " else "") ++ d.closeText
  | t => t.text

def Token.wordsFrom (s : WordState) : List Token → String
  | [] => ""
  | [t] => t.exprWord
  | a :: b :: rest =>
    a.exprWord ++ (if s.touches a b then "" else " ") ++ Token.wordsFrom (s.step a) (b :: rest)

end

/-- The text of an expression, with blanks around its operators. -/
def Token.exprWords (ts : List Token) : String := Token.wordsFrom .start ts

/-- A constant: a literal or a name as it stands, a block that may be broken inside its braces. -/
def constantPieces : List Token → List Piece
  | [.group .brace body] =>
    if body.isEmpty then [.word "\x7b\x7d"]
    else
      Piece.group indentStep true <|
        [.word "\x7b", .gap .blank] ++ Piece.group 0 false [.word (Token.exprWords body)] ++
          [.gap { Gap.blank with offset := -indentStep }, .word "\x7d"]
  | ts => [.word (Token.exprWords ts)]

/-- What stood before in the arguments of an attribute. -/
inductive ArgumentState where
  | word
  | punct
  | comma
deriving DecidableEq

/-- Brackets around arguments; those in parentheses may be broken. -/
def wrapArguments (d : Delimiter) (inner : List Piece × ArgumentState) : List Piece :=
  let (pieces, last) := inner
  match d with
  | .paren =>
    let inside : List Piece :=
      if last = .comma then pieces.dropLast ++ [.gap .closing]
      else pieces ++ [.gap { Gap.thin with offset := -indentStep }]
    .word "(" :: Piece.group indentStep true (.gap .thin :: inside) ++ [.word ")"]
  | .bracket => .word "[" :: pieces ++ [.word "]"]
  | .brace => .word "\x7b" :: pieces ++ [.word "\x7d"]

/-- The arguments of an attribute, in which words are set apart and commas and `=` are followed by
a blank. -/
def Token.argumentPieces (state : ArgumentState) : List Token → List Piece × ArgumentState
  | [] => ([], state)
  | .punct c _ :: rest =>
    let lead : List Piece := if state = .word && c = '=' then [.word " "] else []
    if c = ',' && rest.isEmpty then (lead ++ [.gap { Gap.thin with comma := true }], .comma)
    else
      let tail : List Piece :=
        if c = '=' then [.word " "] else if c = ',' then [.gap .blank] else []
      let (pieces, last) := Token.argumentPieces .punct rest
      (lead ++ [.word c.toString] ++ tail ++ pieces, last)
  | .group d body :: rest =>
    let (pieces, last) := Token.argumentPieces .punct rest
    (wrapArguments d (Token.argumentPieces .punct body) ++ pieces, last)
  | t :: rest =>
    let lead : List Piece := if state = .word then [.gap .blank] else []
    let (pieces, last) := Token.argumentPieces .word rest
    (lead ++ [.word t.text] ++ pieces, last)

def NamePath.text (p : NamePath) : String :=
  (if p.leadingColon then "::" else "") ++ "::".intercalate (p.names.map Ident.text)

def MetaItem.pieces : MetaItem → List Piece
  | .path p => [.word p.text]
  | .list p d arguments => .word p.text :: wrapArguments d (Token.argumentPieces .punct arguments)
  | .value p _ v => [.word p.text, .word " = ", .word (Token.exprWords v)]

/-- The text of a documentation comment, if the attribute is one that fits on a line. -/
def Attribute.docLine? (a : Attribute) : Option String :=
  match a.content with
  | .value p _ [.literal text] =>
    if p.isWord "doc" && literalKind text = .text then
      (stringValue? text).filter fun doc =>
        !doc.toList.contains '\n' && doc.toList.head? != some '/'
    else none
  | _ => none

def Attribute.pieces (a : Attribute) : List Piece :=
  match a.docLine? with
  | some doc => [.word ("///" ++ (doc.dropEndWhile (· = ' ')).toString), .gap .lineEnd]
  | none => [.word "#["] ++ a.content.pieces ++ [.word "]", .gap .blank]

end RowFactory
