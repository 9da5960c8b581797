namespace RowFactory

/-- A place where a line may end. -/
structure Gap where
  /-- Blanks written if the line goes on. -/
  blanks : Nat
  /-- Added to the indentation if the line ends. -/
  offset : Int
  /-- A comma is written before the line ends. -/
  comma : Bool
  /-- The gap does not count at the end of a group. -/
  optional : Bool
  /-- The line always goes on. -/
  joined : Bool
deriving DecidableEq, Inhabited

/-- A group adds its offset to the indentation if it does not fit on the line. The gaps of a
consistent group then all end their lines, those of another only where it is necessary. -/
inductive Piece where
  | word (text : String)
  | gap (gap : Gap)
  | enter (offset : Int) (consistent : Bool)
  | leave
deriving DecidableEq, Inhabited

/-- Columns on a line. -/
def lineWidth : Int := 89

/-- Columns that count as free however deep the indentation is. -/
def leastWidth : Int := 60

/-- Wider than any line. -/
def endless : Nat := 65535

def indentStep : Int := 4

def Gap.thin : Gap := ⟨0, 0, false, false, false⟩

def Gap.blank : Gap := { Gap.thin with blanks := 1 }

/-- The line ends. -/
def Gap.lineEnd : Gap := { Gap.thin with blanks := endless }

def Gap.never : Gap := { Gap.thin with joined := true }

/-- After the last item of a list that stands one indentation deep. -/
def Gap.closing : Gap := { Gap.thin with comma := true, offset := -indentStep }

namespace Piece

/-- Pieces in a group. A group of nothing but a gap is dropped, and an optional gap at its end. -/
def group (offset : Int) (consistent : Bool) (pieces : List Piece) : List Piece :=
  match pieces with
  | [.gap _] => []
  | _ =>
    let kept := match pieces.getLast? with
      | some (.gap g) => if g.optional then pieces.dropLast else pieces
      | _ => pieces
    .enter offset consistent :: kept ++ [.leave]

/-- Items of a list in brackets, each after the first behind a comma and a blank; `closing` stands
after the last. -/
def commaItems (closing : Gap) : List (List Piece) → List Piece
  | [] => []
  | [item] => item ++ [.gap closing]
  | item :: rest => item ++ [.word ",", .gap .blank] ++ commaItems closing rest

/-- How far the pieces reach up to the next gap that belongs to no group begun among them; `open`
of the groups begun are not ended. -/
def reach (opened : Nat) : List Piece → Nat
  | [] => 0
  | .word text :: rest => text.utf8ByteSize + reach opened rest
  | .gap g :: rest => if opened = 0 then 0 else g.blanks + reach opened rest
  | .enter _ _ :: rest => reach (opened + 1) rest
  | .leave :: rest => reach (opened - 1) rest

end Piece

/-- A group that has been begun. -/
inductive Frame where
  | fits
  /-- The indentation outside is restored at the end. -/
  | broken (outside : Int) (consistent : Bool)
deriving DecidableEq

/-- A page that is being written. `pending` blanks are owed before the next word. -/
structure Page where
  text : String
  pending : Nat
  indentation : Int
  space : Int
  frames : List Frame
deriving Inhabited

namespace Page

def empty : Page := ⟨"", 0, 0, lineWidth, []⟩

def addText (p : Page) (s : String) : Page :=
  { p with text := p.text ++ String.ofList (List.replicate p.pending ' ') ++ s, pending := 0 }

def word (p : Page) (s : String) : Page :=
  { p.addText s with space := p.space - s.utf8ByteSize }

/-- Whether the line goes on at a gap that reaches `width` columns. -/
def goesOn (p : Page) (g : Gap) (width : Nat) : Bool :=
  g.joined ||
    match p.frames.head? with
    | some .fits => true
    | some (.broken _ true) => false
    | some (.broken _ false) | none => width ≤ p.space

def gap (p : Page) (g : Gap) (width : Nat) : Page :=
  if p.goesOn g width then
    { p with pending := p.pending + g.blanks, space := p.space - g.blanks }
  else
    let p := if g.comma then p.addText "," else p
    let column := p.indentation + g.offset
    { p with
      text := p.text ++ "\n"
      pending := column.toNat
      space := max (lineWidth - column) leastWidth }

def enter (p : Page) (offset : Int) (consistent : Bool) (width : Nat) : Page :=
  if width ≤ p.space then { p with frames := .fits :: p.frames }
  else
    { p with
      frames := .broken p.indentation consistent :: p.frames
      indentation := p.indentation + offset }

def leave (p : Page) : Page :=
  match p.frames with
  | .broken outside _ :: rest => { p with frames := rest, indentation := outside }
  | .fits :: rest => { p with frames := rest }
  | [] => p

/-- Writes the pieces one after another. -/
def write (p : Page) : List Piece → Page
  | [] => p
  | .word s :: rest => (p.word s).write rest
  | .gap g :: rest => (p.gap g (g.blanks + Piece.reach 0 rest)).write rest
  | .enter offset consistent :: rest =>
    (p.enter offset consistent (Piece.reach 1 rest)).write rest
  | .leave :: rest => p.leave.write rest

end Page

/-- The pieces as lines of text. -/
def layOut (pieces : List Piece) : String := (Page.empty.write pieces).text

end RowFactory
