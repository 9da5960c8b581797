namespace RowFactory

/-- An identifier; a raw one is spelled with `r#` before its name. -/
structure Ident where
  raw : Bool
  name : String
deriving DecidableEq, Inhabited

def Ident.plain (name : String) : Ident := ⟨false, name⟩

def Ident.text (i : Ident) : String := if i.raw then "r#" ++ i.name else i.name

inductive Delimiter where
  | paren
  | bracket
  | brace
deriving DecidableEq, Inhabited

/-- A token of the flat sequence. A punctuation character is joint if the next character of the
source is one as well. -/
inductive Lexeme where
  | ident (i : Ident)
  | lifetime (i : Ident)
  | punct (c : Char) (joint : Bool)
  | literal (text : String)
  | opening (d : Delimiter)
  | closing (d : Delimiter)
deriving DecidableEq, Inhabited

/-- A token tree: delimiters come in pairs and hold what stands between them. -/
inductive Token where
  | ident (i : Ident)
  | lifetime (i : Ident)
  | punct (c : Char) (joint : Bool)
  | literal (text : String)
  | group (d : Delimiter) (body : List Token)
deriving Inhabited

mutual

/-- The flat sequence of a tree. -/
def Token.lexemes : Token → List Lexeme
  | .ident i => [.ident i]
  | .lifetime i => [.lifetime i]
  | .punct c joint => [.punct c joint]
  | .literal text => [.literal text]
  | .group d body => .opening d :: Token.flatten body ++ [.closing d]

def Token.flatten : List Token → List Lexeme
  | [] => []
  | t :: ts => t.lexemes ++ Token.flatten ts

end

/-- Pairs the delimiters of a flat sequence. `pending` holds the groups not yet closed, innermost
first, each with the tokens before it in reverse; `done` is the reverse of the current level. -/
def Token.pair (pending : List (Delimiter × List Token)) (done : List Token) :
    List Lexeme → Option (List Token)
  | [] => if pending.isEmpty then some done.reverse else none
  | .ident i :: rest => Token.pair pending (.ident i :: done) rest
  | .lifetime i :: rest => Token.pair pending (.lifetime i :: done) rest
  | .punct c joint :: rest => Token.pair pending (.punct c joint :: done) rest
  | .literal text :: rest => Token.pair pending (.literal text :: done) rest
  | .opening d :: rest => Token.pair ((d, done) :: pending) [] rest
  | .closing d :: rest =>
    match pending with
    | [] => none
    | (d', before) :: outer =>
      if d = d' then Token.pair outer (.group d done.reverse :: before) rest else none

/-- The trees of a flat sequence, if its delimiters match. -/
def Token.ofLexemes? (ls : List Lexeme) : Option (List Token) := Token.pair [] [] ls

mutual

/-- The number of tokens in a tree, a group counting itself once. -/
def Token.size : Token → Nat
  | .group _ body => 1 + Token.sizeAll body
  | _ => 1

def Token.sizeAll : List Token → Nat
  | [] => 0
  | t :: ts => t.size + Token.sizeAll ts

end

def Delimiter.openText : Delimiter → String
  | .paren => "("
  | .bracket => "["
  | .brace => "\x7b "

def Delimiter.closeText : Delimiter → String
  | .paren => ")"
  | .bracket => "]"
  | .brace => "\x7d"

mutual

/-- The text of a tree. A brace has a blank after it, and one before it unless the group is
empty. -/
def Token.text : Token → String
  | .ident i => i.text
  | .lifetime i => "'" ++ i.text
  | .punct c _ => c.toString
  | .literal text => text
  | .group d body =>
    d.openText ++ Token.line body ++ (if d = .brace && !body.isEmpty then " " else "") ++
      d.closeText

/-- Trees on one line, a blank after each but a joint punctuation character. -/
def Token.line : List Token → String
  | [] => ""
  | [t] => t.text
  | .punct c true :: t :: ts => c.toString ++ Token.line (t :: ts)
  | s :: t :: ts => s.text ++ " " ++ Token.line (t :: ts)

end

/-- The word as an identifier token. -/
def Token.word (w : String) : Token := .ident (.plain w)

/-- An operator of several characters, joined up to the last. -/
def Token.operatorOf : List Char → List Token
  | [] => []
  | [c] => [.punct c false]
  | c :: cs => .punct c true :: Token.operatorOf cs

def Token.operator (op : String) : List Token := Token.operatorOf op.toList

end RowFactory
