import RowFactory.Source.Token
import RowFactory.Text.Blank
import RowFactory.Text.IdentifierChars
import RowFactory.Text.Quoted

namespace RowFactory

/-- Blanks between tokens; the two direction marks count as well. -/
def isTokenBlank (c : Char) : Bool :=
  isBlank c || c = '\u200e' || c = '\u200f'

/-- What follows `word` at the head of `cs`. -/
def dropWord? (word : String) (cs : List Char) : Option (List Char) :=
  word.toList.isPrefixOf? cs

def startsWith (word : String) (cs : List Char) : Bool :=
  word.toList.isPrefixOf cs

/-- The rest of the line, without its break, and what follows. A carriage return belongs to the
break only before a line feed. -/
def takeLine : List Char → List Char × List Char
  | [] => ([], [])
  | c :: cs =>
    if c = '\n' then ([], c :: cs)
    else if c = '\r' && cs.head? = some '\n' then ([], cs)
    else let (line, rest) := takeLine cs; (c :: line, rest)

/-- The text of a block comment after its first `/*`, up to the `*/` that closes it, and what
follows. Comments nest; `depth` counts the ones open inside. -/
def takeBlock (depth : Nat) : List Char → Option (List Char × List Char)
  | '/' :: '*' :: cs =>
    (takeBlock (depth + 1) cs).map fun (text, rest) => ('/' :: '*' :: text, rest)
  | '*' :: '/' :: cs =>
    match depth with
    | 0 => some ([], cs)
    | depth + 1 => (takeBlock depth cs).map fun (text, rest) => ('*' :: '/' :: text, rest)
  | c :: cs => (takeBlock depth cs).map fun (text, rest) => (c :: text, rest)
  | [] => none

/-- A line comment that documents nothing: `//`, but neither `//!` nor `///` alone. -/
def isPlainLineComment (cs : List Char) : Bool :=
  startsWith "//" cs && !startsWith "//!" cs && (!startsWith "///" cs || startsWith "////" cs)

/-- A block comment that documents nothing: `/*`, but neither `/*!` nor `/**` alone. -/
def isPlainBlockComment (cs : List Char) : Bool :=
  startsWith "/**/" cs ||
    (startsWith "/*" cs && !startsWith "/*!" cs && (!startsWith "/**" cs || startsWith "/***" cs))

/-- What follows one blank or one plain comment. -/
def skipBlank? (cs : List Char) : Option (List Char) :=
  if isPlainLineComment cs then some (takeLine cs).2
  else if isPlainBlockComment cs then (takeBlock 0 (cs.drop 2)).map (·.2)
  else match cs with
    | c :: rest => if isTokenBlank c then some rest else none
    | [] => none

/-- Every carriage return has its line feed. -/
def carriagesPaired : List Char → Bool
  | [] => true
  | c :: cs => (c != '\r' || cs.head? = some '\n') && carriagesPaired cs

/-- The attribute that a documentation comment stands for. -/
def docLexemes (inner : Bool) (text : List Char) : List Lexeme :=
  [Lexeme.punct '#' false] ++ (if inner then [.punct '!' false] else []) ++
    [Lexeme.opening .bracket, .ident (.plain "doc"), .punct '=' false,
      .literal (String.ofList (quoteLiteral text)), .closing .bracket]

/-- A documentation comment: `//!` and `/*!` for the enclosing item, `///` and `/**` for the next
one. -/
def readDoc? (cs : List Char) : Option (List Lexeme × List Char) := do
  let (inner, text, rest) ←
    if startsWith "//!" cs then
      let (text, rest) := takeLine (cs.drop 3)
      some (true, text, rest)
    else if startsWith "/*!" cs then do
      let (text, rest) ← takeBlock 0 (cs.drop 2)
      some (true, text.drop 1, rest)
    else if startsWith "///" cs && !startsWith "////" cs then
      let (text, rest) := takeLine (cs.drop 3)
      some (false, text, rest)
    else if startsWith "/**" cs && !startsWith "/***" cs then do
      let (text, rest) ← takeBlock 0 (cs.drop 2)
      some (false, text.drop 1, rest)
    else none
  guard (carriagesPaired text)
  return (docLexemes inner text, rest)

/-- A name without `r#`, and what follows it. -/
def readName? : List Char → Option (List Char × List Char)
  | [] => none
  | c :: cs =>
    if isIdentifierStart c then
      some (c :: cs.takeWhile isIdentifierContinue, cs.dropWhile isIdentifierContinue)
    else none

/-- Names that have no raw form. -/
def neverRaw (name : String) : Bool :=
  name ∈ ["_", "super", "self", "Self", "crate"]

/-- An identifier, raw or not, and what follows it. -/
def readIdent? (cs : List Char) : Option (Ident × List Char) :=
  match dropWord? "r#" cs with
  | some cs => do
    let (name, rest) ← readName? cs
    let name := String.ofList name
    if neverRaw name then none else some (⟨true, name⟩, rest)
  | none => (readName? cs).map fun (name, rest) => (⟨false, String.ofList name⟩, rest)

/-- What follows the suffix of a literal, if it has one. -/
def dropSuffix (cs : List Char) : List Char :=
  match readName? cs with
  | some (_, rest) => rest
  | none => cs

/-- The number of `#` before the quote of a raw literal, at most 255, and what follows that
quote. -/
def readHashes? (cs : List Char) : Option (Nat × List Char) :=
  let hashes := (cs.takeWhile (· = '#')).length
  match cs.drop hashes with
  | '\x22' :: rest => if hashes ≤ 255 then some (hashes, rest) else none
  | _ => none

/-- The end of a literal in double quotes: `plain` opens the escaped form, `raw` the raw one. -/
def quotedEnd? (rules : QuoteRules) (plain raw : String) (cs : List Char) : Option (List Char) :=
  match dropWord? plain cs with
  | some cs => (rules.readQuoted .plain cs).map (·.2)
  | none => do
    let (hashes, cs) ← (dropWord? raw cs).bind readHashes?
    (rules.readRaw hashes cs).map (·.2)

/-- The end of a literal in single quotes. -/
def characterEnd? (rules : QuoteRules) (opening : String) (cs : List Char) :
    Option (List Char) := do
  let cs ← dropWord? opening cs
  let (_, cs) ← rules.readOne .plain cs
  dropWord? "'" cs

/-- A number may not run into an identifier; a suffix belongs to it. -/
def numberEnd? (cs : List Char) : Option (List Char) :=
  let rest := dropSuffix cs
  match rest with
  | c :: _ => if isIdentifierContinue c then none else some rest
  | [] => some rest

/-- Digits and underscores, and what follows them. -/
def dropDigits (cs : List Char) : List Char :=
  cs.dropWhile fun c => isAsciiDigit c || c = '_'

/-- The end of an exponent after its `e`: an optional sign, then at least one digit among
underscores; underscores may stand before the sign. -/
def exponentEnd? (cs : List Char) : Option (List Char) :=
  let unders := cs.dropWhile (· = '_')
  let digits := match unders with
    | '+' :: rest => rest
    | '-' :: rest => rest
    | _ => unders
  if (digits.takeWhile fun c => isAsciiDigit c || c = '_').any isAsciiDigit then
    some (dropDigits digits)
  else none

/-- The end of the digits of a decimal fraction: a point that neither another point nor a name
follows, an exponent, or both. Where a point is read, an `e` that begins no exponent is left
over. -/
def fractionEnd? (cs : List Char) : Option (List Char) := do
  let c ← cs.head?
  guard (isAsciiDigit c)
  match dropDigits cs with
  | '.' :: rest =>
    match rest with
    | d :: _ => guard (d != '.' && !isIdentifierStart d)
    | [] => pure ()
    let rest := dropDigits rest
    match rest with
    | e :: exponent =>
      if e = 'e' || e = 'E' then some ((exponentEnd? exponent).getD rest) else some rest
    | [] => some rest
  | e :: exponent => if e = 'e' || e = 'E' then exponentEnd? exponent else none
  | [] => none

/-- The base of an integer, and its digits. -/
def integerBase (cs : List Char) : Nat × List Char :=
  match cs with
  | '0' :: 'x' :: rest => (16, rest)
  | '0' :: 'o' :: rest => (8, rest)
  | '0' :: 'b' :: rest => (2, rest)
  | _ => (10, cs)

/-- The end of the digits of an integer. A decimal digit that the base does not have is an error;
a letter that is no digit of the base ends them. `empty` says that no digit has been read. -/
def digitsEnd? (base : Nat) (empty : Bool) : List Char → Option (List Char)
  | [] => if empty then none else some []
  | c :: cs =>
    if c = '_' then
      if empty && base = 10 then none else digitsEnd? base empty cs
    else match hexValue? c with
      | some d =>
        if d < base then digitsEnd? base false cs
        else if isAsciiDigit c || empty then none
        else some (c :: cs)
      | none => if empty then none else some (c :: cs)

/-- The end of the literal at the head of `cs`. -/
def literalEnd? (cs : List Char) : Option (List Char) :=
  ((quotedEnd? .text "\x22" "r" cs).map dropSuffix) <|>
  ((quotedEnd? .bytes "b\x22" "br" cs).map dropSuffix) <|>
  ((quotedEnd? .cText "c\x22" "cr" cs).map dropSuffix) <|>
  ((characterEnd? .bytes "b'" cs).map dropSuffix) <|>
  ((characterEnd? .text "'" cs).map dropSuffix) <|>
  ((fractionEnd? cs).bind numberEnd?) <|>
  (((fun (base, digits) => digitsEnd? base true digits) (integerBase cs)).bind numberEnd?)

/-- The characters of operators; a slash that begins a comment is none. -/
def readPunct? (cs : List Char) : Option (Char × List Char) :=
  match cs with
  | c :: rest =>
    if startsWith "//" cs || startsWith "/*" cs then none
    else if c ∈ "~!@#$%^&*-=+|;:,<.>/?'".toList then some (c, rest)
    else none
  | [] => none

/-- A lifetime is a quote and an identifier that no quote follows. -/
def readLifetime? (cs : List Char) : Option (Lexeme × List Char) := do
  let (name, rest) ← readIdent? cs
  if startsWith "'" rest || (startsWith "#" rest && !startsWith "r#" cs) then none
  else some (.lifetime name, rest)

def readPunctuation? (cs : List Char) : Option (Lexeme × List Char) := do
  let (c, rest) ← readPunct? cs
  if c = '\x27' then readLifetime? rest
  else some (.punct c (readPunct? rest).isSome, rest)

/-- Openings of quoted literals; what starts like one and is none is no identifier either. -/
def startsLikeLiteral (cs : List Char) : Bool :=
  ["r\x22", "r#\x22", "r##", "b\x22", "b'", "br\x22", "br#", "c\x22", "cr\x22", "cr#"].any
    (startsWith · cs)

/-- A literal, a punctuation character or an identifier. -/
def readLeaf? (cs : List Char) : Option (Lexeme × List Char) :=
  match literalEnd? cs with
  | some rest => some (.literal (String.ofList (cs.take (cs.length - rest.length))), rest)
  | none =>
    readPunctuation? cs <|>
      if startsLikeLiteral cs then none
      else (readIdent? cs).map fun (name, rest) => (.ident name, rest)

def delimiterOf? (c : Char) : Option Lexeme :=
  match c with
  | '(' => some (.opening .paren)
  | '[' => some (.opening .bracket)
  | '\x7b' => some (.opening .brace)
  | ')' => some (.closing .paren)
  | ']' => some (.closing .bracket)
  | '\x7d' => some (.closing .brace)
  | _ => none

/-- Stands for a literal that could not be formed. -/
def failedLiteral : String := "(/*ERROR*/)"

/-- The tokens at the head of nonempty text, none for a blank or a plain comment. -/
def readLexemes? (cs : List Char) : Option (List Lexeme × List Char) :=
  match skipBlank? cs with
  | some rest => some ([], rest)
  | none =>
    match readDoc? cs with
    | some doc => some doc
    | none =>
      match dropWord? failedLiteral cs with
      | some rest => some ([.literal failedLiteral], rest)
      | none =>
        match cs.head?.bind delimiterOf? with
        | some delimiter => some ([delimiter], cs.tail)
        | none => (readLeaf? cs).map fun (l, rest) => ([l], rest)

/-- Reads to the end of the text in at most `fuel` steps. -/
def lexFrom : Nat → List Char → Option (List Lexeme)
  | _, [] => some []
  | 0, _ => none
  | fuel + 1, cs => do
    let (head, rest) ← readLexemes? cs
    let tail ← lexFrom fuel rest
    return head ++ tail

/-- The flat token sequence of a text. Every step takes at least one character, so the text's
length bounds their number. -/
def lex? (cs : List Char) : Option (List Lexeme) := lexFrom cs.length cs

/-- A byte order mark in front is dropped. -/
def dropMark (cs : List Char) : List Char :=
  if cs.head? = some '\ufeff' then cs.tail else cs

/-- The token trees of a text. -/
def tokens? (cs : List Char) : Option (List Token) :=
  (lex? (dropMark cs)).bind Token.ofLexemes?

end RowFactory
