import RowFactory.Source.Keyword

namespace RowFactory

/-- Where reading stands. -/
structure Cursor where
  ahead : List Token
  /-- What has been written for the tokens read, last token first. -/
  written : List Token
  /-- Forms that are written in another order than read, or left out; last token first. -/
  altered : List Token
  /-- A group was left before its end. -/
  unread : Bool
deriving Inhabited

/-- At the front of the tokens. -/
def Cursor.start (ts : List Token) : Cursor := ⟨ts, [], [], false⟩

/-- Nothing is left over. -/
def Cursor.isDone (c : Cursor) : Bool := c.ahead.isEmpty && !c.unread

/-- Takes tokens from the front of a list and writes, or fails. -/
structure Parser (α : Type) where
  run : Cursor → Option (α × Cursor)
  takesFront : ∀ {c a c'}, run c = some (a, c') → c'.ahead <:+ c.ahead

/-- The operator stands in front: its characters in a row, each joint up to the last. -/
def startsOperator : List Char → List Token → Bool
  | [], _ => true
  | [c], .punct d _ :: _ => c = d
  | c :: cs, .punct d true :: ts => c = d && startsOperator cs ts
  | _, _ => false

def isOperator (op : String) (ts : List Token) : Bool := startsOperator op.toList ts

/-- The word stands in front, not raw. -/
def isWord (w : String) : List Token → Bool
  | .ident i :: _ => i = .plain w
  | _ => false

/-- An identifier that is no reserved word stands in front. -/
def isIdent : List Token → Bool
  | .ident i :: _ => !i.isKeyword
  | _ => false

def isAnyIdent : List Token → Bool
  | .ident _ :: _ => true
  | _ => false

def isLifetime : List Token → Bool
  | .lifetime _ :: _ => true
  | _ => false

def isGroup (d : Delimiter) : List Token → Bool
  | .group d' _ :: _ => d = d'
  | _ => false

/-- A literal stands in front: a literal token, `true` or `false`, or a number with its minus. -/
def isLiteral : List Token → Bool
  | .literal _ :: _ => true
  | .ident i :: _ => i = .plain "true" || i = .plain "false"
  | .punct '-' _ :: .literal text :: _ => (text.toList.head?.any fun c => '0' ≤ c && c ≤ '9')
  | _ => false

namespace Parser

variable {α β : Type}

protected def pure (a : α) : Parser α where
  run c := some (a, c)
  takesFront h := by
    cases h
    exact List.suffix_refl _

protected def bind (p : Parser α) (f : α → Parser β) : Parser β where
  run c := (p.run c).bind fun (a, c') => (f a).run c'
  takesFront h := by
    obtain ⟨⟨a, c'⟩, hp, hf⟩ := Option.bind_eq_some_iff.mp h
    exact ((f a).takesFront hf).trans (p.takesFront hp)

instance : Monad Parser where
  pure := Parser.pure
  bind := Parser.bind

/-- Reads what `q` reads where `p` fails. -/
protected def orElse (p : Parser α) (q : Unit → Parser α) : Parser α where
  run c := (p.run c).or ((q ()).run c)
  takesFront h := by
    rcases Option.or_eq_some_iff.mp h with h | ⟨-, h⟩
    · exact p.takesFront h
    · exact (q ()).takesFront h

instance : Alternative Parser where
  failure := ⟨fun _ => none, fun h => by cases h⟩
  orElse := Parser.orElse

/-- Where reading stands. -/
def cursor : Parser Cursor where
  run c := some (c, c)
  takesFront h := by
    cases h
    exact List.suffix_refl _

/-- Changes what has been written, and nothing else. -/
def rewrite (f : Cursor → Cursor) : Parser Unit where
  run c := some ((), { f c with ahead := c.ahead })
  takesFront h := by
    cases h
    exact List.suffix_refl _

def ofOption (a : Option α) : Parser α where
  run c := a.map (·, c)
  takesFront h := by
    obtain ⟨x, -, heq⟩ := Option.map_eq_some_iff.mp h
    cases heq
    exact List.suffix_refl _

/-- Runs `p`, and takes nothing if it fails. -/
def attempt (p : Parser α) : Parser (Option α) where
  run c :=
    match p.run c with
    | some (a, c') => some (some a, c')
    | none => some (none, c)
  takesFront {c a c'} h := by
    split at h
    next a' c'' hp =>
      cases h
      exact p.takesFront hp
    next =>
      cases h
      exact List.suffix_refl _

/-- What `p` would read here, if it does not fail; nothing is taken. -/
def peek (p : Parser α) : Parser (Option α) where
  run c := some ((p.run c).map (·.1), c)
  takesFront h := by
    cases h
    exact List.suffix_refl _

def ahead : Parser (List Token) := return (← cursor).ahead

/-- What a test says of the tokens in front. -/
def sees (test : List Token → Bool) : Parser Bool := return test (← ahead)

def require (test : List Token → Bool) : Parser Unit := do
  guard (test (← ahead))

def atEnd : Parser Bool := sees List.isEmpty

/-- Drops tokens from the front. -/
def skip (n : Nat) : Parser Unit where
  run c := some ((), { c with ahead := c.ahead.drop n })
  takesFront h := by
    cases h
    exact List.drop_suffix n _

def write (ts : List Token) : Parser Unit :=
  rewrite fun c => { c with written := ts.reverse ++ c.written }

/-- Takes the first token and writes nothing. -/
def next : Parser Token := do
  match ← ahead with
  | [] => failure
  | t :: _ => skip 1; return t

/-- Takes tokens and writes them as they stand. -/
def copy (n : Nat) : Parser Unit := do
  let ts ← ahead
  skip n
  write (ts.take n)

def operator (op : String) : Parser Unit := do
  require (isOperator op)
  skip op.length
  write (Token.operator op)

def word (w : String) : Parser Unit := do
  require (isWord w)
  copy 1

/-- Takes the operator if it is there, and says whether it was. -/
def operator? (op : String) : Parser Bool := do
  if ← sees (isOperator op) then operator op; return true
  else return false

def word? (w : String) : Parser Bool := do
  if ← sees (isWord w) then word w; return true
  else return false

/-- Runs `p` where the test holds. -/
def ifSees (test : List Token → Bool) (p : Parser α) : Parser (Option α) := do
  if ← sees test then some <$> p else return none

def anyIdent : Parser Ident := do
  match ← next with
  | .ident i => write [.ident i]; return i
  | _ => failure

/-- An identifier that is no reserved word. -/
def ident : Parser Ident := do
  let i ← anyIdent
  guard !i.isKeyword
  return i

def lifetime : Parser Ident := do
  match ← next with
  | .lifetime i => write [.lifetime i]; return i
  | _ => failure

/-- A literal token. -/
def literal : Parser String := do
  match ← next with
  | .literal text => write [.literal text]; return text
  | _ => failure

/-- What `p` makes of all of `ts`: nothing may be left over. -/
def all (p : Parser α) (ts : List Token) : Option α := do
  let (a, c) ← p.run (.start ts)
  guard c.isDone
  return a

/-- A group with the given delimiter. What `p` leaves of it counts as unread. -/
def group (d : Delimiter) (p : Parser α) : Parser α where
  run c :=
    match c.ahead with
    | .group d' body :: rest =>
      if d = d' then
        (p.run (.start body)).map fun (a, inner) =>
          (a, { c with
            ahead := rest
            written := .group d inner.written.reverse :: c.written
            altered := inner.altered ++ c.altered
            unread := c.unread || !inner.isDone })
      else none
    | _ => none
  takesFront {c a c'} h := by
    split at h
    next d' body rest hahead =>
      split at h
      case isTrue =>
        obtain ⟨x, -, heq⟩ := Option.map_eq_some_iff.mp h
        cases heq
        exact hahead ▸ List.suffix_cons _ rest
      case isFalse => cases h
    next => cases h

/-- A group as it stands. -/
def anyGroup : Parser (Delimiter × List Token) := do
  match ← next with
  | .group d body => write [.group d body]; return (d, body)
  | _ => failure

/-- Runs `p`, and gives what it writes as well. -/
def withWritten (p : Parser α) : Parser (α × List Token) := do
  let before ← cursor
  rewrite fun c => { c with written := [] }
  let a ← p
  let after ← cursor
  rewrite fun c => { c with written := c.written ++ before.written }
  return (a, after.written.reverse)

/-- Runs `p`, but writes what `form` makes of the answer. -/
def writtenAs (form : α → List Token) (p : Parser α) : Parser α := do
  let before ← cursor
  rewrite fun c => { c with written := [] }
  let a ← p
  let ts := form a
  rewrite fun c =>
    let same := Token.flatten ts == Token.flatten c.written.reverse
    { c with
      written := ts.reverse ++ before.written
      altered := if same then c.altered else c.written ++ c.altered }
  return a

/-- Runs `p` and writes nothing. -/
def unwritten (p : Parser α) : Parser α := do
  let before ← cursor
  let a ← p
  rewrite fun c => { c with written := before.written }
  return a

/-- Runs `p`, and gives the forms as well that it does not write as they are read. -/
def withAltered (p : Parser α) : Parser (α × List Token) := do
  let before ← cursor
  rewrite fun c => { c with altered := [] }
  let a ← p
  let after ← cursor
  rewrite fun c => { c with altered := c.altered ++ before.altered }
  return (a, after.altered.reverse)

/-- The tokens taken since `before` are written as they stand, in place of what was written. -/
def restoreSince (before : Cursor) : Parser (List Token) := do
  let ts := before.ahead.take (before.ahead.length - (← ahead).length)
  rewrite fun c => { c with written := ts.reverse ++ before.written }
  return ts

/-- Runs `p`, but writes the tokens that it takes as they stand. -/
def verbatim (p : Parser α) : Parser (List Token) := do
  let before ← cursor
  let _ ← p
  restoreSince before

/-- Runs `p` as long as `more` holds, at most `fuel` times. -/
def whileSeesFrom (more : List Token → Bool) (p : Parser α) : Nat → Parser (List α)
  | 0 => return []
  | fuel + 1 => do
    if ← sees more then
      let a ← p
      return a :: (← whileSeesFrom more p fuel)
    else return []

/-- Runs `p` as long as `more` holds. -/
def whileSees (more : List Token → Bool) (p : Parser α) : Parser (List α) := do
  whileSeesFrom more p (← ahead).length

/-- Runs `p` to the end of the tokens. -/
def toEnd (p : Parser α) : Parser (List α) := whileSees (!·.isEmpty) p

/-- Items with separators between them up to where `stop` holds, at most `fuel` of them; the flag
says that a separator stands last. -/
def closedListFrom (stop : List Token → Bool) (separator : String) (item : Parser α) :
    Nat → Parser (List α × Bool)
  | 0 => failure
  | fuel + 1 => do
    if ← sees stop then return ([], true)
    let a ← item
    if ← sees stop then return ([a], false)
    operator separator
    let (rest, trailing) ← closedListFrom stop separator item fuel
    return (a :: rest, trailing)

/-- Items with separators between them up to where `stop` holds. -/
def closedList (stop : List Token → Bool) (separator : String) (item : Parser α) :
    Parser (List α × Bool) := do
  let (items, trailing) ← closedListFrom stop separator item ((← ahead).length + 1)
  return (items, trailing && !items.isEmpty)

/-- Items with commas between them, to the end of the tokens. -/
def commaList (item : Parser α) : Parser (List α × Bool) :=
  closedList List.isEmpty "," item

/-- Items with separators between them; the list ends where `stop` holds or a separator is
missing. -/
def openListFrom (stop : List Token → Bool) (separator : String) (item : Parser α) :
    Nat → Parser (List α × Bool)
  | 0 => failure
  | fuel + 1 => do
    if ← sees stop then return ([], true)
    let a ← item
    if ← operator? separator then
      let (rest, trailing) ← openListFrom stop separator item fuel
      return (a :: rest, trailing)
    else return ([a], false)

def openList (stop : List Token → Bool) (separator : String) (item : Parser α) :
    Parser (List α × Bool) := do
  let (items, trailing) ← openListFrom stop separator item ((← ahead).length + 1)
  return (items, trailing && !items.isEmpty)

end Parser

end RowFactory
