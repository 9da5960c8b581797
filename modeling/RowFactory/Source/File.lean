import RowFactory.Source.StatementGrammar

namespace RowFactory

open RowFactory.Parser

/-- The first line of a text that begins with `#!` and is no inner attribute names an interpreter;
it is dropped, and so is a byte order mark before it. -/
def dropInterpreter (cs : List Char) : List Char :=
  let cs := if cs.head? = some '\ufeff' then cs.tail else cs
  if startsWith "#!" cs && !startsAttribute (cs.length) (cs.drop 2) then
    cs.dropWhile (· != '\n')
  else cs
where
  /-- The next character that is neither blank nor in a comment opens a bracket. -/
  startsAttribute : Nat → List Char → Bool
    | 0, _ => false
    | fuel + 1, cs =>
      match skipBlank? cs with
      | some rest => startsAttribute fuel rest
      | none => cs.head? = some '['

/-- The items of a file with the given tokens. -/
def itemsOfTokens? (ts : List Token) : Option (List Item) :=
  let g := Grammar.forTokens ts
  all (do let _ ← g.innerAttributes; g.items) ts

/-- The items of a source file. -/
def itemsOfText? (source : String) : Option (List Item) :=
  (tokens? (dropInterpreter source.toList)).bind itemsOfTokens?

/-- A form given as text, read to the end. -/
def ofText? {α : Type} (form : Grammar → Parser α) (source : String) : Option α := do
  let ts ← tokens? source.toList
  all (form (Grammar.forTokens ts)) ts

/-- A path that may have arguments in angle brackets. -/
def Path.ofText? (source : String) : Option Path :=
  RowFactory.ofText? (fun g => g.path false) source

/-- An identifier that is no reserved word. -/
def Ident.ofText? (source : String) : Option Ident :=
  RowFactory.ofText? (fun _ => ident) source

end RowFactory
