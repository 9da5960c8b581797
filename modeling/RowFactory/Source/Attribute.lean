import RowFactory.Source.Keyword
import RowFactory.Source.ExprKind

namespace RowFactory

/-- A path of names without arguments. -/
structure NamePath where
  leadingColon : Bool
  names : List Ident
deriving DecidableEq, Inhabited

/-- The content of an attribute, also the form of its nested items. -/
inductive MetaItem where
  | path (path : NamePath)
  | list (path : NamePath) (delimiter : Delimiter) (arguments : List Token)
  | value (path : NamePath) (kind : ExprKind) (value : List Token)
deriving Inhabited

def MetaItem.name : MetaItem → NamePath
  | .path p => p
  | .list p _ _ => p
  | .value p _ _ => p

/-- An inner attribute is written `#![..]` and belongs to what encloses it. -/
structure Attribute where
  inner : Bool
  content : MetaItem
deriving Inhabited

/-- The path is the given word alone, not raw. -/
def NamePath.isWord (p : NamePath) (word : String) : Bool :=
  !p.leadingColon && p.names = [.plain word]

def Attribute.isNamed (a : Attribute) (word : String) : Bool := a.content.name.isWord word

/-- Names with `::` between them. -/
def joinNames : List Ident → List Token
  | [] => []
  | [i] => [.ident i]
  | i :: is => .ident i :: Token.operator "::" ++ joinNames is

def NamePath.tokens (p : NamePath) : List Token :=
  (if p.leadingColon then Token.operator "::" else []) ++ joinNames p.names

def MetaItem.tokens : MetaItem → List Token
  | .path p => p.tokens
  | .list p d arguments => p.tokens ++ [.group d arguments]
  | .value p _ v => p.tokens ++ [.punct '=' false] ++ v

def Attribute.tokens (a : Attribute) : List Token :=
  [.punct '#' false] ++ (if a.inner then [.punct '!' false] else []) ++
    [.group .bracket a.content.tokens]

end RowFactory
