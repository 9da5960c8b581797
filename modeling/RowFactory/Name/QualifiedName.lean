import RowFactory.Name.ModulePath
import RowFactory.Source.Keyword
import RowFactory.Source.Ty
import RowFactory.Text.IdentifierChars

namespace RowFactory

structure QualifiedName where
  module : ModulePath
  ident : Ident
deriving DecidableEq, Inhabited

/-- Why a name is no path. -/
inductive NameError where
  /-- A module name that is no identifier, not even a raw one. -/
  | unnameable (segment : String)
  /-- The type's own identifier is a reserved word. -/
  | reserved (name : Ident)
deriving DecidableEq

/-- What every generated file's name ends in. -/
def artifactSuffix : String := ".rowmap.rs"

/-- A module's name as an identifier: raw where it is a reserved word, unless it names a place in
the module tree by itself. -/
def segmentIdent? (name : String) : Option Ident :=
  if pathKeywords.contains name then some (.plain name)
  else if !isIdentifier name.toList || name = "_" then none
  else some ⟨keywords.contains name, name⟩

/-- An identifier that may end a path as it is. -/
def Ident.endsPath (i : Ident) : Bool :=
  !i.isKeyword || pathKeywords.contains i.name || i.name = "try"

namespace QualifiedName

def simpleName (n : QualifiedName) : String := n.ident.name

def text (n : QualifiedName) : String :=
  if n.module.isEmpty then n.simpleName else n.module.text ++ "::" ++ n.simpleName

/-- The name of the file generated for the type. The modules below the root are part of it. -/
def hintName (n : QualifiedName) : String :=
  ".".intercalate (n.module.segments.dropWhile (· = "crate") ++ [n.simpleName]) ++ artifactSuffix

/-- The modules of a path as identifiers, or the first that cannot be one. -/
def idents? : List String → Except NameError (List Ident)
  | [] => .ok []
  | s :: rest =>
    match segmentIdent? s with
    | some i => (idents? rest).map (i :: ·)
    | none => .error (.unnameable s)

/-- The path that generated code refers to the type by: the identifier alone where the module is
not known. -/
def path? (n : QualifiedName) : Except NameError Path := do
  let modules ← idents? n.module.segments
  if n.ident.endsPath then return ⟨false, (modules ++ [n.ident]).map Segment.plain⟩
  else .error (.reserved n.ident)

end QualifiedName

end RowFactory
