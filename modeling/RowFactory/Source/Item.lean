import RowFactory.Source.Generics

namespace RowFactory

inductive Visibility where
  | inherited
  | restricted
  | anyone
deriving DecidableEq, Inhabited

/-- A field of a struct; one of a tuple has no name. -/
structure Field where
  attrs : List Attribute
  visibility : Visibility
  name : Option Ident
  type : Ty

inductive Fields where
  | named (fields : List Field)
  | tuple (fields : List Field)
  | unit

def Fields.toList : Fields → List Field
  | .named fields => fields
  | .tuple fields => fields
  | .unit => []

structure StructItem where
  attrs : List Attribute
  visibility : Visibility
  name : Ident
  generics : Generics
  fields : Fields

/-- What is imported below a path that has been begun. -/
inductive UseTree where
  | path (name : Ident) (rest : UseTree)
  | name (name : Ident)
  | rename (name newName : Ident)
  | glob
  | group (trees : List UseTree)

inductive ImplContent where
  | function (attrs : List Attribute) (visibility : Visibility) (name : Ident)
  | constant (attrs : List Attribute) (visibility : Visibility) (name : Ident) (type : Ty)
  | type (attrs : List Attribute) (visibility : Visibility) (name : Ident)
  | call (attrs : List Attribute)
  /-- A form that is only carried through. -/
  | verbatim

/-- An item of an `impl` block, with the tokens it is written with. -/
structure ImplItem where
  tokens : List Token
  /-- What was read in another order than written, or is not written. -/
  altered : List Token
  content : ImplContent

/-- Items that are read alike, blanks and comments aside. -/
def ImplItem.sameAs (i j : ImplItem) : Bool :=
  Token.flatten i.tokens == Token.flatten j.tokens &&
    Token.flatten i.altered == Token.flatten j.altered

inductive Item where
  | struct (item : StructItem)
  | use (leadingColon : Bool) (tree : UseTree)
  | externCrate (name : Ident) (newName : Option Ident)
  /-- Items that belong to a type itself, not to a trait it has. -/
  | inherentImpl (target : Ty) (items : List ImplItem)
  | module (name : Ident) (content : Option (List Item))
  /-- Any other item that binds its name. -/
  | named (name : Ident)
  /-- An item that binds no name. -/
  | unnamed
  /-- A form that is only carried through; it binds no name. -/
  | verbatim

def Item.isVerbatim : Item → Bool
  | .verbatim => true
  | _ => false

/-- What a derive may stand on. -/
inductive TypeItem where
  | struct (item : StructItem)
  | enum (attrs : List Attribute) (name : Ident)
  | union (attrs : List Attribute) (name : Ident)

end RowFactory
