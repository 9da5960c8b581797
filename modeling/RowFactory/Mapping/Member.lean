import RowFactory.Name.QualifiedName
import RowFactory.Source.Item

namespace RowFactory

inductive MemberKind where
  | field
  | method
  | constant
  | typeAlias
  | other
deriving DecidableEq

structure Member where
  kind : MemberKind
  name : Option Ident
  visibility : Visibility
  attrs : List Attribute
  type : Option Ty

/-- The text for a member without a name. -/
def unnamedText : String := "<unnamed>"

namespace Member

def ofField (f : Field) : Member := ⟨.field, f.name, f.visibility, f.attrs, some f.type⟩

def ofImplItem (item : ImplItem) : Member :=
  match item.content with
  | .function attrs visibility name => ⟨.method, some name, visibility, attrs, none⟩
  | .constant attrs visibility name type => ⟨.constant, some name, visibility, attrs, some type⟩
  | .type attrs visibility name => ⟨.typeAlias, some name, visibility, attrs, none⟩
  | .call attrs => ⟨.other, none, .inherited, attrs, none⟩
  | .verbatim => ⟨.other, none, .inherited, [], none⟩

def displayName (m : Member) : String := (m.name.map Ident.text).getD unnamedText

end Member

/-- A type to be mapped. -/
structure AnnotatedType where
  name : QualifiedName
  generics : Generics
  members : List Member

/-- Fields come first, then the items of the `impl` blocks. -/
def AnnotatedType.ofStruct (m : ModulePath) (item : StructItem) (implItems : List ImplItem) :
    AnnotatedType :=
  { name := ⟨m, item.name⟩
    generics := item.generics
    members := item.fields.toList.map Member.ofField ++ implItems.map Member.ofImplItem }

/-- Why a declaration cannot be mapped. -/
def notStructMessage : String := "RowMapped can only be derived for structs"

/-- The type of a declaration that stands in no known module; only a struct will do. -/
def AnnotatedType.ofTypeItem? : TypeItem → Option AnnotatedType
  | .struct item => some (.ofStruct ⟨[]⟩ item [])
  | _ => none

end RowFactory
