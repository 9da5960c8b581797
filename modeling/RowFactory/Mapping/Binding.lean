import RowFactory.Mapping.ColumnAttribute
import RowFactory.Mapping.Member

namespace RowFactory

structure ColumnBinding where
  field : Ident
  column : String
  type : Ty

/-- Only a public field with a name that is not marked read-only is mapped. -/
def Member.isEligible (m : Member) : Bool :=
  m.kind = .field && m.name.isSome && m.visibility = .anyone && !isReadonly m.attrs

/-- The column that the attributes name, or else the field's own name. -/
def resolveColumnName (field : Ident) (attrs : List Attribute) : String :=
  (columnOverride? attrs).getD field.name

def Member.binding? (m : Member) : Option ColumnBinding :=
  if m.isEligible then
    match m.name, m.type with
    | some field, some type => some ⟨field, resolveColumnName field m.attrs, type⟩
    | _, _ => none
  else none

/-- One binding for each mapped field, in the order of the fields. -/
def AnnotatedType.bindings (t : AnnotatedType) : List ColumnBinding :=
  t.members.filterMap Member.binding?

end RowFactory
