import RowFactory.Derive.RuntimeAttribute
import RowFactory.Factory.Basic

namespace RowFactory

inductive DeriveError where
  /-- Not a struct. -/
  | shape
  | attributes (errors : List AttributeError)
  | name (error : NameError)

/-- One message for each error, in order. -/
def DeriveError.messages : DeriveError → List String
  | .shape => [notStructMessage]
  | .attributes errors => errors.map AttributeError.message
  | .name _ => []

/-- The type stands in no known module, so the factory names it by its identifier alone. -/
def expand (item : TypeItem) : Except DeriveError Factory :=
  match item with
  | .struct s => do
    let runtime ← (runtimeOfAttributes s.attrs).mapError .attributes
    let t := AnnotatedType.ofStruct ⟨[]⟩ s []
    (Factory.ofType? t t.bindings runtime).mapError .name
  | _ => .error .shape

end RowFactory
