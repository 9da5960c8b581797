import RowFactory.Factory.Basic
import RowFactory.Row.Record

namespace RowFactory

/-- The target that a field's type is converted to, for the types that have one. -/
def Target.ofTy? : Ty → Option Target
  | .path none _ _ [.plain name] =>
    match name.text with
    | "bool" => some .bool
    | "f32" => some .single
    | "f64" => some .double
    | "String" => some .text
    | "Value" => some .value
    | other => (IntegerType.all.find? (·.name = other)).map .integer
  | .path none _ _ [.angle name _ [.type inner] _] =>
    match name.text, inner with
    | "Option", inner => (Target.ofTy? inner).map .option
    | "Vec", .path none _ _ [.plain ⟨false, "u8"⟩] => some .bytes
    | _, _ => none
  | _ => none

section

variable {τ : Type} (Carrier : τ → Type)

/-- A value of one of a family of types. -/
structure TypedOf where
  target : τ
  value : Carrier target

/-- The fields of a struct with what they hold. -/
abbrev InstanceOf := List (Option Ident × TypedOf Carrier)

end

abbrev TypedValue := TypedOf Target.Carrier

abbrev Instance := InstanceOf Target.Carrier

namespace InstanceOf

variable {τ : Type} {Carrier : τ → Type}

/-- Every field holds the default of its type. -/
def initial (default : (t : τ) → Carrier t) (fields : List (Option Ident × τ)) :
    InstanceOf Carrier :=
  fields.map fun (name, t) => (name, ⟨t, default t⟩)

def target? (i : InstanceOf Carrier) (field : Ident) : Option τ :=
  (i.find? (·.1 = some field)).map (·.2.target)

def set (i : InstanceOf Carrier) (field : Ident) (v : TypedOf Carrier) : InstanceOf Carrier :=
  i.map fun (name, old) => (name, if name = some field then v else old)

end InstanceOf

/-- The fields of a type with their targets, if all have one. -/
def AnnotatedType.targets? (t : AnnotatedType) : Option (List (Option Ident × Target)) :=
  (t.members.filter (·.kind = .field)).mapM fun m =>
    (m.type.bind Target.ofTy?).map fun target => (m.name, target)

section

variable {τ : Type} {Carrier : τ → Type} {ε : Type}

/-- Carries out assignments one by one; the names of the columns read come with the outcome. An
assignment to no field of the instance reads nothing. -/
def runAssignments (row : RowOf Carrier ε) :
    List Assignment → InstanceOf Carrier → Except ε (InstanceOf Carrier) × List String
  | [], i => (.ok i, [])
  | a :: rest, i =>
    match i.target? a.field with
    | none => runAssignments row rest i
    | some t =>
      match row.get t a.column with
      | .error e => (.error e, [a.column])
      | .ok v =>
        let (outcome, reads) := runAssignments row rest (i.set a.field ⟨t, v⟩)
        (outcome, a.column :: reads)

/-- Builds an instance from a row, beginning with the type's default. -/
def Factory.runFrom (f : Factory) (start : InstanceOf Carrier) (row : RowOf Carrier ε) :
    Except ε (InstanceOf Carrier) × List String :=
  runAssignments row f.assignments start

end

/-- Builds an instance from a row, beginning with the defaults of the fields. -/
def Factory.run {ε : Type} (f : Factory) (fields : List (Option Ident × Target)) (row : Row ε) :
    Except ε Instance × List String :=
  f.runFrom (.initial Target.default fields) row

end RowFactory
