import RowFactory.Scan.Sighting
import RowFactory.Config
import RowFactory.Generation.Pass
import RowFactory.Mapping.Binding

namespace RowFactory

/-- What the paths a struct derives may stand for, path by path. -/
def resolvedDerives (scopes : Scopes) (m : ModulePath) (item : StructItem) :
    List (Path × List (List String)) :=
  (derivePaths item.attrs).map fun p => (p, scopes.resolve m p.written)

def carriesMarker (scopes : Scopes) (config : Config) (m : ModulePath) (item : StructItem) :
    Bool :=
  (derivePaths item.attrs).any fun p =>
    (scopes.resolve m p.written).any config.isMarker

/-- Every path derived anywhere, with its module and what it may stand for there. -/
def derivesSeen (units : List SourceUnit) :
    List (ModulePath × Path × List (List String)) :=
  let sightings := units.flatMap SourceUnit.sightings
  let scopes := Scopes.ofSightings sightings
  (structsSeen sightings).flatMap fun (m, item) =>
    (resolvedDerives scopes m item).map fun (p, found) => (m, p, found)

/-- The type of a struct, with the items of its `impl` blocks. -/
def annotate (sightings : List Sighting) (m : ModulePath) (item : StructItem) : AnnotatedType :=
  .ofStruct m item (implItemsOf m item.name.name sightings)

/-- Takes the structs one by one. One that carries a marker is added unless its name was added
before. -/
def collectMarked (sightings : List Sighting) (config : Config) (scopes : Scopes) :
    List AnnotatedType → List (ModulePath × StructItem) → Pass (List AnnotatedType)
  | types, [] => return types
  | types, (m, item) :: rest => do
    Pass.check
    let isNew := types.all (·.name != ⟨m, item.name⟩)
    if carriesMarker scopes config m item && isNew then
      collectMarked sightings config scopes (types ++ [annotate sightings m item]) rest
    else collectMarked sightings config scopes types rest

/-- The marked types of all units, each once, in the order of their first declarations. Names are
looked up in the modules of all units, whatever their order. -/
def discover (units : List SourceUnit) (config : Config) : Pass (List AnnotatedType) := do
  Pass.check
  units.forM fun _ => Pass.check
  let sightings := units.flatMap SourceUnit.sightings
  collectMarked sightings config (Scopes.ofSightings sightings) [] (structsSeen sightings)

/-- The bindings of a type's members, looked at one by one. -/
def bindMembers : List Member → Pass (List ColumnBinding)
  | [] => return []
  | m :: rest => do
    Pass.check
    return m.binding?.toList ++ (← bindMembers rest)

end RowFactory
