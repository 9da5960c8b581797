import RowFactory.Scan.Derive
import RowFactory.Scan.Search
import RowFactory.Mapping.Member

namespace RowFactory

/-- A source file and the module that it is the text of. -/
structure SourceUnit where
  module : ModulePath
  items : List Item

def SourceUnit.ofText? (m : ModulePath) (source : String) : Option SourceUnit :=
  (itemsOfText? source).map fun items => ⟨m, items⟩

/-- Why a file is no source unit. -/
inductive ReadError where
  /-- There is no such file, or its bytes are no text. -/
  | noText
  | noSource
deriving DecidableEq

/-- The unit of a file with the given content, if there is one. -/
def SourceUnit.ofFile (m : ModulePath) (content : Option ByteArray) :
    Except ReadError SourceUnit :=
  match content.bind String.fromUTF8? with
  | none => .error .noText
  | some source =>
    match SourceUnit.ofText? m source with
    | some unit => .ok unit
    | none => .error .noSource

/-- The name of the type that an `impl` block is for, if it is a name alone. -/
def Ty.simpleName? : Ty → Option String
  | .path none _ _ [s] => some s.name.name
  | _ => none

inductive Sighting where
  | module (module : ModulePath) (items : List Item)
  | struct (module : ModulePath) (item : StructItem)
  /-- Items of a type of the module. -/
  | implItems (module : ModulePath) (target : String) (items : List ImplItem)

mutual

def Item.sightings (m : ModulePath) : Item → List Sighting
  | .struct item => [.struct m item]
  | .inherentImpl target items =>
    match target.simpleName? with
    | some t => [.implItems m t items]
    | none => []
  | .module n (some content) =>
    .module (m.child n.name) content :: Item.sightingsAll (m.child n.name) content
  | _ => []

def Item.sightingsAll (m : ModulePath) : List Item → List Sighting
  | [] => []
  | i :: rest => i.sightings m ++ Item.sightingsAll m rest

end

def SourceUnit.sightings (u : SourceUnit) : List Sighting :=
  .module u.module u.items :: Item.sightingsAll u.module u.items

/-- Only modules bind names. -/
def Scopes.addSighting (scopes : Scopes) : Sighting → Scopes
  | .module m items => scopes.bindItems m items
  | _ => scopes

/-- The names that the modules among the sightings bind. -/
def Scopes.ofSightings (sightings : List Sighting) : Scopes :=
  sightings.foldl Scopes.addSighting .empty

/-- The structs among the sightings, with their modules. -/
def structsSeen (sightings : List Sighting) : List (ModulePath × StructItem) :=
  sightings.filterMap fun
    | .struct m item => some (m, item)
    | _ => none

/-- An item is kept if no item before it is the same. -/
def distinctItems (items : List ImplItem) : List ImplItem :=
  items.foldl (fun kept i => if kept.any i.sameAs then kept else kept ++ [i]) []

/-- The items of all `impl` blocks for a type, each once. -/
def implItemsOf (m : ModulePath) (target : String) (sightings : List Sighting) : List ImplItem :=
  distinctItems <| sightings.flatMap fun
    | .implItems m' target' items => if m' = m && target' = target then items else []
    | _ => []

end RowFactory
