import RowFactory.Name.ModulePath
import RowFactory.Source.Item

namespace RowFactory

/-- A path as it is written; a leading `::` says that it begins with a crate's name. -/
structure WrittenPath where
  leadingColon : Bool
  segments : List String
deriving DecidableEq, Hashable, Inhabited

def WrittenPath.append (p : WrittenPath) (tail : List String) : WrittenPath :=
  { p with segments := p.segments ++ tail }

inductive Binding where
  /-- An item of the module itself. -/
  | declared
  | imported (target : WrittenPath)
deriving DecidableEq

/-- A name is bound at most once; a later binding replaces an earlier one. -/
structure ModuleScope where
  bindings : List (String × Binding)
  globs : List WrittenPath
deriving DecidableEq, Inhabited

namespace ModuleScope

def empty : ModuleScope := ⟨[], []⟩

def get? (s : ModuleScope) (name : String) : Option Binding := s.bindings.lookup name

def bind (s : ModuleScope) (name : String) (b : Binding) : ModuleScope :=
  { s with bindings := (name, b) :: s.bindings.filter (·.1 != name) }

/-- The blank name binds nothing, nor does an import of nothing. -/
def bindImport (s : ModuleScope) (name : String) (target : WrittenPath) : ModuleScope :=
  if name = "_" || target.segments.isEmpty then s else s.bind name (.imported target)

def addGlob (s : ModuleScope) (path : WrittenPath) : ModuleScope :=
  { s with globs := s.globs ++ [path] }

end ModuleScope

mutual

/-- Binds what a tree below `path` imports. The name `self` stands for the path itself. -/
def UseTree.bindAt (path : WrittenPath) : UseTree → ModuleScope → ModuleScope
  | .path i rest, s => rest.bindAt (path.append [i.name]) s
  | .name i, s =>
    if i.name = "self" then
      match path.segments.getLast? with
      | some last => s.bindImport last path
      | none => s
    else s.bindImport i.name (path.append [i.name])
  | .rename i newName, s =>
    s.bindImport newName.name (if i.name = "self" then path else path.append [i.name])
  | .glob, s => s.addGlob path
  | .group trees, s => UseTree.bindAll path trees s

def UseTree.bindAll (path : WrittenPath) : List UseTree → ModuleScope → ModuleScope
  | [], s => s
  | t :: ts, s => UseTree.bindAll path ts (t.bindAt path s)

end

/-- The name that an item other than an import declares. -/
def Item.declaredName? : Item → Option Ident
  | .struct item => some item.name
  | .module name _ => some name
  | .named name => some name
  | _ => none

/-- The target of an `extern crate`; `self` is the crate at hand. -/
def externTarget (crate : String) : WrittenPath :=
  if crate = "self" then ⟨false, ["crate"]⟩ else ⟨true, [crate]⟩

def ModuleScope.bindItem (s : ModuleScope) (item : Item) : ModuleScope :=
  match item with
  | .use leadingColon tree => tree.bindAt ⟨leadingColon, []⟩ s
  | .externCrate name newName => s.bindImport (newName.getD name).name (externTarget name.name)
  | item =>
    match item.declaredName? with
    | some name => s.bind name.name .declared
    | none => s

/-- The tables of all scanned modules; each module has one. -/
structure Scopes where
  modules : List (ModulePath × ModuleScope)
deriving Inhabited

namespace Scopes

def empty : Scopes := ⟨[]⟩

def get? (s : Scopes) (m : ModulePath) : Option ModuleScope := s.modules.lookup m

def set (s : Scopes) (m : ModulePath) (scope : ModuleScope) : Scopes :=
  ⟨(m, scope) :: s.modules.filter (·.1 != m)⟩

/-- The items are bound in the module's table, which is made if it is not there yet. -/
def bindItems (s : Scopes) (m : ModulePath) (items : List Item) : Scopes :=
  s.set m (items.foldl ModuleScope.bindItem ((s.get? m).getD .empty))

end Scopes

end RowFactory
