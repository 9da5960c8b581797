import RowFactory.Scan.Scope

namespace RowFactory

/-- How many imports or globs may be followed in a row. -/
def maxIndirections : Nat := 16

/-- What may supply the first name of a path. -/
structure Lookup where
  /-- The name whose own import is being followed; its import does not apply to itself. -/
  skip : Option String
  /-- Globs count. They do not for a path that a glob supplied. -/
  globs : Bool
deriving DecidableEq, Hashable

def Lookup.any : Lookup := ⟨none, true⟩

def Lookup.skipping (name : String) : Lookup := ⟨some name, true⟩

def Lookup.expanded : Lookup := ⟨none, false⟩

inductive LookupState where
  | written (module : ModulePath) (path : WrittenPath) (lookup : Lookup)
  /-- A path from the root of the crate. -/
  | canonical (segments : List String)
deriving DecidableEq, Hashable

/-- The most steps that were left when each state was entered, and the paths found. -/
structure Search where
  seen : List (LookupState × Nat)
  found : List (List String)

namespace Search

def empty : Search := ⟨[], []⟩

/-- A path is listed where it is first found. -/
def find (s : Search) (segments : List String) : Search :=
  if s.found.contains segments then s else { s with found := s.found ++ [segments] }

/-- The state is worth entering: it was not entered with as many steps left. -/
def isNew (s : Search) (state : LookupState) (left : Nat) : Bool :=
  match s.seen.lookup state with
  | some before => before < left
  | none => true

def enter (s : Search) (state : LookupState) (left : Nat) : Search :=
  { s with seen := (state, left) :: s.seen.filter (·.1 != state) }

end Search

/-- Says whether a search goes into a state with some steps left. -/
abbrev EntryRule := Search → LookupState → Nat → Bool

/-- Only what is new is entered. -/
def EntryRule.remembering : EntryRule := Search.isNew

/-- Everything is entered, however often. -/
def EntryRule.always : EntryRule := fun _ _ _ => true

/-- A step of a search from a path seen in a module. -/
abbrev Follow := ModulePath → WrittenPath → Lookup → Search → Search

/-- The longest scanned module that is a proper beginning of the path, and its table. -/
def Scopes.enclosing? (scopes : Scopes) (segments : List String) :
    Option (ModulePath × ModuleScope × String × List String) :=
  ((List.range segments.length).drop 1).reverse.findSome? fun n =>
    let m : ModulePath := ⟨segments.take n⟩
    match scopes.get? m, segments.drop n with
    | some scope, name :: rest => some (m, scope, name, rest)
    | _, _ => none

/-- Follows every glob of the list with the given names behind it. -/
def followGlobs (follow : Follow) (m : ModulePath) (globs : List WrittenPath)
    (tail : List String) (s : Search) : Search :=
  globs.foldl (fun s glob => follow m (glob.append tail) .expanded s) s

/-- A path from the root is looked up in the longest scanned module that it passes through, and
stands for itself where nothing there leads on. -/
def Scopes.canonicalize (scopes : Scopes) (rule : EntryRule) (follow : Follow) (left : Nat)
    (segments : List String) (s : Search) : Search :=
  if !rule s (.canonical segments) left then s
  else
    let s := s.enter (.canonical segments) left
    match scopes.enclosing? segments with
    | none => s.find segments
    | some (m, scope, name, rest) =>
      match scope.get? name with
      | some (.imported target) => follow m (target.append rest) (.skipping name) s
      | some .declared => s.find segments
      | none =>
        if scope.globs.isEmpty then s.find segments
        else followGlobs follow m scope.globs (name :: rest) s

/-- The module that `super` repeated `n` times leads to. -/
def ModulePath.ancestor? (m : ModulePath) : Nat → Option ModulePath
  | 0 => some m
  | n + 1 => m.parent?.bind (ModulePath.ancestor? · n)

/-- A path whose first name is no word for a place: what the module binds the name to, or else
what the module's globs may supply, or a crate. -/
def Scopes.lookupName (scopes : Scopes) (rule : EntryRule) (follow : Follow) (left : Nat)
    (m : ModulePath) (name : String) (rest : List String) (lookup : Lookup) (s : Search) :
    Search :=
  let scope := (scopes.get? m).getD .empty
  let binding := if lookup.skip = some name then none else scope.get? name
  match binding with
  | some .declared => scopes.canonicalize rule follow left (m.segments ++ name :: rest) s
  | some (.imported target) => follow m (target.append rest) (.skipping name) s
  | none =>
    let s := if lookup.globs then followGlobs follow m scope.globs (name :: rest) s else s
    if rest.isEmpty then s else s.find (name :: rest)

/-- The search from a path seen in a module, with at most `left` imports or globs still to be
followed, counting the one that led here. -/
def Scopes.follow (scopes : Scopes) (rule : EntryRule) : Nat → Follow
  | 0, _, _, _, s => s
  | left + 1, m, path, lookup, s =>
    match path.segments with
    | [] => s
    | first :: rest =>
      if path.leadingColon then s.find path.segments
      else if !rule s (.written m path lookup) left then s
      else
        let s := s.enter (.written m path lookup) left
        let canonicalize := scopes.canonicalize rule (scopes.follow rule left) left
        if first = "crate" then canonicalize path.segments s
        else if first = "self" then canonicalize (m.segments ++ rest) s
        else if first = "super" then
          let supers := path.segments.takeWhile (· = "super")
          match m.ancestor? supers.length with
          | some base => canonicalize (base.segments ++ path.segments.drop supers.length) s
          | none => s
        else scopes.lookupName rule (scopes.follow rule left) left m first rest lookup s

/-- A path with the names it is written with; arguments do not matter. -/
def Path.written (p : Path) : WrittenPath :=
  ⟨p.leadingColon, p.segments.map fun s => s.name.name⟩

/-- Everything found from a written path under an entry rule, with the states entered. -/
def Scopes.searchBy (scopes : Scopes) (rule : EntryRule) (m : ModulePath) (path : WrittenPath) :
    Search :=
  scopes.follow rule (maxIndirections + 1) m path .any .empty

def Scopes.search (scopes : Scopes) (m : ModulePath) (path : WrittenPath) : Search :=
  scopes.searchBy .remembering m path

/-- The full paths that a path may stand for in a module, in the order found. -/
def Scopes.resolve (scopes : Scopes) (m : ModulePath) (path : WrittenPath) :
    List (List String) :=
  (scopes.search m path).found

end RowFactory
