import RowFactory.Proofs.Scan.TableEntries

namespace RowFactory

/-- What a way down a use tree ends in. -/
inductive UseLeaf where
  | name (name : Ident)
  | rename (name newName : Ident)
  | glob
deriving DecidableEq

def UseLeaf.tree : UseLeaf → UseTree
  | .name i => .name i
  | .rename i newName => .rename i newName
  | .glob => .glob

/-- An import without groups: the names from the root down to the leaf. -/
structure PlainUse where
  names : List Ident
  leaf : UseLeaf
deriving DecidableEq

namespace PlainUse

def tree (u : PlainUse) : UseTree := u.names.foldr .path u.leaf.tree

/-- The import with a name in front. -/
def below (i : Ident) (u : PlainUse) : PlainUse := ⟨i :: u.names, u.leaf⟩

end PlainUse

mutual

/-- The leaves from left to right. -/
def UseTree.plainUses : UseTree → List PlainUse
  | .path i rest => rest.plainUses.map (.below i)
  | .name i => [⟨[], .name i⟩]
  | .rename i newName => [⟨[], .rename i newName⟩]
  | .glob => [⟨[], .glob⟩]
  | .group trees => UseTree.allPlainUses trees

def UseTree.allPlainUses : List UseTree → List PlainUse
  | [] => []
  | t :: ts => t.plainUses ++ UseTree.allPlainUses ts

end

/-- What the leaf itself adds to the path: `self` is the path in front of it, and so is a glob's. -/
def UseLeaf.ownNames : UseLeaf → List String
  | .name i => if i.name = "self" then [] else [i.name]
  | .rename i _ => if i.name = "self" then [] else [i.name]
  | .glob => []

namespace PlainUse

/-- The path that is imported, or that everything is imported from. -/
def path (u : PlainUse) : List String := u.names.map (·.name) ++ u.leaf.ownNames

/-- The name that the path is given: a new one, or its own last. -/
def givenName? (u : PlainUse) : Option String :=
  match u.leaf with
  | .name _ => u.path.getLast?
  | .rename _ newName => some newName.name
  | .glob => none

/-- The import binds the name. The blank name is not bound, nor is any to the empty path. -/
def Binds (u : PlainUse) (name : String) : Prop :=
  u.givenName? = some name ∧ name ≠ "_" ∧ u.path ≠ []

instance (u : PlainUse) (name : String) : Decidable (u.Binds name) :=
  inferInstanceAs (Decidable (_ ∧ _ ∧ _))

def target (leadingColon : Bool) (u : PlainUse) : WrittenPath := ⟨leadingColon, u.path⟩

variable {u : PlainUse}

theorem plainUses_tree (u : PlainUse) : u.tree.plainUses = [u] := by
  obtain ⟨names, leaf⟩ := u
  induction names with
  | nil => cases leaf <;> rfl
  | cons i names ih => exact congrArg (List.map (below i)) ih

/-- The one entry of a plain import, if it has one. -/
theorem entries_eq (leadingColon : Bool) (u : PlainUse) :
    (Item.use leadingColon u.tree).entries =
      if u.leaf = .glob then [.glob (u.target leadingColon)]
      else u.givenName?.toList.flatMap (importEntries · (u.target leadingColon)) := by
  rw [Item.entries, tree, UseTree.entriesBelow_foldr]
  obtain ⟨names, leaf⟩ := u
  cases leaf with
  | name i | rename i newName =>
    by_cases hself : i.name = "self" <;>
      simp [UseLeaf.tree, UseTree.entriesBelow, WrittenPath.append, target, givenName?, path,
        UseLeaf.ownNames, hself]
  | glob =>
    simp [UseLeaf.tree, UseTree.entriesBelow, WrittenPath.append, target, path, UseLeaf.ownNames]

/-- What a plain import enters depends on its path and the name it gives to it. -/
theorem bindItem_congr {v : PlainUse} (hu : u.leaf ≠ .glob) (hv : v.leaf ≠ .glob)
    (hpath : u.path = v.path) (hname : u.givenName? = v.givenName?) (leadingColon : Bool)
    (s : ModuleScope) :
    s.bindItem (.use leadingColon u.tree) = s.bindItem (.use leadingColon v.tree) := by
  rw [← foldl_add_entries, ← foldl_add_entries, entries_eq, entries_eq, if_neg hu, if_neg hv,
    hname, target, target, hpath]

/-- To import `self` below a name is to import the name, unless that is `self` too. -/
theorem bindItem_self {i self : Ident} (hself : self.name = "self") (hi : i.name ≠ "self")
    (leadingColon : Bool) (names : List Ident) (newName : Ident) (s : ModuleScope) :
    s.bindItem (.use leadingColon (tree ⟨names ++ [i], .name self⟩)) =
      s.bindItem (.use leadingColon (tree ⟨names, .name i⟩)) ∧
    s.bindItem (.use leadingColon (tree ⟨names ++ [i], .rename self newName⟩)) =
      s.bindItem (.use leadingColon (tree ⟨names, .rename i newName⟩)) := by
  have hpath : path ⟨names ++ [i], .name self⟩ = path ⟨names, .name i⟩ := by
    simp [path, UseLeaf.ownNames, hself, hi]
  have hrenamed : path ⟨names ++ [i], .rename self newName⟩ = path ⟨names, .rename i newName⟩ :=
    hpath
  constructor
  · exact bindItem_congr (by simp) (by simp) hpath (congrArg List.getLast? hpath) leadingColon s
  · exact bindItem_congr (by simp) (by simp) hrenamed rfl leadingColon s

end PlainUse

theorem filterMap_binding?_importEntries (given name : String) (path : WrittenPath) :
    (importEntries given path).filterMap (·.binding? name) =
      if given = name ∧ name ≠ "_" ∧ path.segments ≠ [] then [.imported path] else [] := by
  unfold importEntries
  by_cases hname : given = name
  · subst hname
    by_cases hblank : given = "_" <;> by_cases hpath : path.segments = [] <;>
      simp [hblank, hpath, TableEntry.binding?]
  · split <;> simp [hname, TableEntry.binding?]

theorem filterMap_glob?_importEntries (given : String) (path : WrittenPath) :
    (importEntries given path).filterMap TableEntry.glob? = [] := by
  unfold importEntries
  split <;> rfl

namespace PlainUse

theorem filterMap_binding?_entries (leadingColon : Bool) (u : PlainUse) (name : String) :
    (Item.use leadingColon u.tree).entries.filterMap (·.binding? name) =
      if u.Binds name then [.imported (u.target leadingColon)] else [] := by
  rw [entries_eq]
  by_cases hglob : u.leaf = .glob
  · simp [hglob, Binds, givenName?, TableEntry.binding?]
  · rw [if_neg hglob]
    cases hgiven : u.givenName? with
    | none => simp [Binds, hgiven]
    | some given => simp [Binds, hgiven, filterMap_binding?_importEntries, target]

theorem filterMap_glob?_entries (leadingColon : Bool) (u : PlainUse) :
    (Item.use leadingColon u.tree).entries.filterMap TableEntry.glob? =
      if u.leaf = .glob then [u.target leadingColon] else [] := by
  rw [entries_eq]
  by_cases hglob : u.leaf = .glob
  · simp [hglob, TableEntry.glob?]
  · rw [if_neg hglob, if_neg hglob]
    cases u.givenName? with
    | none => rfl
    | some given => simpa using filterMap_glob?_importEntries given (u.target leadingColon)

end PlainUse

mutual

/-- The entries of a tree are those of its leaves. -/
theorem UseTree.entriesBelow_eq (path : WrittenPath) (tree : UseTree) :
    tree.entriesBelow path = tree.plainUses.flatMap fun u => u.tree.entriesBelow path := by
  match tree with
  | .path i rest =>
    rw [UseTree.plainUses, List.flatMap_map]
    exact UseTree.entriesBelow_eq (path.append [i.name]) rest
  | .name i => exact (List.flatMap_singleton _ _).symm
  | .rename i newName => exact (List.flatMap_singleton _ _).symm
  | .glob => exact (List.flatMap_singleton _ _).symm
  | .group trees => exact UseTree.allEntriesBelow_eq path trees

theorem UseTree.allEntriesBelow_eq (path : WrittenPath) (trees : List UseTree) :
    UseTree.allEntriesBelow path trees =
      (UseTree.allPlainUses trees).flatMap fun u => u.tree.entriesBelow path := by
  match trees with
  | [] => rfl
  | t :: ts =>
    rw [UseTree.allEntriesBelow, UseTree.allPlainUses, List.flatMap_append,
      UseTree.entriesBelow_eq path t, UseTree.allEntriesBelow_eq path ts]

end

theorem entries_use_eq (leadingColon : Bool) (tree : UseTree) :
    (Item.use leadingColon tree).entries =
      tree.plainUses.flatMap fun u => (Item.use leadingColon u.tree).entries :=
  UseTree.entriesBelow_eq ⟨leadingColon, []⟩ tree

/-- What each leaf gives at most one of is listed in the order of the leaves. -/
theorem filterMap_use {α : Type} {given? : TableEntry → Option α} {gives : PlainUse → Prop}
    [DecidablePred gives] {value : PlainUse → α} {leadingColon : Bool}
    (h : ∀ u : PlainUse, (Item.use leadingColon u.tree).entries.filterMap given? =
      if gives u then [value u] else []) (tree : UseTree) :
    (Item.use leadingColon tree).entries.filterMap given? =
      (tree.plainUses.filter (gives ·)).map value := by
  rw [entries_use_eq]
  induction tree.plainUses with
  | nil => rfl
  | cons u rest ih =>
    rw [List.flatMap_cons, List.filterMap_append, h, ih, List.filter_cons]
    by_cases hgives : gives u <;> simp [hgives]

namespace ModuleScope

theorem bindItem_use_eq (leadingColon : Bool) (tree : UseTree) (s : ModuleScope) :
    s.bindItem (.use leadingColon tree) =
      (tree.plainUses.map fun u => Item.use leadingColon u.tree).foldl bindItem s := by
  rw [← foldl_add_entries, entries_use_eq, ← foldl_add_flatMap_entries, List.flatMap_map]

/-- Of the leaves that bind a name the last decides. -/
theorem get?_bindItem_use (leadingColon : Bool) (tree : UseTree) (s : ModuleScope) (name : String) :
    (s.bindItem (.use leadingColon tree)).get? name =
      ((tree.plainUses.filter fun u => u.Binds name).getLast?.map
        fun u => .imported (u.target leadingColon)).or (s.get? name) := by
  have hbindings := filterMap_use (PlainUse.filterMap_binding?_entries leadingColon · name) tree
  rw [← foldl_add_entries, get?_foldl_add_eq, lastBinding?, hbindings, List.getLast?_map]

theorem globs_bindItem_use (leadingColon : Bool) (tree : UseTree) (s : ModuleScope) :
    (s.bindItem (.use leadingColon tree)).globs =
      s.globs ++ (tree.plainUses.filter (·.leaf = .glob)).map (·.target leadingColon) := by
  rw [← foldl_add_entries, globs_foldl_add,
    filterMap_use (PlainUse.filterMap_glob?_entries leadingColon)]

end ModuleScope

/-- A use tree leaves a table as plain imports do that are written one after another, one for each
leaf from left to right with the whole path from the root of the tree; to import `self` is to import
the name in front of it. A name that leaves bind stands for the path of the last of them, and any
other name for what it stood for before. Each glob adds its path, in their order. -/
theorem use_tree_imports_as_its_leaves (leadingColon : Bool) (tree : UseTree) (s : ModuleScope) :
    let uses := tree.plainUses
    let after := s.bindItem (.use leadingColon tree)
    after = (uses.map fun u => Item.use leadingColon u.tree).foldl ModuleScope.bindItem s ∧
    (∀ u ∈ uses, u.tree.plainUses = [u]) ∧
    (∀ (names : List Ident) (i self newName : Ident), self.name = "self" → i.name ≠ "self" →
      s.bindItem (.use leadingColon (PlainUse.tree ⟨names ++ [i], .name self⟩)) =
        s.bindItem (.use leadingColon (PlainUse.tree ⟨names, .name i⟩)) ∧
      s.bindItem (.use leadingColon (PlainUse.tree ⟨names ++ [i], .rename self newName⟩)) =
        s.bindItem (.use leadingColon (PlainUse.tree ⟨names, .rename i newName⟩))) ∧
    (∀ name u, (uses.filter fun u => u.Binds name).getLast? = some u →
      after.get? name = some (.imported ⟨leadingColon, u.path⟩)) ∧
    (∀ name, (∀ u ∈ uses, ¬ u.Binds name) → after.get? name = s.get? name) ∧
    after.globs = s.globs ++
      (uses.filter (·.leaf = .glob)).map fun u => ⟨leadingColon, u.path⟩ := by
  intro uses after
  have hget : ∀ name, after.get? name = _ := ModuleScope.get?_bindItem_use leadingColon tree s
  refine ⟨ModuleScope.bindItem_use_eq leadingColon tree s, fun u _ => u.plainUses_tree,
    fun names i self newName hself hi =>
      PlainUse.bindItem_self hself hi leadingColon names newName s,
    fun name u hlast => ?_, fun name hnone => ?_,
    ModuleScope.globs_bindItem_use leadingColon tree s⟩
  · rw [hget, hlast]
    rfl
  · have hempty : (uses.filter fun u => u.Binds name) = [] := by simpa using hnone
    rw [hget, hempty]
    rfl

/-- `use ::a::{self, b::{c as d, self as a, *}, e as _, *}` where `a` and `x` are declared. -/
theorem use_tree_imports_as_its_leaves_nested :
    let tree : UseTree := .path (.plain "a") (.group [.name (.plain "self"),
      .path (.plain "b") (.group [.rename (.plain "c") (.plain "d"),
        .rename (.plain "self") (.plain "a"), .glob]),
      .rename (.plain "e") (.plain "_"), .glob])
    let s : ModuleScope := ⟨[("a", .declared), ("x", .declared)], []⟩
    let after := s.bindItem (.use true tree)
    let renamed : PlainUse := ⟨[.plain "a", .plain "b"], .rename (.plain "self") (.plain "a")⟩
    renamed ∈ tree.plainUses ∧ renamed.tree.plainUses = [renamed] ∧
      (tree.plainUses.filter fun u => u.Binds "a").getLast? = some renamed ∧
      after.get? "a" = some (.imported ⟨true, ["a", "b"]⟩) ∧
      (∀ u ∈ tree.plainUses, ¬ u.Binds "x") ∧ after.get? "x" = some .declared ∧
      after.globs = [⟨true, ["a", "b"]⟩, ⟨true, ["a"]⟩] ∧
      s.bindItem (.use true renamed.tree) =
        s.bindItem (.use true (.path (.plain "a") (.rename (.plain "b") (.plain "a")))) := by
  intro tree s after renamed
  have hmem : renamed ∈ tree.plainUses := by decide
  have hlast : (tree.plainUses.filter fun u => u.Binds "a").getLast? = some renamed := by decide
  have hother : ∀ u ∈ tree.plainUses, ¬ u.Binds "x" := by decide
  obtain ⟨-, hplain, hself, hbound, hkept, hglobs⟩ := use_tree_imports_as_its_leaves true tree s
  have hrenamed := (hself [.plain "a"] (.plain "b") (.plain "self") (.plain "a") rfl (by decide)).2
  exact ⟨hmem, hplain renamed hmem, hlast, hbound "a" renamed hlast, hother, hkept "x" hother,
    hglobs, hrenamed⟩

end RowFactory
