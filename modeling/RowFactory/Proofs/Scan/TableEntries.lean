import RowFactory.Proofs.Scan.Discovery

namespace RowFactory

/-- A name with what it stands for, or a path that everything is imported from. -/
inductive TableEntry where
  | name (name : String) (binding : Binding)
  | glob (path : WrittenPath)
deriving DecidableEq

/-- The entry of an import; the blank name has none, nor does an import of nothing. -/
def importEntries (name : String) (target : WrittenPath) : List TableEntry :=
  if name = "_" || target.segments.isEmpty then [] else [.name name (.imported target)]

mutual

/-- The entries of a tree below `path`. -/
def UseTree.entriesBelow (path : WrittenPath) : UseTree → List TableEntry
  | .path i rest => rest.entriesBelow (path.append [i.name])
  | .name i =>
    if i.name = "self" then path.segments.getLast?.toList.flatMap (importEntries · path)
    else importEntries i.name (path.append [i.name])
  | .rename i newName =>
    importEntries newName.name (if i.name = "self" then path else path.append [i.name])
  | .glob => [.glob path]
  | .group trees => UseTree.allEntriesBelow path trees

def UseTree.allEntriesBelow (path : WrittenPath) : List UseTree → List TableEntry
  | [] => []
  | t :: ts => t.entriesBelow path ++ UseTree.allEntriesBelow path ts

end

/-- The names on the way down to a tree are in front of its paths. -/
theorem UseTree.entriesBelow_foldr (names : List Ident) (tree : UseTree) (path : WrittenPath) :
    (names.foldr .path tree).entriesBelow path =
      tree.entriesBelow (path.append (names.map (·.name))) := by
  induction names generalizing path with
  | nil => simp [WrittenPath.append]
  | cons i names ih =>
    have hrest := ih (path.append [i.name])
    simpa [UseTree.entriesBelow, WrittenPath.append] using hrest

/-- The entries of an item in the table of the module that it stands in. -/
def Item.entries : Item → List TableEntry
  | .use leadingColon tree => tree.entriesBelow ⟨leadingColon, []⟩
  | .externCrate name newName =>
    importEntries (newName.getD name).name (externTarget name.name)
  | item => item.declaredName?.toList.map fun name => .name name.name .declared

def entriesOf (units : List SourceUnit) (m : ModulePath) : List TableEntry :=
  (itemsOf units m).flatMap Item.entries

def ModuleScope.add (s : ModuleScope) : TableEntry → ModuleScope
  | .name name binding => s.bind name binding
  | .glob path => s.addGlob path

theorem foldl_add_importEntries (s : ModuleScope) (name : String) (target : WrittenPath) :
    (importEntries name target).foldl ModuleScope.add s = s.bindImport name target := by
  unfold importEntries ModuleScope.bindImport
  split <;> rfl

mutual

theorem foldl_add_entriesBelow (path : WrittenPath) (tree : UseTree) (s : ModuleScope) :
    (tree.entriesBelow path).foldl ModuleScope.add s = tree.bindAt path s := by
  match tree with
  | .path i rest => exact foldl_add_entriesBelow (path.append [i.name]) rest s
  | .name i =>
    rw [UseTree.entriesBelow, UseTree.bindAt]
    split
    case isTrue =>
      cases path.segments.getLast? with
      | none => rfl
      | some last => simpa using foldl_add_importEntries s last path
    case isFalse => exact foldl_add_importEntries s _ _
  | .rename i newName => exact foldl_add_importEntries s _ _
  | .glob => rfl
  | .group trees => exact foldl_add_allEntriesBelow path trees s

theorem foldl_add_allEntriesBelow (path : WrittenPath) (trees : List UseTree) (s : ModuleScope) :
    (UseTree.allEntriesBelow path trees).foldl ModuleScope.add s =
      UseTree.bindAll path trees s := by
  match trees with
  | [] => rfl
  | t :: ts =>
    rw [UseTree.allEntriesBelow, UseTree.bindAll, List.foldl_append, foldl_add_entriesBelow,
      foldl_add_allEntriesBelow]

end

/-- An item is bound by making its entries. -/
theorem foldl_add_entries (s : ModuleScope) (item : Item) :
    item.entries.foldl ModuleScope.add s = s.bindItem item := by
  cases item with
  | use leadingColon tree => exact foldl_add_entriesBelow _ tree s
  | externCrate name newName => exact foldl_add_importEntries s _ _
  | _ => rfl

theorem foldl_add_flatMap_entries (items : List Item) (s : ModuleScope) :
    (items.flatMap Item.entries).foldl ModuleScope.add s = items.foldl ModuleScope.bindItem s := by
  rw [List.foldl_flatMap]
  congr 1
  funext s item
  exact foldl_add_entries s item

/-- No two entries give one name two meanings. -/
def EntriesAgree (entries : List TableEntry) : Prop :=
  ∀ name b b', .name name b ∈ entries → .name name b' ∈ entries → b = b'

/-- No module binds a name in two ways. -/
def BindsConsistently (units : List SourceUnit) : Prop := ∀ m, EntriesAgree (entriesOf units m)

def TableEntry.agrees : TableEntry → TableEntry → Bool
  | .name n b, .name n' b' => n != n' || b = b'
  | _, _ => true

theorem entriesAgree_iff {entries : List TableEntry} :
    EntriesAgree entries ↔ ∀ e ∈ entries, ∀ e' ∈ entries, e.agrees e' := by
  constructor
  · intro h e he e' he'
    cases e with
    | glob path => rfl
    | name n b =>
      cases e' with
      | glob path => rfl
      | name n' b' =>
        by_cases hn : n = n'
        · subst hn
          simpa [TableEntry.agrees] using h n b b' he he'
        · simp [TableEntry.agrees, hn]
  · intro h name b b' hb hb'
    simpa [TableEntry.agrees] using h _ hb _ hb'

instance (entries : List TableEntry) : Decidable (EntriesAgree entries) :=
  decidable_of_iff _ entriesAgree_iff.symm

/-- Only the modules that are written have entries. -/
theorem bindsConsistently_iff {units : List SourceUnit} :
    BindsConsistently units ↔
      ∀ m ∈ (writtenModules units).map (·.1), EntriesAgree (entriesOf units m) := by
  refine ⟨fun h m _ => h m, fun h m => ?_⟩
  by_cases hm : m ∈ (writtenModules units).map (·.1)
  · exact h m hm
  · have hnone : entriesOf units m = [] := by
      have hfilter : (writtenModules units).filter (·.1 = m) = [] :=
        List.filter_eq_nil_iff.mpr fun body hbody heq =>
          hm (List.mem_map.mpr ⟨body, hbody, by simpa using heq⟩)
      rw [entriesOf, itemsOf, hfilter]
      rfl
    intro name b b' hb
    rw [hnone] at hb
    cases hb

instance (units : List SourceUnit) : Decidable (BindsConsistently units) :=
  decidable_of_iff _ bindsConsistently_iff.symm

/-- What an entry gives the name. -/
def TableEntry.binding? (name : String) : TableEntry → Option Binding
  | .name n b => if n = name then some b else none
  | .glob _ => none

/-- The path that an entry imports everything from. -/
def TableEntry.glob? : TableEntry → Option WrittenPath
  | .name _ _ => none
  | .glob path => some path

/-- What the last of the entries for the name gives it. -/
def lastBinding? (entries : List TableEntry) (name : String) : Option Binding :=
  (entries.filterMap (·.binding? name)).getLast?

theorem TableEntry.binding?_eq_some_iff {e : TableEntry} {name : String} {b : Binding} :
    e.binding? name = some b ↔ e = .name name b := by
  cases e with
  | glob path => simp [binding?]
  | name n c =>
    by_cases hn : n = name <;> simp [binding?, hn]

theorem TableEntry.glob?_eq_some_iff {e : TableEntry} {path : WrittenPath} :
    e.glob? = some path ↔ e = .glob path := by
  cases e <;> simp [glob?]

theorem lastBinding?_cons (e : TableEntry) (rest : List TableEntry) (name : String) :
    lastBinding? (e :: rest) name = (lastBinding? rest name).or (e.binding? name) := by
  unfold lastBinding?
  cases hb : e.binding? name with
  | none => rw [List.filterMap_cons_none hb, Option.or_none]
  | some b =>
    rw [List.filterMap_cons_some hb, List.getLast?_cons]
    cases (rest.filterMap (·.binding? name)).getLast? <;> rfl

theorem mem_of_lastBinding? {entries : List TableEntry} {name : String} {b : Binding}
    (h : lastBinding? entries name = some b) : .name name b ∈ entries := by
  obtain ⟨e, he, hb⟩ := List.mem_filterMap.mp (List.mem_of_getLast? h)
  exact TableEntry.binding?_eq_some_iff.mp hb ▸ he

theorem exists_lastBinding? {entries : List TableEntry} {name : String} {b : Binding}
    (h : .name name b ∈ entries) : ∃ b', lastBinding? entries name = some b' := by
  have hb : b ∈ entries.filterMap (·.binding? name) :=
    List.mem_filterMap.mpr ⟨_, h, TableEntry.binding?_eq_some_iff.mpr rfl⟩
  exact ⟨_, List.getLast?_eq_some_getLast (List.ne_nil_of_mem hb)⟩

namespace ModuleScope

@[simp]
theorem get?_empty (name : String) : empty.get? name = none := rfl

theorem get?_bind (s : ModuleScope) (name other : String) (b : Binding) :
    (s.bind name b).get? other = if other = name then some b else s.get? other := by
  unfold bind get?
  by_cases h : other = name
  · simp [h]
  · have hb : (other == name) = false := by simp [h]
    simp [List.lookup_cons, hb, h, lookup_filter_ne h]

theorem get?_add (s : ModuleScope) (e : TableEntry) (name : String) :
    (s.add e).get? name = (e.binding? name).or (s.get? name) := by
  cases e with
  | glob path => rfl
  | name n b =>
    rw [show s.add (.name n b) = s.bind n b from rfl, get?_bind]
    by_cases hn : name = n
    · simp [TableEntry.binding?, hn]
    · simp [TableEntry.binding?, hn, Ne.symm hn]

/-- Of the entries that give a name something the last decides. -/
theorem get?_foldl_add_eq (entries : List TableEntry) (s : ModuleScope) (name : String) :
    (entries.foldl add s).get? name = (lastBinding? entries name).or (s.get? name) := by
  induction entries generalizing s with
  | nil => rfl
  | cons e rest ih => rw [List.foldl_cons, ih, get?_add, lastBinding?_cons, Option.or_assoc]

theorem get?_foldl_add {entries : List TableEntry} (h : EntriesAgree entries) {name : String}
    {b : Binding} :
    (entries.foldl add empty).get? name = some b ↔ .name name b ∈ entries := by
  rw [get?_foldl_add_eq, get?_empty, Option.or_none]
  refine ⟨mem_of_lastBinding?, fun hb => ?_⟩
  obtain ⟨b', hb'⟩ := exists_lastBinding? hb
  rw [hb', h name b' b (mem_of_lastBinding? hb') hb]

/-- The globs stand in the order of their entries. -/
theorem globs_foldl_add (entries : List TableEntry) (s : ModuleScope) :
    (entries.foldl add s).globs = s.globs ++ entries.filterMap TableEntry.glob? := by
  induction entries generalizing s with
  | nil => simp
  | cons e rest ih =>
    rw [List.foldl_cons, ih]
    cases e <;> simp [add, bind, addGlob, TableEntry.glob?, List.filterMap_cons]

theorem mem_globs_foldl_add {entries : List TableEntry} {s : ModuleScope} {path : WrittenPath} :
    path ∈ (entries.foldl add s).globs ↔ path ∈ s.globs ∨ .glob path ∈ entries := by
  simp [globs_foldl_add, TableEntry.glob?_eq_some_iff]

end ModuleScope

end RowFactory
