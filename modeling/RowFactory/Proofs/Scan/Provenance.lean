import RowFactory.Proofs.Scan.Rearrangement

namespace RowFactory

/-- The table imports a name, or everything, from the path. -/
def ModuleScope.Imports (s : ModuleScope) (source : WrittenPath) : Prop :=
  (∃ name, s.get? name = some (.imported source)) ∨ source ∈ s.globs

def LookupState.names : LookupState → List String
  | .written m path _ => m.segments ++ path.segments
  | .canonical segments => segments

namespace Scopes

/-- Some module imports everything from no path at all (`use *;`), and does not bind the name. -/
def LeavesOpen (scopes : Scopes) (name : String) : Prop :=
  ∃ m scope, scopes.get? m = some scope ∧ scope.get? name = none ∧
    ∃ glob ∈ scope.globs, glob.segments = []

/-- The path, or one that begins with an imported path, or one that begins with a name left
open. -/
inductive Spelled (scopes : Scopes) (path : List String) : List String → Prop
  | itself : Spelled scopes path path
  | imported {m : ModulePath} {scope : ModuleScope} {source : WrittenPath} {found : List String} :
    scopes.get? m = some scope → scope.Imports source → source.segments ≠ [] →
    source.segments <+: found → Spelled scopes path found
  | leftOpen {name : String} (rest : List String) : scopes.LeavesOpen name →
    Spelled scopes path (name :: rest)

/-- The name occurs in the path of a module, or in one that a module imports from. -/
def Mentions (scopes : Scopes) (name : String) : Prop :=
  ∃ m scope, scopes.get? m = some scope ∧
    (name ∈ m.segments ∨ ∃ source, scope.Imports source ∧ name ∈ source.segments)

/-- A name is imported from a path that has names. -/
def ImportsFromNames (scopes : Scopes) : Prop :=
  ∀ m scope, scopes.get? m = some scope → ∀ name target,
    scope.get? name = some (.imported target) → target.segments ≠ []

variable {scopes : Scopes} {m : ModulePath} {path : List String}

theorem exists_scope_of_bound? {lookup : Lookup} {name : String} {b : Binding}
    (h : scopes.bound? m lookup name = some b) :
    ∃ scope, scopes.get? m = some scope ∧ scope.get? name = some b := by
  unfold bound? at h
  split at h
  · cases h
  · cases hs : scopes.get? m with
    | none => simp [hs, ModuleScope.empty, ModuleScope.get?] at h
    | some scope => exact ⟨scope, rfl, by simpa [hs] using h⟩

theorem spelled_append_import {scope : ModuleScope} {name : String} {target : WrittenPath}
    (hnames : scopes.ImportsFromNames) (hs : scopes.get? m = some scope)
    (hb : scope.get? name = some (.imported target)) (rest : List String) :
    scopes.Spelled path (target.append rest).segments :=
  .imported hs (.inl ⟨name, hb⟩) (hnames m scope hs name target hb) (List.prefix_append _ _)

/-- A glob in front of a path either supplies its own names or leaves the path as it is. -/
theorem spelled_append_glob {scope : ModuleScope} {glob : WrittenPath} {tail : List String}
    (hs : scopes.get? m = some scope) (hg : glob ∈ scope.globs)
    (h : glob.segments = [] → scopes.Spelled path tail) :
    scopes.Spelled path (glob.append tail).segments := by
  by_cases hglob : glob.segments = []
  · rw [show (glob.append tail).segments = glob.segments ++ tail from rfl, hglob]
    exact h hglob
  · exact .imported hs (.inr hg) hglob (List.prefix_append _ _)

/-- A state of the crate whose path, if it is not one from the root, is spelled somewhere. -/
def IsSpelled (scopes : Scopes) (path : List String) (state : LookupState) : Prop :=
  state.IsInCrate ∧ ∀ m written lookup, state = .written m written lookup →
    scopes.Spelled path written.segments

theorem keeps_isSpelled (hnames : scopes.ImportsFromNames) {state : LookupState} {move : Move}
    (hstate : scopes.IsSpelled path state) (hm : scopes.Offers state move) :
    move.Keeps (scopes.IsSpelled path) fun found =>
      found ≠ [] ∧ (found.head? = some "crate" ∨ scopes.Spelled path found) := by
  have hcrate := keeps_isInCrate hstate.1 hm
  have follows : ∀ {m : ModulePath} {written : WrittenPath} {lookup : Lookup}, m.IsInCrate →
      scopes.Spelled path written.segments →
      scopes.IsSpelled path (.written m written lookup) := by
    rintro m written lookup hm h
    refine ⟨hm, ?_⟩
    rintro m' written' lookup' heq
    cases heq
    exact h
  have placed : ∀ {segments : List String}, segments.head? = some "crate" →
      scopes.IsSpelled path (.canonical segments) := fun h => ⟨h, by simp⟩
  cases hm with
  | ends _ =>
    have hhead : List.head? _ = some "crate" := hstate.1
    exact ⟨fun hnil => by simp [hnil] at hhead, .inl hhead⟩
  | importOnTheWay he hb =>
    obtain ⟨-, -, hs⟩ := eq_of_enclosing? he
    exact follows hcrate (spelled_append_import hnames hs hb _)
  | globOnTheWay he hb hg =>
    obtain ⟨-, -, hs⟩ := eq_of_enclosing? he
    refine follows hcrate (spelled_append_glob hs hg fun hglob => ?_)
    exact .leftOpen _ ⟨_, _, hs, hb, _, hg, hglob⟩
  | outside _ hp => exact ⟨hp, .inr (hstate.2 _ _ _ rfl)⟩
  | placed _ _ | declared _ _ => exact placed hcrate
  | imported _ hb =>
    obtain ⟨scope, hs, hb⟩ := exists_scope_of_bound? hb
    exact follows hcrate (spelled_append_import hnames hs hb _)
  | glob _ _ _ hs hg =>
    exact follows hcrate (spelled_append_glob hs hg fun _ => hstate.2 _ _ _ rfl)
  | prelude hp _ _ => exact ⟨by simp [hp.segments], .inr (hstate.2 _ _ _ rfl)⟩

theorem spelled_of_mem_resolve (hnames : scopes.ImportsFromNames) (hm : m.IsInCrate)
    {written : WrittenPath} {found : List String} (h : found ∈ scopes.resolve m written) :
    found ≠ [] ∧ (found.head? = some "crate" ∨ scopes.Spelled written.segments found) := by
  rw [mem_resolve_iff_reaches] at h
  refine result_of_reaches (fun _ _ => keeps_isSpelled hnames) h ⟨hm, ?_⟩
  rintro m' written' lookup' heq
  cases heq
  exact .itself

theorem mentions_of_imports {scope : ModuleScope} {source : WrittenPath}
    (hs : scopes.get? m = some scope) (hi : scope.Imports source) :
    ∀ name ∈ source.segments, scopes.Mentions name :=
  fun _ hname => ⟨m, scope, hs, .inr ⟨source, hi, hname⟩⟩

theorem mem_of_mem_ancestor {base : ModulePath} {n : Nat} (h : m.ancestor? n = some base)
    {name : String} (hname : name ∈ base.segments) : name ∈ m.segments := by
  induction n generalizing m with
  | zero => exact Option.some.inj h ▸ hname
  | succ n ih =>
    obtain ⟨parent, hp, h⟩ := Option.bind_eq_some_iff.mp h
    have hparent := ih h
    unfold ModulePath.parent? at hp
    split at hp
    case isTrue => cases hp
    case isFalse =>
      obtain rfl := Option.some.inj hp
      exact (List.dropLast_sublist _).subset hparent

theorem mem_of_mem_placed? {segments placed : List String} (h : m.placed? segments = some placed)
    {name : String} (hname : name ∈ placed) : name ∈ m.segments ++ segments := by
  unfold ModulePath.placed? at h
  split at h
  · exact List.mem_append_right _ (Option.some.inj h ▸ hname)
  · rw [← Option.some.inj h] at hname
    exact (List.mem_append.mp hname).elim (List.mem_append_left _) fun hrest =>
      List.mem_append_right _ (List.mem_cons_of_mem _ hrest)
  · obtain ⟨base, hbase, rfl⟩ := Option.map_eq_some_iff.mp h
    exact (List.mem_append.mp hname).elim
      (fun hm => List.mem_append_left _ (mem_of_mem_ancestor hbase hm)) fun hrest =>
        List.mem_append_right _ (List.mem_of_mem_drop hrest)
  · cases h

/-- Names come from where the search began, or are mentioned somewhere. -/
theorem keeps_names {start : List String} {state : LookupState} {move : Move}
    (h : ∀ name ∈ state.names, name ∈ start ∨ scopes.Mentions name)
    (hm : scopes.Offers state move) :
    move.Keeps (fun next => ∀ name ∈ next.names, name ∈ start ∨ scopes.Mentions name)
      fun found => ∀ name ∈ found, name ∈ start ∨ scopes.Mentions name := by
  have hmodule : ∀ {m : ModulePath} {path : WrittenPath} {lookup : Lookup},
      state = .written m path lookup → (∀ name ∈ m.segments, name ∈ start ∨ scopes.Mentions name) ∧
        ∀ name ∈ path.segments, name ∈ start ∨ scopes.Mentions name := by
    rintro m path lookup rfl
    exact List.forall_mem_append.mp h
  have hsource : ∀ {m : ModulePath} {scope : ModuleScope} {source : WrittenPath},
      scopes.get? m = some scope → scope.Imports source →
      ∀ name ∈ source.segments, name ∈ start ∨ scopes.Mentions name :=
    fun hs hi name hname => .inr (mentions_of_imports hs hi name hname)
  cases hm with
  | ends _ => exact h
  | importOnTheWay he hb =>
    obtain ⟨rfl, -, hs⟩ := eq_of_enclosing? he
    obtain ⟨hm, hrest⟩ := List.forall_mem_append.mp h
    refine List.forall_mem_append.mpr ⟨hm, List.forall_mem_append.mpr ⟨?_, ?_⟩⟩
    · exact hsource hs (.inl ⟨_, hb⟩)
    · exact (List.forall_mem_cons.mp hrest).2
  | globOnTheWay he hb hg =>
    obtain ⟨rfl, -, hs⟩ := eq_of_enclosing? he
    obtain ⟨hm, hrest⟩ := List.forall_mem_append.mp h
    exact List.forall_mem_append.mpr ⟨hm, List.forall_mem_append.mpr ⟨hsource hs (.inr hg), hrest⟩⟩
  | outside _ _ | prelude _ _ _ => exact (hmodule rfl).2
  | placed _ hp => exact fun name hname => h name (mem_of_mem_placed? hp hname)
  | declared _ _ => exact h
  | imported hp hb =>
    obtain ⟨scope, hs, hb⟩ := exists_scope_of_bound? hb
    obtain ⟨hm, hpath⟩ := hmodule rfl
    rw [hp.segments] at hpath
    refine List.forall_mem_append.mpr ⟨hm, List.forall_mem_append.mpr ⟨?_, ?_⟩⟩
    · exact hsource hs (.inl ⟨_, hb⟩)
    · exact (List.forall_mem_cons.mp hpath).2
  | glob _ _ _ hs hg =>
    obtain ⟨hm, hpath⟩ := hmodule rfl
    exact List.forall_mem_append.mpr ⟨hm, List.forall_mem_append.mpr ⟨hsource hs (.inr hg), hpath⟩⟩

theorem mentions_of_mem_resolve {written : WrittenPath} {found : List String}
    (h : found ∈ scopes.resolve m written) :
    ∀ name ∈ found, name ∈ m.segments ++ written.segments ∨ scopes.Mentions name := by
  rw [mem_resolve_iff_reaches] at h
  exact result_of_reaches (fun _ _ => keeps_names) h fun name hname => .inl hname

end Scopes

mutual

/-- The names that paths of a `use` begin with. -/
def UseTree.firstNames : UseTree → List String
  | .path i _ => [i.name]
  | .name i => [i.name]
  | .rename i _ => [i.name]
  | .glob => []
  | .group trees => UseTree.allFirstNames trees

def UseTree.allFirstNames : List UseTree → List String
  | [] => []
  | t :: ts => t.firstNames ++ UseTree.allFirstNames ts

end

def Item.firstNames : Item → List String
  | .use _ tree => tree.firstNames
  | .externCrate name _ => [name.name]
  | _ => []

/-- The name is the first of a `use`, of an `extern crate` or of a path that a struct derives. -/
def SpellsCrate (units : List SourceUnit) (name : String) : Prop :=
  (∃ m, ∃ item ∈ itemsOf units m, name ∈ item.firstNames) ∨
    ∃ d ∈ declaredStructs units, ∃ p ∈ derivePaths d.2.attrs,
      p.written.segments.head? = some name

/-- What an entry imports from. -/
def TableEntry.source? : TableEntry → Option WrittenPath
  | .name _ (.imported target) => some target
  | .name _ .declared => none
  | .glob path => some path

theorem of_mem_importEntries {name : String} {target source : WrittenPath} {e : TableEntry}
    (he : e ∈ importEntries name target) (hs : e.source? = some source) :
    source = target ∧ source.segments ≠ [] := by
  unfold importEntries at he
  split at he
  case isTrue => cases he
  case isFalse htarget =>
    obtain rfl := List.mem_singleton.mp he
    obtain rfl := Option.some.inj hs
    exact ⟨rfl, fun hnil => htarget (by simp [hnil])⟩

mutual

/-- A tree below `path` imports from `path` itself, or from what goes on with one of the tree's
first names; a name it imports from no empty path. -/
theorem exists_tail_of_mem_entriesBelow {path source : WrittenPath} (tree : UseTree)
    {e : TableEntry} (he : e ∈ tree.entriesBelow path) (hs : e.source? = some source) :
    (∃ tail, source.segments = path.segments ++ tail ∧
      ∀ first, tail.head? = some first → first ∈ tree.firstNames) ∧
    (e = .glob source ∨ source.segments ≠ []) := by
  match tree with
  | .path i rest =>
    obtain ⟨⟨tail, htail, _⟩, hne⟩ := exists_tail_of_mem_entriesBelow rest he hs
    refine ⟨⟨i.name :: tail, by simp [htail, WrittenPath.append], fun first hfirst => ?_⟩, hne⟩
    simpa [UseTree.firstNames, eq_comm] using hfirst
  | .name i =>
    rw [UseTree.entriesBelow] at he
    split at he
    case isTrue =>
      obtain ⟨last, _, he⟩ := List.mem_flatMap.mp he
      obtain ⟨rfl, hne⟩ := of_mem_importEntries he hs
      exact ⟨⟨[], by simp, by simp⟩, .inr hne⟩
    case isFalse =>
      obtain ⟨rfl, hne⟩ := of_mem_importEntries he hs
      exact ⟨⟨[i.name], rfl, by simp [UseTree.firstNames, eq_comm]⟩, .inr hne⟩
  | .rename i newName =>
    obtain ⟨rfl, hne⟩ := of_mem_importEntries he hs
    refine ⟨?_, .inr hne⟩
    split
    case isTrue => exact ⟨[], by simp, by simp⟩
    case isFalse => exact ⟨[i.name], rfl, by simp [UseTree.firstNames, eq_comm]⟩
  | .glob =>
    obtain rfl := List.mem_singleton.mp he
    obtain rfl := Option.some.inj hs
    exact ⟨⟨[], by simp, by simp⟩, .inl rfl⟩
  | .group trees => exact exists_tail_of_mem_allEntriesBelow trees he hs

theorem exists_tail_of_mem_allEntriesBelow {path source : WrittenPath} (trees : List UseTree)
    {e : TableEntry} (he : e ∈ UseTree.allEntriesBelow path trees)
    (hs : e.source? = some source) :
    (∃ tail, source.segments = path.segments ++ tail ∧
      ∀ first, tail.head? = some first → first ∈ UseTree.allFirstNames trees) ∧
    (e = .glob source ∨ source.segments ≠ []) := by
  match trees with
  | [] => cases he
  | t :: ts =>
    rcases List.mem_append.mp he with he | he
    · obtain ⟨⟨tail, htail, hfirst⟩, hne⟩ := exists_tail_of_mem_entriesBelow t he hs
      exact ⟨⟨tail, htail, fun first h => List.mem_append_left _ (hfirst first h)⟩, hne⟩
    · obtain ⟨⟨tail, htail, hfirst⟩, hne⟩ := exists_tail_of_mem_allEntriesBelow ts he hs
      exact ⟨⟨tail, htail, fun first h => List.mem_append_right _ (hfirst first h)⟩, hne⟩

end

/-- An item imports from the crate itself, or from a path that begins with one of its first names; a
name it imports from no empty path. -/
theorem source_of_mem_entries {item : Item} {e : TableEntry} {source : WrittenPath}
    (he : e ∈ item.entries) (hs : e.source? = some source) :
    (∀ first, source.segments.head? = some first → first = "crate" ∨ first ∈ item.firstNames) ∧
    (e = .glob source ∨ source.segments ≠ []) := by
  cases item with
  | use leadingColon tree =>
    obtain ⟨⟨tail, htail, hfirst⟩, hne⟩ := exists_tail_of_mem_entriesBelow tree he hs
    exact ⟨fun first h => .inr (hfirst first (by simpa [htail] using h)), hne⟩
  | externCrate name newName =>
    obtain ⟨rfl, hne⟩ := of_mem_importEntries he hs
    refine ⟨fun first h => ?_, .inr hne⟩
    unfold externTarget at h
    split at h
    · exact .inl (by simpa [eq_comm] using h)
    · exact .inr (by simpa [Item.firstNames, eq_comm] using h)
  | _ =>
    obtain ⟨name, _, rfl⟩ := List.mem_map.mp he
    cases hs

section

variable {units : List SourceUnit} {m : ModulePath} {scope : ModuleScope} {source : WrittenPath}

theorem importsFromNames_ofUnits (units : List SourceUnit) :
    (Scopes.ofUnits units).ImportsFromNames := by
  intro m scope hs name target hb
  obtain ⟨item, _, he⟩ := List.mem_flatMap.mp (mem_entriesOf_of_get? hs hb)
  exact (source_of_mem_entries he rfl).2.resolve_left (by simp)

theorem exists_entry_of_imports (hs : (Scopes.ofUnits units).get? m = some scope)
    (hi : scope.Imports source) : ∃ e ∈ entriesOf units m, e.source? = some source := by
  rcases hi with ⟨name, hb⟩ | hg
  · exact ⟨_, mem_entriesOf_of_get? hs hb, rfl⟩
  · exact ⟨_, mem_entriesOf_of_mem_globs hs hg, rfl⟩

theorem exists_item_of_imports (hs : (Scopes.ofUnits units).get? m = some scope)
    (hi : scope.Imports source) {first : String} (hfirst : source.segments.head? = some first) :
    first = "crate" ∨ ∃ item ∈ itemsOf units m, first ∈ item.firstNames := by
  obtain ⟨e, he, hsource⟩ := exists_entry_of_imports hs hi
  obtain ⟨item, hitem, he⟩ := List.mem_flatMap.mp he
  exact ((source_of_mem_entries he hsource).1 first hfirst).imp_right fun h => ⟨item, hitem, h⟩

/-- The first name of a path that a struct's derive stands for. -/
theorem spellsCrate_or_leavesOpen {d : ModulePath × StructItem} (hd : d ∈ declaredStructs units)
    {p : Path} (hp : p ∈ derivePaths d.2.attrs) {first : String} {rest : List String}
    (hfirst : first ≠ "crate")
    (h : (Scopes.ofUnits units).Spelled p.written.segments (first :: rest)) :
    SpellsCrate units first ∨ (Scopes.ofUnits units).LeavesOpen first := by
  generalize hpath : p.written.segments = path at h
  cases h with
  | itself => exact .inl (.inr ⟨d, hd, p, hp, by simp [hpath]⟩)
  | @imported m scope source _ hs hi hne hprefix =>
    obtain ⟨name, tail, hsource⟩ := List.exists_cons_of_ne_nil hne
    obtain rfl : name = first := by
      rw [hsource] at hprefix
      exact (List.cons_prefix_cons.mp hprefix).1
    obtain ⟨item, hitem, hname⟩ :=
      (exists_item_of_imports hs hi (by simp [hsource])).resolve_left hfirst
    exact .inl (.inl ⟨m, item, hitem, hname⟩)
  | leftOpen _ hopen => exact .inr hopen

end

/-- What a path may stand for in a module of the crate is a path from the crate's root, or the path
itself, or begins with all names of a path that some module imports from, or with a name that a
module leaves open by importing everything from no path; and all its names are written somewhere. So
a type is found for a marker of another crate only if that crate's name is the first of a `use`, of
an `extern crate` or of a derived path, or is left open. -/
theorem candidates_are_spelled {units : List SourceUnit}
    (hunits : ∀ u ∈ units, u.module.IsInCrate) :
    (∀ (m : ModulePath) (path : WrittenPath), m.IsInCrate →
      ∀ found ∈ (Scopes.ofUnits units).resolve m path,
        (found.head? = some "crate" ∨ (Scopes.ofUnits units).Spelled path.segments found) ∧
        ∀ name ∈ found, name ∈ m.segments ++ path.segments ∨
          (Scopes.ofUnits units).Mentions name) ∧
    ∀ config, ∃ types, (discover units config).run .never = (.ok types, []) ∧
      ∀ t ∈ types, ∃ d ∈ declaredStructs units, declaredName d = t.name ∧
        carriesMarker (.ofUnits units) config d.1 d.2 ∧
        ∀ p ∈ derivePaths d.2.attrs, ∀ marker ∈ (Scopes.ofUnits units).resolve d.1 p.written,
          marker.head? ≠ some "crate" → ∃ crate rest, marker = crate :: rest ∧
            (SpellsCrate units crate ∨ (Scopes.ofUnits units).LeavesOpen crate) := by
  have hnames := importsFromNames_ofUnits units
  refine ⟨fun m path hm found hfound => ?_, fun config => ?_⟩
  · have hspelled := (Scopes.spelled_of_mem_resolve hnames hm hfound).2
    exact ⟨hspelled, Scopes.mentions_of_mem_resolve hfound⟩
  · refine ⟨_, (yields_discover units config).run, fun t ht => ?_⟩
    obtain ⟨d, hd, rfl⟩ := List.mem_map.mp ht
    obtain ⟨hd, hmark⟩ := List.mem_filter.mp (mem_of_mem_eraseDupsBy hd)
    refine ⟨d, hd, rfl, hmark, fun p hp marker hmarker houtside => ?_⟩
    obtain ⟨hne, hspelled⟩ := Scopes.spelled_of_mem_resolve hnames
      (isInCrate_of_mem_declaredStructs hunits hd) hmarker
    obtain ⟨crate, rest, rfl⟩ := List.exists_cons_of_ne_nil hne
    have hcrate : crate ≠ "crate" := fun heq => houtside (by simp [heq])
    exact ⟨crate, rest, rfl,
      spellsCrate_or_leavesOpen hd hp hcrate (hspelled.resolve_left houtside)⟩

/-- In the crate's root `crate::prelude::*` stands in front of what `Mapped` stands for. -/
theorem candidates_are_spelled_orders :
    (∀ u ∈ [ordersRoot, ordersPrelude], u.module.IsInCrate) ∧ ModulePath.root.IsInCrate ∧
      ["rowmap", "RowMapped"] ∈
        (Scopes.ofUnits [ordersRoot, ordersPrelude]).resolve .root ⟨false, ["Mapped"]⟩ ∧
      (["rowmap", "RowMapped"].head? = some "crate" ∨
        (Scopes.ofUnits [ordersRoot, ordersPrelude]).Spelled ["Mapped"] ["rowmap", "RowMapped"]) := by
  have hunits : ∀ u ∈ [ordersRoot, ordersPrelude], u.module.IsInCrate := by decide
  have hfound : ["rowmap", "RowMapped"] ∈
      (Scopes.ofUnits [ordersRoot, ordersPrelude]).resolve .root ⟨false, ["Mapped"]⟩ := by
    decide +kernel
  exact ⟨hunits, rfl, hfound,
    ((candidates_are_spelled hunits).1 .root ⟨false, ["Mapped"]⟩ rfl _ hfound).1⟩

/-- A module that imports everything from no path (`use *;`). -/
def openRoot : SourceUnit :=
  ⟨.root, [.use false .glob,
    .struct (structDeriving "Customer" ["self", "rowmap", "RowMapped"])]⟩

theorem mem_items_of_mem_itemsOf_openRoot {m : ModulePath} {item : Item}
    (h : item ∈ itemsOf [openRoot] m) : item ∈ openRoot.items := by
  obtain ⟨body, hbody, hitem⟩ := List.mem_flatMap.mp h
  have hwritten : writtenModules [openRoot] = [(.root, openRoot.items)] := rfl
  rw [hwritten, List.mem_filter, List.mem_singleton] at hbody
  rwa [hbody.1] at hitem

/-- There the path `self::rowmap::RowMapped` stands for the marker, though nothing is imported from
a path that has names, and no path begins with `rowmap`. -/
theorem candidate_from_open_module :
    openRoot.module.IsInCrate ∧
      (Scopes.ofUnits [openRoot]).resolve .root ⟨false, ["self", "rowmap", "RowMapped"]⟩ =
        [["rowmap", "RowMapped"]] ∧
      (¬ ∃ m scope source, (Scopes.ofUnits [openRoot]).get? m = some scope ∧
        scope.Imports source ∧ source.segments ≠ []) ∧
      namesFound [openRoot] .default = ["crate::Customer"] ∧ ¬ SpellsCrate [openRoot] "rowmap" := by
  refine ⟨rfl, by decide +kernel, ?_, by decide +kernel, ?_⟩
  · rintro ⟨m, scope, source, hs, hi, hne⟩
    obtain ⟨e, he, hsource⟩ := exists_entry_of_imports hs hi
    obtain ⟨item, hitem, he⟩ := List.mem_flatMap.mp he
    obtain rfl | rfl : item = .use false .glob ∨ item = .struct _ := by
      simpa [openRoot] using mem_items_of_mem_itemsOf_openRoot hitem
    · obtain rfl := List.mem_singleton.mp he
      obtain rfl := Option.some.inj hsource
      exact hne rfl
    · obtain rfl := List.mem_singleton.mp he
      cases hsource
  · rintro (⟨m, item, hitem, hname⟩ | ⟨d, hd, p, hp, hfirst⟩)
    · obtain rfl | rfl : item = .use false .glob ∨ item = .struct _ := by
        simpa [openRoot] using mem_items_of_mem_itemsOf_openRoot hitem
      · cases hname
      · cases hname
    · have hstructs : declaredStructs [openRoot] =
          [(.root, structDeriving "Customer" ["self", "rowmap", "RowMapped"])] := rfl
      have hpaths : (derivePaths (structDeriving "Customer"
          ["self", "rowmap", "RowMapped"]).attrs).map Path.written =
            [⟨false, ["self", "rowmap", "RowMapped"]⟩] := by decide +kernel
      rw [hstructs, List.mem_singleton] at hd
      subst hd
      have hwritten := List.mem_map_of_mem (f := Path.written) hp
      rw [hpaths, List.mem_singleton] at hwritten
      simp [hwritten] at hfirst

end RowFactory
