import Mathlib.Data.List.Nodup
import RowFactory.Proofs.Scan.DeclaredNames
import RowFactory.Proofs.Scan.SameTables
import RowFactory.Proofs.Scan.TableEntries

namespace RowFactory

/-- Sightings of one module are alike if its items make the same entries; nested modules may be
written in them in different ways. -/
inductive Sighting.Alike : Sighting → Sighting → Prop
  | refl (s : Sighting) : Alike s s
  | module (m : ModulePath) {items items' : List Item}
      (entries : ∀ e, e ∈ items.flatMap Item.entries ↔ e ∈ items'.flatMap Item.entries) :
    Alike (.module m items) (.module m items')

theorem Sighting.Alike.symm {x y : Sighting} (h : x.Alike y) : y.Alike x := by
  cases h with
  | refl => exact .refl _
  | module m entries => exact .module m fun e => (entries e).symm

theorem Sighting.Alike.trans {x y z : Sighting} (h : x.Alike y) (h' : y.Alike z) : x.Alike z := by
  cases h with
  | refl => exact h'
  | module m entries =>
    cases h' with
    | refl => exact .module m entries
    | module _ entries' => exact .module m fun e => (entries e).trans (entries' e)

/-- Each sighting of one scan has one like it in the other. -/
structure SameSightings (seen seen' : List Sighting) : Prop where
  forth : ∀ x ∈ seen, ∃ y ∈ seen', x.Alike y
  back : ∀ y ∈ seen', ∃ x ∈ seen, x.Alike y

namespace SameSightings

variable {seen seen' seen'' : List Sighting}

theorem of_mem_iff (h : ∀ x, x ∈ seen ↔ x ∈ seen') : SameSightings seen seen' :=
  ⟨fun x hx => ⟨x, (h x).mp hx, .refl x⟩, fun x hx => ⟨x, (h x).mpr hx, .refl x⟩⟩

theorem refl (seen : List Sighting) : SameSightings seen seen := of_mem_iff fun _ => .rfl

theorem symm (h : SameSightings seen seen') : SameSightings seen' seen where
  forth y hy := (h.back y hy).imp fun _ hx => ⟨hx.1, hx.2.symm⟩
  back x hx := (h.forth x hx).imp fun _ hy => ⟨hy.1, hy.2.symm⟩

theorem trans (h : SameSightings seen seen') (h' : SameSightings seen' seen'') :
    SameSightings seen seen'' where
  forth x hx := by
    obtain ⟨y, hy, hxy⟩ := h.forth x hx
    obtain ⟨z, hz, hyz⟩ := h'.forth y hy
    exact ⟨z, hz, hxy.trans hyz⟩
  back z hz := by
    obtain ⟨y, hy, hyz⟩ := h'.back z hz
    obtain ⟨x, hx, hxy⟩ := h.back y hy
    exact ⟨x, hx, hxy.trans hyz⟩

theorem append {more more' : List Sighting} (h : SameSightings seen seen')
    (hmore : SameSightings more more') : SameSightings (seen ++ more) (seen' ++ more') where
  forth x hx := by
    rcases List.mem_append.mp hx with hx | hx
    · exact (h.forth x hx).imp fun _ hy => ⟨List.mem_append_left _ hy.1, hy.2⟩
    · exact (hmore.forth x hx).imp fun _ hy => ⟨List.mem_append_right _ hy.1, hy.2⟩
  back y hy := by
    rcases List.mem_append.mp hy with hy | hy
    · exact (h.back y hy).imp fun _ hx => ⟨List.mem_append_left _ hx.1, hx.2⟩
    · exact (hmore.back y hy).imp fun _ hx => ⟨List.mem_append_right _ hx.1, hx.2⟩

theorem cons {x y : Sighting} (hxy : x.Alike y) (h : SameSightings seen seen') :
    SameSightings (x :: seen) (y :: seen') := by
  have hsingle : SameSightings [x] [y] := by
    refine ⟨fun z hz => ⟨y, by simp, ?_⟩, fun z hz => ⟨x, by simp, ?_⟩⟩
    · exact List.mem_singleton.mp hz ▸ hxy
    · exact List.mem_singleton.mp hz ▸ hxy
  exact hsingle.append h

theorem mem_struct_iff (h : SameSightings seen seen') (m : ModulePath) (item : StructItem) :
    .struct m item ∈ seen ↔ .struct m item ∈ seen' := by
  constructor
  · intro hx
    obtain ⟨y, hy, hxy⟩ := h.forth _ hx
    cases hxy
    exact hy
  · intro hy
    obtain ⟨x, hx, hxy⟩ := h.back _ hy
    cases hxy
    exact hx

/-- The items with which a module is seen may differ, but not whether it is seen. -/
theorem exists_module (h : SameSightings seen seen') {m : ModulePath} {items : List Item}
    (hm : .module m items ∈ seen) : ∃ items', .module m items' ∈ seen' ∧
      ∀ e, e ∈ items.flatMap Item.entries ↔ e ∈ items'.flatMap Item.entries := by
  obtain ⟨y, hy, hxy⟩ := h.forth _ hm
  cases hxy with
  | refl => exact ⟨items, hy, fun _ => .rfl⟩
  | module _ entries => exact ⟨_, hy, entries⟩

end SameSightings

theorem sightingsAll_eq_flatMap (m : ModulePath) (items : List Item) :
    Item.sightingsAll m items = items.flatMap (Item.sightings m) := by
  induction items with
  | nil => rfl
  | cons item rest ih => rw [Item.sightingsAll, ih, List.flatMap_cons]

theorem mem_modulesSeen {seen : List Sighting} {m : ModulePath} {items : List Item} :
    (m, items) ∈ modulesSeen seen ↔ .module m items ∈ seen := by
  rw [modulesSeen, List.mem_filterMap]
  constructor
  · rintro ⟨x, hx, heq⟩
    cases x <;> cases heq
    exact hx
  · exact fun h => ⟨_, h, rfl⟩

theorem mem_structsSeen {seen : List Sighting} {d : ModulePath × StructItem} :
    d ∈ structsSeen seen ↔ .struct d.1 d.2 ∈ seen := by
  rw [structsSeen, List.mem_filterMap]
  constructor
  · rintro ⟨x, hx, heq⟩
    cases x <;> cases heq
    exact hx
  · exact fun h => ⟨_, h, rfl⟩

theorem mem_entriesOf {units : List SourceUnit} {m : ModulePath} {e : TableEntry} :
    e ∈ entriesOf units m ↔
      ∃ items, .module m items ∈ sightingsOf units ∧ e ∈ items.flatMap Item.entries := by
  simp only [entriesOf, itemsOf, List.mem_flatMap, List.mem_filter, decide_eq_true_eq,
    ← modulesSeen_sightingsOf]
  constructor
  · rintro ⟨i, ⟨⟨m', items⟩, ⟨hbody, rfl⟩, hi⟩, he⟩
    exact ⟨items, mem_modulesSeen.mp hbody, i, hi, he⟩
  · rintro ⟨items, hbody, i, hi, he⟩
    exact ⟨i, ⟨(m, items), ⟨mem_modulesSeen.mpr hbody, rfl⟩, hi⟩, he⟩

theorem get?_ofUnits_eq_entries (units : List SourceUnit) (m : ModulePath)
    [Decidable (∃ items, .module m items ∈ sightingsOf units)] :
    (Scopes.ofUnits units).get? m =
      if ∃ items, .module m items ∈ sightingsOf units then
        some ((entriesOf units m).foldl ModuleScope.add .empty)
      else none := by
  have hwritten : (writtenModules units).any (·.1 = m) = true ↔
      ∃ items, .module m items ∈ sightingsOf units := by
    rw [← modulesSeen_sightingsOf, List.any_eq_true]
    constructor
    · rintro ⟨⟨m', items⟩, hbody, hm⟩
      obtain rfl : m' = m := by simpa using hm
      exact ⟨items, mem_modulesSeen.mp hbody⟩
    · rintro ⟨items, hbody⟩
      exact ⟨(m, items), mem_modulesSeen.mpr hbody, by simp⟩
  rw [Scopes.get?_ofUnits, entriesOf, foldl_add_flatMap_entries]
  simp only [hwritten]

theorem eq_foldl_add_of_get?_ofUnits {units : List SourceUnit} {m : ModulePath}
    {scope : ModuleScope} (h : (Scopes.ofUnits units).get? m = some scope) :
    scope = (entriesOf units m).foldl ModuleScope.add .empty := by
  classical
  rw [get?_ofUnits_eq_entries] at h
  split at h
  · exact (Option.some.inj h).symm
  · cases h

theorem get?_ofUnits_of_mem {units : List SourceUnit} {m : ModulePath} {e : TableEntry}
    (h : e ∈ entriesOf units m) :
    (Scopes.ofUnits units).get? m = some ((entriesOf units m).foldl ModuleScope.add .empty) := by
  classical
  obtain ⟨items, hm, _⟩ := mem_entriesOf.mp h
  rw [get?_ofUnits_eq_entries, if_pos ⟨items, hm⟩]

theorem mem_entriesOf_of_get? {units : List SourceUnit} {m : ModulePath} {scope : ModuleScope}
    {name : String} {b : Binding} (hs : (Scopes.ofUnits units).get? m = some scope)
    (hb : scope.get? name = some b) : .name name b ∈ entriesOf units m := by
  rw [eq_foldl_add_of_get?_ofUnits hs, ModuleScope.get?_foldl_add_eq] at hb
  exact mem_of_lastBinding? (by simpa using hb)

theorem mem_entriesOf_of_mem_globs {units : List SourceUnit} {m : ModulePath}
    {scope : ModuleScope} {glob : WrittenPath}
    (hs : (Scopes.ofUnits units).get? m = some scope) (hg : glob ∈ scope.globs) :
    .glob glob ∈ entriesOf units m := by
  rw [eq_foldl_add_of_get?_ofUnits hs, ModuleScope.mem_globs_foldl_add] at hg
  exact hg.resolve_left (by simp [ModuleScope.empty])

section

variable {units units' : List SourceUnit}

theorem entriesOf_subset (h : SameSightings (sightingsOf units) (sightingsOf units'))
    (m : ModulePath) : entriesOf units m ⊆ entriesOf units' m := by
  intro e he
  obtain ⟨items, hbody, he⟩ := mem_entriesOf.mp he
  obtain ⟨items', hbody', heq⟩ := h.exists_module hbody
  exact mem_entriesOf.mpr ⟨items', hbody', (heq e).mp he⟩

theorem sameAs_of_entries {entries entries' : List TableEntry} (hagree : EntriesAgree entries)
    (h : ∀ e, e ∈ entries ↔ e ∈ entries') :
    (entries.foldl ModuleScope.add .empty).SameAs (entries'.foldl ModuleScope.add .empty) where
  names name := by
    have hagree' : EntriesAgree entries' := fun name b b' hb hb' =>
      hagree name b b' ((h _).mpr hb) ((h _).mpr hb')
    refine Option.ext fun b => ?_
    rw [ModuleScope.get?_foldl_add hagree, ModuleScope.get?_foldl_add hagree', h]
  globs path := by
    rw [ModuleScope.mem_globs_foldl_add, ModuleScope.mem_globs_foldl_add, h]

/-- Where no name is bound in two ways, the tables tell nothing of the order of the text. -/
theorem sameAs_ofUnits (hbinds : BindsConsistently units)
    (h : SameSightings (sightingsOf units) (sightingsOf units')) :
    (Scopes.ofUnits units).SameAs (.ofUnits units') := by
  classical
  intro m
  have hseen : (∃ items, .module m items ∈ sightingsOf units) ↔
      ∃ items, .module m items ∈ sightingsOf units' :=
    ⟨fun ⟨_, hm⟩ => (h.exists_module hm).imp fun _ => And.left,
      fun ⟨_, hm⟩ => (h.symm.exists_module hm).imp fun _ => And.left⟩
  rw [get?_ofUnits_eq_entries, get?_ofUnits_eq_entries]
  simp only [hseen]
  split
  · exact .some (sameAs_of_entries (hbinds m) fun e =>
      ⟨fun he => entriesOf_subset h m he, fun he => entriesOf_subset h.symm m he⟩)
  · exact .none

theorem mem_declaredStructs_of_same (h : SameSightings (sightingsOf units) (sightingsOf units'))
    {d : ModulePath × StructItem} : d ∈ declaredStructs units ↔ d ∈ declaredStructs units' := by
  rw [← structsSeen_sightingsOf, ← structsSeen_sightingsOf, mem_structsSeen, mem_structsSeen,
    h.mem_struct_iff]

theorem mem_markedStructs_of_same (hbinds : BindsConsistently units)
    (h : SameSightings (sightingsOf units) (sightingsOf units')) {config : Config}
    {d : ModulePath × StructItem} :
    d ∈ markedStructs units config ↔ d ∈ markedStructs units' config := by
  obtain ⟨m, item⟩ := d
  simp only [markedStructs, List.mem_filter, mem_declaredStructs_of_same h,
    carriesMarker_of_sameAs (sameAs_ofUnits hbinds h)]

theorem names_firstMarked (units : List SourceUnit) (config : Config) :
    (firstMarkedStructs units config).map declaredName =
      ((markedStructs units config).map declaredName).eraseDups :=
  map_eraseDupsBy _ _

theorem perm_names_of_same (hbinds : BindsConsistently units)
    (h : SameSightings (sightingsOf units) (sightingsOf units')) (config : Config) :
    ((firstMarkedStructs units config).map declaredName).Perm
      ((firstMarkedStructs units' config).map declaredName) := by
  rw [names_firstMarked, names_firstMarked]
  refine (List.perm_ext_iff_of_nodup (nodup_eraseDups _) (nodup_eraseDups _)).mpr fun name => ?_
  simp only [List.mem_eraseDups, List.mem_map, mem_markedStructs_of_same hbinds h]

/-- Where structs have different names, each that is marked is the first of its name. -/
theorem mem_firstMarked_iff {config : Config}
    (hnames : ∀ d ∈ declaredStructs units, ∀ d' ∈ declaredStructs units,
      declaredName d = declaredName d' → d = d') {d : ModulePath × StructItem} :
    d ∈ firstMarkedStructs units config ↔ d ∈ markedStructs units config := by
  refine ⟨mem_of_mem_eraseDupsBy, fun hd => ?_⟩
  have hname : declaredName d ∈ (firstMarkedStructs units config).map declaredName := by
    rw [names_firstMarked, List.mem_eraseDups]
    exact List.mem_map_of_mem hd
  obtain ⟨d', hd', heq⟩ := List.mem_map.mp hname
  obtain rfl := hnames d' (mem_declaredStructs_of_first hd') d (List.mem_filter.mp hd).1 heq
  exact hd'

theorem perm_firstMarked_of_same (hbinds : BindsConsistently units)
    (hnames : ((declaredStructs units).map declaredName).Nodup)
    (h : SameSightings (sightingsOf units) (sightingsOf units')) (config : Config) :
    (firstMarkedStructs units config).Perm (firstMarkedStructs units' config) := by
  have hinj : ∀ d ∈ declaredStructs units, ∀ d' ∈ declaredStructs units,
      declaredName d = declaredName d' → d = d' := fun d hd d' hd' =>
    List.inj_on_of_nodup_map hnames hd hd'
  have hinj' : ∀ d ∈ declaredStructs units', ∀ d' ∈ declaredStructs units',
      declaredName d = declaredName d' → d = d' := fun d hd d' hd' =>
    hinj d ((mem_declaredStructs_of_same h).mpr hd) d' ((mem_declaredStructs_of_same h).mpr hd')
  have hnodup : ∀ units, (firstMarkedStructs units config).Nodup := fun units => by
    refine List.Nodup.of_map declaredName ?_
    rw [names_firstMarked]
    exact nodup_eraseDups _
  refine (List.perm_ext_iff_of_nodup (hnodup units) (hnodup units')).mpr fun d => ?_
  rw [mem_firstMarked_iff hinj, mem_firstMarked_iff hinj', mem_markedStructs_of_same hbinds h]

end

end RowFactory
