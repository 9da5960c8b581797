import Mathlib.Data.List.Forall2
import RowFactory.Proofs.Scan.Rearrangement

namespace RowFactory

/-- `use a::b::*;`, or `use ::a::b::*;`. -/
def globImport (leadingColon : Bool) (names : List Ident) : Item :=
  .use leadingColon (names.foldr UseTree.path .glob)

/-- The second list of items has the item more, at the outermost level or in an inline module. -/
inductive ItemAdded (item : Item) : List Item → List Item → Prop
  | here (before after : List Item) : ItemAdded item (before ++ after) (before ++ item :: after)
  | inside (name : Ident) {body body' : List Item} (before after : List Item) :
    ItemAdded item body body' →
    ItemAdded item (before ++ .module name (some body) :: after)
      (before ++ .module name (some body') :: after)

/-- One of the units has the item more. -/
inductive ItemAddedTo (item : Item) : List SourceUnit → List SourceUnit → Prop
  | unit (before after : List SourceUnit) (u : SourceUnit) {items : List Item} :
    ItemAdded item u.items items →
    ItemAddedTo item (before ++ u :: after) (before ++ { u with items } :: after)

/-- The same names are entered in the same order; there may be further globs. -/
structure EntriesWiden (entries entries' : List TableEntry) : Prop where
  names : ∀ name, entries.filterMap (·.binding? name) = entries'.filterMap (·.binding? name)
  globs : ∀ path, .glob path ∈ entries → .glob path ∈ entries'

theorem EntriesWiden.refl (entries : List TableEntry) : EntriesWiden entries entries :=
  ⟨fun _ => rfl, fun _ => id⟩

theorem EntriesWiden.append {entries entries' more more' : List TableEntry}
    (h : EntriesWiden entries entries') (hmore : EntriesWiden more more') :
    EntriesWiden (entries ++ more) (entries' ++ more') where
  names name := by rw [List.filterMap_append, List.filterMap_append, h.names, hmore.names]
  globs path hp := by
    rcases List.mem_append.mp hp with hp | hp
    · exact List.mem_append_left _ (h.globs path hp)
    · exact List.mem_append_right _ (hmore.globs path hp)

theorem EntriesWiden.glob (path : WrittenPath) : EntriesWiden [] [.glob path] :=
  ⟨fun _ => rfl, fun _ h => by cases h⟩

theorem EntriesWiden.widens {entries entries' : List TableEntry}
    (h : EntriesWiden entries entries') :
    (entries.foldl ModuleScope.add .empty).Widens (entries'.foldl ModuleScope.add .empty) where
  names name := by
    rw [ModuleScope.get?_foldl_add_eq, ModuleScope.get?_foldl_add_eq, lastBinding?, lastBinding?,
      h.names]
  globs path hp := by
    rw [ModuleScope.mem_globs_foldl_add] at hp ⊢
    exact hp.imp_right (h.globs path)

section

variable {leadingColon : Bool} {names : List Ident} {items items' : List Item}

theorem ItemAdded.entriesWiden (h : ItemAdded (globImport leadingColon names) items items') :
    EntriesWiden (items.flatMap Item.entries) (items'.flatMap Item.entries) := by
  cases h with
  | here before after =>
    rw [List.flatMap_append, List.flatMap_append, List.flatMap_cons, globImport, Item.entries,
      UseTree.entriesBelow_foldr]
    exact (EntriesWiden.refl _).append ((EntriesWiden.glob _).append (.refl _))
  | inside name before after _ =>
    rw [List.flatMap_append, List.flatMap_append, List.flatMap_cons, List.flatMap_cons]
    exact .refl _

/-- A module is seen with further globs, or all is the same. -/
inductive Sighting.Widens : Sighting → Sighting → Prop
  | refl (s : Sighting) : Widens s s
  | module (m : ModulePath) {items items' : List Item} :
    EntriesWiden (items.flatMap Item.entries) (items'.flatMap Item.entries) →
    Widens (.module m items) (.module m items')

theorem forall₂_widens_refl (seen : List Sighting) : List.Forall₂ Sighting.Widens seen seen :=
  List.forall₂_same.mpr fun x _ => .refl x

theorem ItemAdded.sightings (h : ItemAdded (globImport leadingColon names) items items')
    (m : ModulePath) :
    List.Forall₂ Sighting.Widens (Item.sightingsAll m items) (Item.sightingsAll m items') := by
  induction h generalizing m with
  | here before after =>
    rw [sightingsAll_eq_flatMap, sightingsAll_eq_flatMap, List.flatMap_append, List.flatMap_append]
    exact forall₂_widens_refl _
  | @inside name body body' before after hbody ih =>
    have hmodule := List.Forall₂.cons (.module (m.child name.name) hbody.entriesWiden)
      (ih (m.child name.name))
    simp only [sightingsAll_eq_flatMap, List.flatMap_append, List.flatMap_cons,
      Item.sightings] at hmodule ⊢
    exact List.rel_append (forall₂_widens_refl _)
      (List.rel_append hmodule (forall₂_widens_refl _))

end

theorem ItemAddedTo.sightings {leadingColon : Bool} {names : List Ident}
    {units units' : List SourceUnit}
    (h : ItemAddedTo (globImport leadingColon names) units units') :
    List.Forall₂ Sighting.Widens (sightingsOf units) (sightingsOf units') := by
  cases h with
  | unit before after u h =>
    have hunit := List.Forall₂.cons (.module u.module h.entriesWiden) (h.sightings u.module)
    unfold sightingsOf
    rw [List.flatMap_append, List.flatMap_append, List.flatMap_cons, List.flatMap_cons]
    exact List.rel_append (forall₂_widens_refl _)
      (List.rel_append hunit (forall₂_widens_refl _))

theorem structsSeen_of_widens {seen seen' : List Sighting}
    (h : List.Forall₂ Sighting.Widens seen seen') : structsSeen seen = structsSeen seen' := by
  induction h with
  | nil => rfl
  | cons hxy _ ih =>
    unfold structsSeen at ih ⊢
    rw [List.filterMap_cons, List.filterMap_cons, ih]
    cases hxy <;> rfl

/-- Modules that are written in the same places, perhaps with further globs. -/
def BodiesWiden (bodies bodies' : List (ModulePath × List Item)) : Prop :=
  List.Forall₂ (fun b b' => b.1 = b'.1 ∧
    EntriesWiden (b.2.flatMap Item.entries) (b'.2.flatMap Item.entries)) bodies bodies'

theorem modulesSeen_of_widens {seen seen' : List Sighting}
    (h : List.Forall₂ Sighting.Widens seen seen') :
    BodiesWiden (modulesSeen seen) (modulesSeen seen') := by
  induction h with
  | nil => exact .nil
  | @cons x y seen seen' hxy _ ih =>
    cases hxy with
    | module m h => exact .cons ⟨rfl, h⟩ ih
    | refl =>
      cases x with
      | module m items => exact .cons ⟨rfl, .refl _⟩ ih
      | struct _ _ | implItems _ _ _ => exact ih

theorem BodiesWiden.entries {bodies bodies' : List (ModulePath × List Item)}
    (h : BodiesWiden bodies bodies') (m : ModulePath) :
    EntriesWiden (((bodies.filter (·.1 = m)).flatMap (·.2)).flatMap Item.entries)
        (((bodies'.filter (·.1 = m)).flatMap (·.2)).flatMap Item.entries) ∧
      bodies.any (·.1 = m) = bodies'.any (·.1 = m) := by
  induction h with
  | nil => exact ⟨.refl _, rfl⟩
  | @cons b b' rest rest' hb _ ih =>
    obtain ⟨hmodule, hentries⟩ := hb
    rw [List.any_cons, List.any_cons, ih.2, hmodule]
    refine ⟨?_, rfl⟩
    by_cases hm : b'.1 = m
    · rw [List.filter_cons_of_pos (by simpa [hmodule] using hm),
        List.filter_cons_of_pos (by simpa using hm), List.flatMap_cons, List.flatMap_cons,
        List.flatMap_append, List.flatMap_append]
      exact hentries.append ih.1
    · rw [List.filter_cons_of_neg (by simpa [hmodule] using hm),
        List.filter_cons_of_neg (by simpa using hm)]
      exact ih.1

section

variable {leadingColon : Bool} {names : List Ident} {units units' : List SourceUnit}

theorem ItemAddedTo.widens (h : ItemAddedTo (globImport leadingColon names) units units') :
    (Scopes.ofUnits units).Widens (.ofUnits units') := by
  intro m
  have hbodies := modulesSeen_of_widens h.sightings
  rw [modulesSeen_sightingsOf, modulesSeen_sightingsOf] at hbodies
  obtain ⟨hentries, hwritten⟩ := hbodies.entries m
  rw [Scopes.get?_ofUnits, Scopes.get?_ofUnits, hwritten]
  split
  · rw [← foldl_add_flatMap_entries, ← foldl_add_flatMap_entries]
    exact .some hentries.widens
  · exact .none

theorem ItemAddedTo.declaredStructs
    (h : ItemAddedTo (globImport leadingColon names) units units') :
    declaredStructs units = declaredStructs units' := by
  rw [← structsSeen_sightingsOf, ← structsSeen_sightingsOf, structsSeen_of_widens h.sightings]

end

namespace Scopes

variable {s t : Scopes}

/-- What is looked up first is a name that is bound. -/
def LooksUpBound (scopes : Scopes) : LookupState → Prop
  | .written m path lookup => ∃ name rest b, path.BeginsWith name rest ∧
      scopes.bound? m lookup name = some b
  | .canonical segments => ∃ m scope name rest b,
      scopes.enclosing? segments = some (m, scope, name, rest) ∧ scope.get? name = some b

/-- Globs do not count for a name that is bound. -/
theorem movesOf_of_widens (h : s.Widens t) {state : LookupState} (hbound : s.LooksUpBound state) :
    t.movesOf state = s.movesOf state := by
  cases state with
  | written m path lookup =>
    obtain ⟨name, rest, b, hp, hb⟩ := hbound
    rw [movesOf_name hp, movesOf_name hp, ← h.bound?, hb]
    cases b <;> rfl
  | canonical segments =>
    obtain ⟨m, a, name, rest, b, ha, hb⟩ := hbound
    obtain ⟨a', ha', hr⟩ := exists_enclosing? h ha
    simp only [movesOf, ha, ha', ← hr.names, hb]
    cases b <;> rfl

/-- A path outside the crate is found as before: a further glob only goes on where a path from the
crate's root was found. -/
theorem reaches_of_widens (h : s.Widens t) {left : Nat} {state : LookupState}
    {found : List String} (hr : s.Reaches left state found) (hcrate : state.IsInCrate)
    (hfound : found.head? ≠ some "crate") : t.Reaches left state found := by
  induction hr with
  | find hm =>
    rcases offers_of_widens h (mem_movesOf_iff.mp hm) with ht | ⟨segments, rfl, heq⟩
    · exact .find (mem_movesOf_iff.mpr ht)
    · cases heq
      exact absurd hcrate hfound
  | visit hm ha _ ih =>
    have hs := mem_movesOf_iff.mp hm
    rcases offers_of_widens h hs with ht | ⟨segments, rfl, rfl⟩
    · exact .visit (mem_movesOf_iff.mpr ht) ha (ih ((keeps_isInCrate hcrate hs).arrival ha) hfound)
    · cases ha

theorem mem_resolve_of_widens (h : s.Widens t) {m : ModulePath} (hm : m.IsInCrate)
    {path : WrittenPath} {found : List String} (hfound : found.head? ≠ some "crate")
    (hs : found ∈ s.resolve m path) : found ∈ t.resolve m path := by
  rw [mem_resolve_iff_reaches] at hs ⊢
  exact reaches_of_widens h hs hm hfound

end Scopes

theorem carriesMarker_of_widens {s t : Scopes} (h : s.Widens t) {config : Config}
    (hmarkers : ∀ marker ∈ config.markers, marker.head? ≠ some "crate") {m : ModulePath}
    (hm : m.IsInCrate) {item : StructItem} (hs : carriesMarker s config m item) :
    carriesMarker t config m item := by
  rw [carriesMarker_iff] at hs ⊢
  obtain ⟨p, hp, marker, hfound, hmarker⟩ := hs
  exact ⟨p, hp, marker, Scopes.mem_resolve_of_widens h hm (hmarkers marker hmarker) hfound, hmarker⟩

theorem filter_eraseDups {α : Type} [BEq α] [LawfulBEq α] (keep : α → Bool) (xs : List α) :
    xs.eraseDups.filter keep = (xs.filter keep).eraseDups := by
  match xs with
  | [] => simp
  | a :: as =>
    have ih := filter_eraseDups keep (as.filter fun b => !b == a)
    rw [List.filter_filter] at ih
    rw [List.eraseDups_cons]
    cases hk : keep a with
    | true =>
      rw [List.filter_cons_of_pos hk, List.filter_cons_of_pos hk, List.eraseDups_cons, ih,
        List.filter_filter]
      simp only [Bool.and_comm]
    | false =>
      rw [List.filter_cons_of_neg (by simp [hk]), List.filter_cons_of_neg (by simp [hk]), ih]
      congr 1
      refine List.filter_congr fun b _ => ?_
      by_cases hb : b = a
      · simp [hb, hk]
      · simp [hb]
termination_by xs.length
decreasing_by
  have := List.length_filter_le (fun b => !b == a) as
  simp only [List.length_cons]
  omega

section

variable {leadingColon : Bool} {names : List Ident} {units units' : List SourceUnit}
  {config : Config}

theorem ItemAddedTo.carriesMarker (h : ItemAddedTo (globImport leadingColon names) units units')
    (hunits : ∀ u ∈ units, u.module.IsInCrate)
    (hmarkers : ∀ marker ∈ config.markers, marker.head? ≠ some "crate")
    {d : ModulePath × StructItem} (hd : d ∈ RowFactory.declaredStructs units)
    (hmark : carriesMarker (.ofUnits units) config d.1 d.2) :
    carriesMarker (.ofUnits units') config d.1 d.2 :=
  carriesMarker_of_widens h.widens hmarkers (isInCrate_of_mem_declaredStructs hunits hd) hmark

/-- Names to which the glob gives no further declaration that is marked are found in the same
order. -/
theorem ItemAddedTo.names_filter (h : ItemAddedTo (globImport leadingColon names) units units')
    (hunits : ∀ u ∈ units, u.module.IsInCrate)
    (hmarkers : ∀ marker ∈ config.markers, marker.head? ≠ some "crate")
    (keep : QualifiedName → Bool)
    (hkeep : ∀ d ∈ RowFactory.declaredStructs units, keep (declaredName d) →
      RowFactory.carriesMarker (.ofUnits units') config d.1 d.2 →
      RowFactory.carriesMarker (.ofUnits units) config d.1 d.2) :
    ((firstMarkedStructs units config).map declaredName).filter keep =
      ((firstMarkedStructs units' config).map declaredName).filter keep := by
  rw [names_firstMarked, names_firstMarked, filter_eraseDups, filter_eraseDups, markedStructs,
    markedStructs, ← h.declaredStructs, List.filter_map, List.filter_map, List.filter_filter,
    List.filter_filter]
  congr 2
  refine List.filter_congr fun d hd => ?_
  by_cases hk : keep (declaredName d)
  · rw [Function.comp_apply, hk, Bool.true_and, Bool.true_and, Bool.eq_iff_iff]
    exact ⟨h.carriesMarker hunits hmarkers hd, hkeep d hd hk⟩
  · simp [hk]

end

/-- Where the markers are those of other crates, a further import of everything from a path hides
nothing. What a path stood for outside the crate it still stands for, and every struct that carried
a marker still does, so all names that were found are found; they keep their order but for those
of which the import marks a further declaration. States that look up a name that is bound have the
moves that they had. -/
theorem added_glob_hides_nothing {leadingColon : Bool} {names : List Ident}
    {units units' : List SourceUnit} {config : Config}
    (hunits : ∀ u ∈ units, u.module.IsInCrate)
    (hmarkers : ∀ marker ∈ config.markers, marker.head? ≠ some "crate")
    (h : ItemAddedTo (globImport leadingColon names) units units') :
    (∃ types types', (discover units config).run .never = (.ok types, []) ∧
      (discover units' config).run .never = (.ok types', []) ∧
      types.map (·.name) ⊆ types'.map (·.name) ∧
      ∀ kept : List QualifiedName, kept.Sublist (types.map (·.name)) →
        (∀ d ∈ declaredStructs units, declaredName d ∈ kept →
          carriesMarker (.ofUnits units') config d.1 d.2 →
          carriesMarker (.ofUnits units) config d.1 d.2) →
        kept.Sublist (types'.map (·.name))) ∧
    (∀ d ∈ declaredStructs units, carriesMarker (.ofUnits units) config d.1 d.2 →
      carriesMarker (.ofUnits units') config d.1 d.2) ∧
    (∀ (m : ModulePath) (path : WrittenPath), m.IsInCrate →
      ∀ found ∈ (Scopes.ofUnits units).resolve m path, found.head? ≠ some "crate" →
        found ∈ (Scopes.ofUnits units').resolve m path) ∧
    ∀ state, (Scopes.ofUnits units).LooksUpBound state →
      (Scopes.ofUnits units').movesOf state = (Scopes.ofUnits units).movesOf state := by
  refine ⟨⟨_, _, (yields_discover units config).run, (yields_discover units' config).run, ?_, ?_⟩,
    fun d hd => h.carriesMarker hunits hmarkers hd,
    fun m path hm found hfound hhead => Scopes.mem_resolve_of_widens h.widens hm hhead hfound,
    fun state => Scopes.movesOf_of_widens h.widens⟩
  · intro name hname
    rw [List.map_map] at hname ⊢
    change name ∈ (firstMarkedStructs units config).map declaredName at hname
    change name ∈ (firstMarkedStructs units' config).map declaredName
    rw [names_firstMarked, List.mem_eraseDups] at hname ⊢
    obtain ⟨d, hd, rfl⟩ := List.mem_map.mp hname
    obtain ⟨hd, hmark⟩ := List.mem_filter.mp hd
    refine List.mem_map_of_mem (List.mem_filter.mpr ⟨h.declaredStructs ▸ hd, ?_⟩)
    exact h.carriesMarker hunits hmarkers hd hmark
  · intro kept hkept hmarked
    rw [List.map_map] at hkept ⊢
    have hsame := h.names_filter hunits hmarkers (fun name => decide (name ∈ kept))
      fun d hd hk => hmarked d hd (of_decide_eq_true hk)
    have hself : kept.filter (fun name => decide (name ∈ kept)) = kept :=
      List.filter_eq_self.mpr fun _ => decide_eq_true
    have hsub := hkept.filter fun name => decide (name ∈ kept)
    rw [hself] at hsub
    exact (hsame ▸ hsub).trans List.filter_sublist

/-- The inline module imports everything from `::rowmap::prelude` as well. -/
def ordersRootWithGlob : SourceUnit :=
  { ordersRoot with
    items := [.struct (derivingStruct "Customer" "Mapped"),
      .module (.plain "orders") (some [.struct (derivingStruct "Order" "RowMapped"),
        globImport true [.plain "rowmap", .plain "prelude"], superImport]),
      preludeImport] }

theorem added_glob_hides_nothing_orders :
    (∀ u ∈ [ordersRoot, ordersPrelude], u.module.IsInCrate) ∧
      (∀ marker ∈ Config.default.markers, marker.head? ≠ some "crate") ∧
      ItemAddedTo (globImport true [.plain "rowmap", .plain "prelude"])
        [ordersRoot, ordersPrelude] [ordersRootWithGlob, ordersPrelude] ∧
      ∃ types types', (discover [ordersRoot, ordersPrelude] .default).run .never = (.ok types, []) ∧
        (discover [ordersRootWithGlob, ordersPrelude] .default).run .never = (.ok types', []) ∧
        types.map (·.name) ⊆ types'.map (·.name) := by
  have hunits : ∀ u ∈ [ordersRoot, ordersPrelude], u.module.IsInCrate := by decide
  have hmarkers : ∀ marker ∈ Config.default.markers, marker.head? ≠ some "crate" := by
    decide +kernel
  have h : ItemAddedTo (globImport true [.plain "rowmap", .plain "prelude"])
      [ordersRoot, ordersPrelude] [ordersRootWithGlob, ordersPrelude] :=
    .unit [] [ordersPrelude] ordersRoot
      (.inside (.plain "orders") [.struct (derivingStruct "Customer" "Mapped")] [preludeImport]
        (.here [.struct (derivingStruct "Order" "RowMapped")] [superImport]))
  obtain ⟨⟨types, types', hrun, hrun', hsub, _⟩, _⟩ := added_glob_hides_nothing hunits hmarkers h
  exact ⟨hunits, hmarkers, h, types, types', hrun, hrun', hsub⟩

/-- Two declarations of one name, as under different conditions, and one of another between
them. -/
def twiceDeclared : List Item :=
  [.struct (derivingStruct "Customer" "RowMapped"),
    .struct (structDeriving "Order" ["rowmap", "RowMapped"]),
    .struct (structDeriving "Customer" ["rowmap", "RowMapped"])]

/-- The glob marks the first declaration, whose name then comes before the other. -/
theorem added_glob_changes_order :
    ItemAddedTo (globImport false [.plain "rowmap"]) [⟨.root, twiceDeclared⟩]
        [⟨.root, globImport false [.plain "rowmap"] :: twiceDeclared⟩] ∧
      ModulePath.root.IsInCrate ∧
      (∀ marker ∈ Config.default.markers, marker.head? ≠ some "crate") ∧
      namesFound [⟨.root, twiceDeclared⟩] .default = ["crate::Order", "crate::Customer"] ∧
      namesFound [⟨.root, globImport false [.plain "rowmap"] :: twiceDeclared⟩] .default =
        ["crate::Customer", "crate::Order"] :=
  ⟨.unit [] [] ⟨.root, twiceDeclared⟩ (.here [] twiceDeclared), rfl, by decide +kernel,
    by decide +kernel, by decide +kernel⟩

end RowFactory
