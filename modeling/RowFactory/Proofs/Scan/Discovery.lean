import RowFactory.Scan.Discovery
import RowFactory.Proofs.Generation.Pass
import RowFactory.Proofs.Scan.Remembering

namespace RowFactory

mutual

/-- The structs of an item that stands inside inline modules of the given names, each with the
names of the inline modules around it, outermost first. -/
def Item.structsWithin (names : List String) : Item → List (List String × StructItem)
  | .struct item => [(names, item)]
  | .module n (some content) => Item.structsWithinAll (names ++ [n.name]) content
  | _ => []

def Item.structsWithinAll (names : List String) : List Item → List (List String × StructItem)
  | [] => []
  | i :: rest => i.structsWithin names ++ Item.structsWithinAll names rest

end

mutual

/-- The inline modules of an item with the items in them, each with the names that lead to it. -/
def Item.bodiesWithin (names : List String) : Item → List (List String × List Item)
  | .module n (some content) =>
    (names ++ [n.name], content) :: Item.bodiesWithinAll (names ++ [n.name]) content
  | _ => []

def Item.bodiesWithinAll (names : List String) : List Item → List (List String × List Item)
  | [] => []
  | i :: rest => i.bodiesWithin names ++ Item.bodiesWithinAll names rest

end

def SourceUnit.place (u : SourceUnit) (names : List String) : ModulePath :=
  ⟨u.module.segments ++ names⟩

/-- All structs of all units in the order of the text, with their modules. -/
def declaredStructs (units : List SourceUnit) : List (ModulePath × StructItem) :=
  units.flatMap fun u =>
    (Item.structsWithinAll [] u.items).map fun (names, item) => (u.place names, item)

/-- All modules of all units with the items in them, a module once for each place where it is
written. -/
def writtenModules (units : List SourceUnit) : List (ModulePath × List Item) :=
  units.flatMap fun u =>
    (u.module, u.items) ::
      (Item.bodiesWithinAll [] u.items).map fun (names, items) => (u.place names, items)

/-- What a module's name table is made from: its items in all places where it is written. -/
def itemsOf (units : List SourceUnit) (m : ModulePath) : List Item :=
  ((writtenModules units).filter (·.1 = m)).flatMap (·.2)

def sightingsOf (units : List SourceUnit) : List Sighting := units.flatMap SourceUnit.sightings

def Scopes.ofUnits (units : List SourceUnit) : Scopes := .ofSightings (sightingsOf units)

def modulesSeen (sightings : List Sighting) : List (ModulePath × List Item) :=
  sightings.filterMap fun
    | .module m items => some (m, items)
    | _ => none

def declaredName (d : ModulePath × StructItem) : QualifiedName := ⟨d.1, d.2.name⟩

def markedStructs (units : List SourceUnit) (config : Config) : List (ModulePath × StructItem) :=
  (declaredStructs units).filter fun (m, item) =>
    carriesMarker (.ofUnits units) config m item

/-- Of the declarations that carry a marker, the first of each name. -/
def firstMarkedStructs (units : List SourceUnit) (config : Config) :
    List (ModulePath × StructItem) :=
  (markedStructs units config).eraseDupsBy fun d d' => declaredName d = declaredName d'

theorem SourceUnit.child_place (u : SourceUnit) (names : List String) (name : String) :
    (u.place names).child name = u.place (names ++ [name]) := by
  simp [place, ModulePath.child]

mutual

theorem structsSeen_sightings (u : SourceUnit) (names : List String) (item : Item) :
    structsSeen (item.sightings (u.place names)) =
      (item.structsWithin names).map fun (names, item) => (u.place names, item) := by
  match item with
  | .struct _ => rfl
  | .inherentImpl target items =>
    cases h : target.simpleName? <;> simp [Item.sightings, Item.structsWithin, structsSeen, h]
  | .module n (some content) =>
    have h := structsSeen_sightingsAll u (names ++ [n.name]) content
    rw [Item.sightings, Item.structsWithin, u.child_place, ← h]
    rfl
  | .module _ none | .use _ _ | .externCrate _ _ | .named _ | .unnamed | .verbatim => rfl

theorem structsSeen_sightingsAll (u : SourceUnit) (names : List String) (items : List Item) :
    structsSeen (Item.sightingsAll (u.place names) items) =
      (Item.structsWithinAll names items).map fun (names, item) => (u.place names, item) := by
  match items with
  | [] => rfl
  | i :: rest =>
    have hi := structsSeen_sightings u names i
    have hrest := structsSeen_sightingsAll u names rest
    rw [Item.sightingsAll, Item.structsWithinAll, List.map_append, ← hi, ← hrest]
    exact List.filterMap_append

end

mutual

theorem modulesSeen_sightings (u : SourceUnit) (names : List String) (item : Item) :
    modulesSeen (item.sightings (u.place names)) =
      (item.bodiesWithin names).map fun (names, items) => (u.place names, items) := by
  match item with
  | .struct _ => rfl
  | .inherentImpl target items =>
    cases h : target.simpleName? <;> simp [Item.sightings, Item.bodiesWithin, modulesSeen, h]
  | .module n (some content) =>
    have h := modulesSeen_sightingsAll u (names ++ [n.name]) content
    rw [Item.sightings, Item.bodiesWithin, u.child_place, List.map_cons, ← h]
    rfl
  | .module _ none | .use _ _ | .externCrate _ _ | .named _ | .unnamed | .verbatim => rfl

theorem modulesSeen_sightingsAll (u : SourceUnit) (names : List String) (items : List Item) :
    modulesSeen (Item.sightingsAll (u.place names) items) =
      (Item.bodiesWithinAll names items).map fun (names, items) => (u.place names, items) := by
  match items with
  | [] => rfl
  | i :: rest =>
    have hi := modulesSeen_sightings u names i
    have hrest := modulesSeen_sightingsAll u names rest
    rw [Item.sightingsAll, Item.bodiesWithinAll, List.map_append, ← hi, ← hrest]
    exact List.filterMap_append

end

theorem structsSeen_sightingsOf (units : List SourceUnit) :
    structsSeen (sightingsOf units) = declaredStructs units := by
  unfold structsSeen sightingsOf declaredStructs
  rw [List.filterMap_flatMap]
  congr 1
  funext u
  have h := structsSeen_sightingsAll u [] u.items
  rw [show u.place [] = u.module by simp [SourceUnit.place]] at h
  exact h

theorem modulesSeen_sightingsOf (units : List SourceUnit) :
    modulesSeen (sightingsOf units) = writtenModules units := by
  unfold modulesSeen sightingsOf writtenModules
  rw [List.filterMap_flatMap]
  congr 1
  funext u
  have h := modulesSeen_sightingsAll u [] u.items
  rw [show u.place [] = u.module by simp [SourceUnit.place]] at h
  exact congrArg ((u.module, u.items) :: ·) h

namespace Scopes

theorem get?_set (s : Scopes) (m other : ModulePath) (scope : ModuleScope) :
    (s.set m scope).get? other = if other = m then some scope else s.get? other := by
  unfold set get?
  by_cases h : other = m
  · simp [h]
  · have hb : (other == m) = false := by simp [h]
    simp [List.lookup_cons, hb, h, lookup_filter_ne h]

/-- Filling a table from several places is filling it from all their items in a row. -/
theorem get?_foldl_bindItems (bodies : List (ModulePath × List Item)) (s : Scopes)
    (m : ModulePath) :
    (bodies.foldl (fun s body => s.bindItems body.1 body.2) s).get? m =
      if bodies.any (·.1 = m) then
        some ((bodies.filter (·.1 = m)).flatMap (·.2) |>.foldl ModuleScope.bindItem
          ((s.get? m).getD .empty))
      else s.get? m := by
  induction bodies generalizing s with
  | nil => simp
  | cons body rest ih =>
    obtain ⟨m', items⟩ := body
    rw [List.foldl_cons, ih]
    by_cases h : m' = m
    · subst h
      simp only [bindItems, get?_set, ↓reduceIte, Option.getD_some, List.any_cons, decide_true,
        Bool.true_or, List.filter_cons, List.flatMap_cons, List.foldl_append]
      split
      next => rfl
      next hn =>
        have hnone : rest.filter (·.1 = m') = [] := by
          apply List.filter_eq_nil_iff.mpr
          intro body hb heq
          exact hn (List.any_eq_true.mpr ⟨body, hb, heq⟩)
        simp [hnone]
    · simp only [bindItems, get?_set, Ne.symm h, ↓reduceIte, List.any_cons, h, decide_false,
        Bool.false_or, List.filter_cons, Bool.false_eq_true]

theorem foldl_addSighting (sightings : List Sighting) (s : Scopes) :
    sightings.foldl addSighting s =
      (modulesSeen sightings).foldl (fun s body => s.bindItems body.1 body.2) s := by
  induction sightings generalizing s with
  | nil => rfl
  | cons sighting rest ih => cases sighting <;> exact ih _

/-- The table of a module is made of its items in all units, whatever their order, and a module
that is written nowhere has none. -/
theorem get?_ofUnits (units : List SourceUnit) (m : ModulePath) :
    (Scopes.ofUnits units).get? m =
      if (writtenModules units).any (·.1 = m) then
        some ((itemsOf units m).foldl ModuleScope.bindItem .empty)
      else none := by
  rw [ofUnits, ofSightings, foldl_addSighting, modulesSeen_sightingsOf, get?_foldl_bindItems]
  rfl

end Scopes

theorem nodup_eraseDups {α : Type} [BEq α] [LawfulBEq α] (xs : List α) : xs.eraseDups.Nodup := by
  match xs with
  | [] => simp
  | a :: as =>
    have ih := nodup_eraseDups (as.filter fun b => !b == a)
    rw [List.eraseDups_cons]
    exact List.nodup_cons.mpr ⟨by simp, ih⟩
termination_by xs.length
decreasing_by
  have := List.length_filter_le (fun b => !b == a) as
  simp only [List.length_cons]
  omega

/-- Where only the first of the elements with equal images is kept, so is the first of each
image. -/
theorem map_eraseDupsBy {α β : Type} [DecidableEq β] (f : α → β) (xs : List α) :
    (xs.eraseDupsBy fun a b => f a = f b).map f = (xs.map f).eraseDups := by
  match xs with
  | [] => simp
  | a :: as =>
    have ih := map_eraseDupsBy f (as.filter fun b => decide (f b = f a) = false)
    rw [List.eraseDupsBy_cons, List.map_cons, ih, List.map_cons, List.eraseDups_cons,
      List.filter_map]
    congr 4
    funext b
    by_cases h : f b = f a <;> simp [h]
termination_by xs.length
decreasing_by
  have := List.length_filter_le (fun b => decide (f b = f a) = false) as
  simp only [List.length_cons]
  omega

theorem carriesMarker_iff {scopes : Scopes} {config : Config} {m : ModulePath}
    {item : StructItem} :
    carriesMarker scopes config m item ↔
      ∃ p ∈ derivePaths item.attrs, ∃ q ∈ scopes.resolve m p.written, q ∈ config.markers := by
  simp only [carriesMarker, Config.isMarker, List.any_eq_true, List.contains_iff_mem]

/-- Uncancelled, what is collected is marked, the first of its name, and of a name that no type has
that was collected before. -/
theorem yields_collectMarked (sightings : List Sighting) (config : Config) (scopes : Scopes)
    (types : List AnnotatedType) (rest : List (ModulePath × StructItem)) :
    (collectMarked sightings config scopes types rest).Yields
      (types ++ (((rest.filter fun d => carriesMarker scopes config d.1 d.2).filter
        fun d => types.all (·.name != declaredName d)).eraseDupsBy
          fun d d' => declaredName d = declaredName d').map
            fun d => annotate sightings d.1 d.2) := by
  induction rest generalizing types with
  | nil => simpa [collectMarked] using Pass.yields_pure types
  | cons d rest ih =>
    obtain ⟨m, item⟩ := d
    refine Pass.yields_check.bind ?_
    cases hmark : carriesMarker scopes config m item with
    | false => simpa [hmark] using ih types
    | true =>
      cases hnew : types.all (·.name != ⟨m, item.name⟩) with
      | false => simpa [hmark, hnew, declaredName] using ih types
      | true =>
        have hsame : ∀ d : ModulePath × StructItem,
            (decide (decide (declaredName d = declaredName (m, item)) = false) &&
              types.all (·.name != declaredName d)) =
                (types ++ [annotate sightings m item]).all (·.name != declaredName d) := by
          intro d
          have hname : (annotate sightings m item).name = declaredName (m, item) := rfl
          by_cases h : declaredName d = declaredName (m, item)
          · simp [h, hname]
          · simp [h, hname, Ne.symm h]
        rw [List.filter_cons_of_pos (by simpa using hmark),
          List.filter_cons_of_pos (by simpa [declaredName] using hnew), List.eraseDupsBy_cons,
          List.filter_filter]
        simp only [Bool.and_self, ↓reduceIte, hsame, List.map_cons]
        simpa using ih (types ++ [annotate sightings m item])

theorem yields_discover (units : List SourceUnit) (config : Config) :
    (discover units config).Yields
      ((firstMarkedStructs units config).map fun d => annotate (sightingsOf units) d.1 d.2) := by
  refine Pass.yields_check.bind ((Pass.yields_forM_check units).bind ?_)
  have h := yields_collectMarked (sightingsOf units) config (.ofUnits units) []
    (structsSeen (sightingsOf units))
  simp only [List.nil_append, List.all_nil, List.filter_eq_self.mpr fun _ _ => rfl] at h
  rw [firstMarkedStructs, markedStructs, ← structsSeen_sightingsOf]
  exact h

/-- Uncancelled, discovery returns the declarations that carry a marker, in the order of the text,
the first of each name: one that carries no marker hides none that does. Names are looked up in
tables that all units fill, whatever their order. -/
theorem discover_eq_firstMarkedStructs (units : List SourceUnit) (config : Config) :
    (discover units config).run .never =
      (.ok ((firstMarkedStructs units config).map
        fun d => annotate (sightingsOf units) d.1 d.2), []) ∧
    (∀ d, d ∈ markedStructs units config ↔ d ∈ declaredStructs units ∧
      ∃ p ∈ derivePaths d.2.attrs, ∃ q ∈ (Scopes.ofUnits units).resolve d.1 p.written,
        q ∈ config.markers) ∧
    ((firstMarkedStructs units config).map declaredName).Nodup ∧
    (∀ d ∈ markedStructs units config,
      ∃ d' ∈ firstMarkedStructs units config, declaredName d' = declaredName d) ∧
    ∀ m, (Scopes.ofUnits units).get? m =
      if (writtenModules units).any (·.1 = m) then
        some ((itemsOf units m).foldl ModuleScope.bindItem .empty)
      else none := by
  have hnames : (firstMarkedStructs units config).map declaredName =
      ((markedStructs units config).map declaredName).eraseDups := map_eraseDupsBy _ _
  refine ⟨(yields_discover units config).run, ?_, ?_, ?_, Scopes.get?_ofUnits units⟩
  · intro d
    rw [markedStructs, List.mem_filter, carriesMarker_iff]
  · rw [hnames]
    exact nodup_eraseDups _
  · intro d hd
    have hmem : declaredName d ∈ (firstMarkedStructs units config).map declaredName := by
      rw [hnames, List.mem_eraseDups]
      exact List.mem_map_of_mem hd
    obtain ⟨d', hd', heq⟩ := List.mem_map.mp hmem
    exact ⟨d', hd', heq⟩

end RowFactory
