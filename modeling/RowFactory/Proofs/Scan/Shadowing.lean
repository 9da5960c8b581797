import RowFactory.Proofs.Scan.Rearrangement

namespace RowFactory

/-- Of the items of a module, in all places where it is written, the last that binds a name
decides. -/
theorem exists_scope_of_mem {units : List SourceUnit} {m : ModulePath} {e : TableEntry}
    (he : e ∈ entriesOf units m) : ∃ scope, (Scopes.ofUnits units).get? m = some scope ∧
      ∀ name, scope.get? name = lastBinding? (entriesOf units m) name := by
  refine ⟨_, get?_ofUnits_of_mem he, fun name => ?_⟩
  rw [ModuleScope.get?_foldl_add_eq]
  exact Option.or_none

theorem mem_entriesOf_of_declares {units : List SourceUnit} {m : ModulePath} {item : Item}
    (hitem : item ∈ itemsOf units m) {i : Ident} (hi : item.declaredName? = some i) :
    .name i.name .declared ∈ entriesOf units m := by
  refine List.mem_flatMap.mpr ⟨item, hitem, ?_⟩
  cases item with
  | use _ _ | externCrate _ _ | inherentImpl _ _ | unnamed | verbatim => cases hi
  | struct _ | module _ _ | named _ => simp_all [Item.entries, Item.declaredName?]

namespace Scopes

variable {scopes : Scopes} {m : ModulePath} {scope : ModuleScope} {name : String}

theorem movesOf_declared (hs : scopes.get? m = some scope) (hb : scope.get? name = some .declared)
    (hname : name ∉ placeWords) :
    scopes.movesOf (.written m ⟨false, [name]⟩ .any) = [.canonical (m.segments ++ [name])] := by
  have hbound : scopes.bound? m .any name = some .declared := by
    simp [bound?, Lookup.any, hs, hb]
  simp [movesOf_name (begins_of_name hname), hbound]

/-- At a name that a module declares the search ends, whatever globs the module has. -/
theorem movesOf_own (hs : scopes.get? m = some scope) (hb : scope.get? name = some .declared) :
    scopes.movesOf (.canonical (m.segments ++ [name])) = [.find (m.segments ++ [name])] := by
  by_cases hm : m.segments = []
  · simp [movesOf, hm, enclosing?]
  · simp [movesOf, enclosing?_append hs hm, hb]

end Scopes

/-- A name that a module declares stands for the module's own item alone if the last of its items
that binds the name declares it. Otherwise the last of them imports the name, and it stands for what
the import leads to. -/
theorem declared_name_stands_for_itself {units : List SourceUnit} {m : ModulePath} {name : String}
    (hname : name ∉ placeWords)
    (hdeclared : ∃ item ∈ itemsOf units m, ∃ i, item.declaredName? = some i ∧ i.name = name) :
    (lastBinding? (entriesOf units m) name = some .declared ∧
      (Scopes.ofUnits units).resolve m ⟨false, [name]⟩ = [m.segments ++ [name]]) ∨
    ∃ target, lastBinding? (entriesOf units m) name = some (.imported target) ∧
      ∀ found, found ∈ (Scopes.ofUnits units).resolve m ⟨false, [name]⟩ ↔
        (Scopes.ofUnits units).Reaches 15 (.written m target (.skipping name)) found := by
  obtain ⟨item, hitem, i, hi, rfl⟩ := hdeclared
  have he := mem_entriesOf_of_declares hitem hi
  obtain ⟨scope, hs, hlast⟩ := exists_scope_of_mem he
  obtain ⟨b, hb⟩ := exists_lastBinding? he
  have hget : scope.get? i.name = some b := by rw [hlast, hb]
  cases b with
  | declared =>
    refine .inl ⟨hb, Scopes.resolve_eq_singleton fun found => ?_⟩
    rw [Scopes.reaches_iff_of_single (Scopes.movesOf_declared hs hget hname),
      Scopes.leads_canonical, Scopes.reaches_iff_of_single (Scopes.movesOf_own hs hget),
      Scopes.leads_find]
  | imported target =>
    refine .inr ⟨target, hb, fun found => ?_⟩
    rw [Scopes.mem_resolve_iff_reaches,
      Scopes.reaches_iff_of_single (Scopes.movesOf_imported hs hget (.written hname)),
      Scopes.leads_follow]
    simp [maxIndirections]

/-- `use rowmap::RowMapped;`. -/
def markerImport : Item :=
  .use false (.path (.plain "rowmap") (.name (.plain "RowMapped")))

/-- A module that imports the marker's name, declares it, as an `enum` does, and derives it. -/
def ownMarker : SourceUnit :=
  ⟨⟨["crate", "crm"]⟩, [markerImport, .named (.plain "RowMapped"),
    .struct (derivingStruct "Customer" "RowMapped")]⟩

theorem declared_name_stands_for_itself_crm :
    "RowMapped" ∉ placeWords ∧
      (∃ item ∈ itemsOf [ownMarker] ⟨["crate", "crm"]⟩,
        ∃ i, item.declaredName? = some i ∧ i.name = "RowMapped") ∧
      lastBinding? (entriesOf [ownMarker] ⟨["crate", "crm"]⟩) "RowMapped" = some .declared ∧
      (Scopes.ofUnits [ownMarker]).resolve ⟨["crate", "crm"]⟩ ⟨false, ["RowMapped"]⟩ =
        [["crate", "crm", "RowMapped"]] := by
  have hname : "RowMapped" ∉ placeWords := by decide
  have hitem : ∃ item ∈ itemsOf [ownMarker] ⟨["crate", "crm"]⟩,
      ∃ i, item.declaredName? = some i ∧ i.name = "RowMapped" :=
    ⟨.named (.plain "RowMapped"), .tail _ (.head _), _, rfl, rfl⟩
  have hlast : lastBinding? (entriesOf [ownMarker] ⟨["crate", "crm"]⟩) "RowMapped" =
      some .declared := by decide +kernel
  obtain ⟨_, hresolve⟩ | ⟨target, htarget, _⟩ := declared_name_stands_for_itself hname hitem
  · exact ⟨hname, hitem, hlast, hresolve⟩
  · rw [hlast] at htarget
    cases htarget

/-- Here the import stands behind the declaration. -/
def ownMarkerFirst : SourceUnit :=
  ⟨⟨["crate", "crm"]⟩, [.named (.plain "RowMapped"), markerImport,
    .struct (derivingStruct "Customer" "RowMapped")]⟩

/-- The name that the module declares stands for the marker, which the struct then carries. -/
theorem declared_name_gives_way_to_import :
    (∃ item ∈ itemsOf [ownMarkerFirst] ⟨["crate", "crm"]⟩,
        item.declaredName? = some (.plain "RowMapped")) ∧
      (Scopes.ofUnits [ownMarkerFirst]).resolve ⟨["crate", "crm"]⟩ ⟨false, ["RowMapped"]⟩ =
        [["rowmap", "RowMapped"]] ∧
      namesFound [ownMarkerFirst] .default = ["crate::crm::Customer"] ∧
      namesFound [ownMarker] .default = [] := by
  refine ⟨⟨.named (.plain "RowMapped"), .head _, rfl⟩, ?_, ?_, ?_⟩ <;> decide +kernel

end RowFactory
