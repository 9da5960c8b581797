import RowFactory.Proofs.Generation.Outcome
import RowFactory.Proofs.Scan.Rearrangement

namespace RowFactory

/-- Where everything that comes later has an image that came before, nothing of it is kept. -/
theorem eraseDupsBy_append {α β : Type} [DecidableEq β] (f : α → β) {xs ys : List α}
    (h : ∀ y ∈ ys, ∃ x ∈ xs, f x = f y) :
    (xs ++ ys).eraseDupsBy (fun a b => f a = f b) = xs.eraseDupsBy fun a b => f a = f b := by
  match xs with
  | [] =>
    have hnil : ys = [] := List.eq_nil_iff_forall_not_mem.mpr fun y hy => by simpa using h y hy
    rw [hnil, List.append_nil]
  | a :: as =>
    have hrest : ∀ y ∈ ys.filter fun b => decide (f b = f a) = false,
        ∃ x ∈ as.filter fun b => decide (f b = f a) = false, f x = f y := by
      intro y hy
      obtain ⟨hy, hne⟩ := List.mem_filter.mp hy
      obtain ⟨x, hx, hxy⟩ := h y hy
      rcases List.mem_cons.mp hx with rfl | hx
      · simp [hxy] at hne
      · exact ⟨x, List.mem_filter.mpr ⟨hx, by rwa [hxy]⟩, hxy⟩
    have ih := eraseDupsBy_append f hrest
    rw [List.cons_append, List.eraseDupsBy_cons, List.eraseDupsBy_cons, List.filter_append, ih]
termination_by xs.length
decreasing_by
  have := List.length_filter_le (fun b => decide (f b = f a) = false) as
  simp only [List.length_cons]
  omega

/-- An item that is kept already is not kept again. -/
def keepDistinct (kept : List ImplItem) (i : ImplItem) : List ImplItem :=
  if kept.any i.sameAs then kept else kept ++ [i]

theorem any_sameAs_keepDistinct {kept : List ImplItem} {i j : ImplItem}
    (h : kept.any i.sameAs ∨ i = j) : (keepDistinct kept j).any i.sameAs := by
  unfold keepDistinct
  rcases h with h | rfl
  · split
    · exact h
    · rw [List.any_append, h, Bool.true_or]
  · split
    case isTrue hkept => exact hkept
    case isFalse => simp [ImplItem.sameAs]

theorem any_sameAs_foldl_keepDistinct {items kept : List ImplItem} {i : ImplItem}
    (h : kept.any i.sameAs ∨ i ∈ items) : (items.foldl keepDistinct kept).any i.sameAs := by
  induction items generalizing kept with
  | nil => simpa using h
  | cons j rest ih =>
    refine ih ?_
    rw [List.mem_cons, ← or_assoc] at h
    exact h.imp_left any_sameAs_keepDistinct

theorem distinctItems_append {items more : List ImplItem} (h : more ⊆ items) :
    distinctItems (items ++ more) = distinctItems items := by
  have hall : ∀ i ∈ more, (distinctItems items).any i.sameAs := fun i hi =>
    any_sameAs_foldl_keepDistinct (.inr (h hi))
  unfold distinctItems at hall ⊢
  rw [List.foldl_append]
  generalize items.foldl _ [] = kept at hall ⊢
  clear h
  induction more with
  | nil => rfl
  | cons i rest ih =>
    rw [List.foldl_cons, if_pos (hall i (by simp))]
    exact ih fun j hj => hall j (by simp [hj])

theorem implItemsOf_append {seen more : List Sighting} (h : more ⊆ seen) (m : ModulePath)
    (target : String) : implItemsOf m target (seen ++ more) = implItemsOf m target seen := by
  unfold implItemsOf
  rw [List.flatMap_append]
  refine distinctItems_append fun i hi => ?_
  obtain ⟨x, hx, hi⟩ := List.mem_flatMap.mp hi
  exact List.mem_flatMap.mpr ⟨x, h hx, hi⟩

section

variable {units repeated : List SourceUnit}

theorem sightingsOf_append (units repeated : List SourceUnit) :
    sightingsOf (units ++ repeated) = sightingsOf units ++ sightingsOf repeated :=
  List.flatMap_append

theorem declaredStructs_append (units repeated : List SourceUnit) :
    declaredStructs (units ++ repeated) = declaredStructs units ++ declaredStructs repeated :=
  List.flatMap_append

theorem sightingsOf_subset (h : repeated ⊆ units) : sightingsOf repeated ⊆ sightingsOf units := by
  intro x hx
  obtain ⟨u, hu, hx⟩ := List.mem_flatMap.mp hx
  exact List.mem_flatMap.mpr ⟨u, h hu, hx⟩

theorem sameSightings_append_repeated (h : repeated ⊆ units) :
    SameSightings (sightingsOf units) (sightingsOf (units ++ repeated)) := by
  refine .of_mem_iff fun x => ?_
  rw [sightingsOf_append, List.mem_append]
  exact ⟨.inl, fun hx => hx.elim id fun hx => sightingsOf_subset h hx⟩

/-- What is marked in the units given again is marked in the units themselves. -/
theorem markedStructs_append_repeated (hbinds : BindsConsistently units) (h : repeated ⊆ units)
    (config : Config) :
    ∃ again, markedStructs (units ++ repeated) config = markedStructs units config ++ again ∧
      again ⊆ markedStructs units config := by
  have hsame := sameSightings_append_repeated h
  have hmarks := carriesMarker_of_sameAs (sameAs_ofUnits hbinds hsame) config
  refine ⟨(declaredStructs repeated).filter fun d =>
    carriesMarker (.ofUnits units) config d.1 d.2, ?_, fun d hd => ?_⟩
  · simp only [markedStructs, declaredStructs_append, List.filter_append, hmarks]
  · obtain ⟨hd, hmark⟩ := List.mem_filter.mp hd
    have hagain : d ∈ declaredStructs (units ++ repeated) := by
      rw [declaredStructs_append]
      exact List.mem_append_right _ hd
    exact List.mem_filter.mpr ⟨(mem_declaredStructs_of_same hsame).mpr hagain, hmark⟩

theorem firstMarkedStructs_append_repeated (hbinds : BindsConsistently units)
    (h : repeated ⊆ units) (config : Config) :
    firstMarkedStructs (units ++ repeated) config = firstMarkedStructs units config := by
  obtain ⟨again, hagain, hsub⟩ := markedStructs_append_repeated hbinds h config
  rw [firstMarkedStructs, hagain]
  exact eraseDupsBy_append declaredName fun d hd => ⟨d, hsub hd, rfl⟩

theorem markedTypes_append_repeated (hbinds : BindsConsistently units) (h : repeated ⊆ units)
    (config : Config) : markedTypes (units ++ repeated) config = markedTypes units config := by
  rw [markedTypes, markedTypes, firstMarkedStructs_append_repeated hbinds h]
  refine List.map_congr_left fun d _ => ?_
  rw [annotate, annotate, sightingsOf_append, implItemsOf_append (sightingsOf_subset h)]

end

/-- Units that are given again, however often, change nothing: the same types are found, with the
same items of their `impl` blocks, in the same order, and the same is generated for them. -/
theorem repeated_units_change_nothing {units repeated : List SourceUnit}
    (hbinds : BindsConsistently units) (h : ∀ u ∈ repeated, u ∈ units) (config : Config) :
    (∃ types, (discover units config).run .never = (.ok types, []) ∧
      (discover (units ++ repeated) config).run .never = (.ok types, [])) ∧
    ∀ printer, generate (units ++ repeated) config printer = generate units config printer := by
  have htypes := markedTypes_append_repeated hbinds h config
  refine ⟨⟨markedTypes units config, (yields_discover units config).run, ?_⟩, fun printer => ?_⟩
  · rw [← htypes]
    exact (yields_discover (units ++ repeated) config).run
  · rw [generate_eq_mapM, generate_eq_mapM, htypes]

/-- A struct with a function in an `impl` block, which derives what another unit imports. -/
def crmUnit : SourceUnit :=
  ⟨⟨["crate", "crm"]⟩, [preludeImport, .struct (derivingStruct "Customer" "Mapped"),
    .inherentImpl (plainTy "Customer")
      [⟨[.word "fn", .word "label", .group .paren [], .group .brace []], [],
        .function [] .inherited (.plain "label")⟩]]⟩

/-- The names of the types that are found, each with the names of its members. -/
def membersFound (units : List SourceUnit) (config : Config) : List (String × List String) :=
  match ((discover units config).run .never).1 with
  | .ok types => types.map fun t => (t.name.text, t.members.map (·.displayName))
  | .error _ => []

/-- One unit is given three times and the other twice. -/
theorem repeated_units_change_nothing_crm :
    BindsConsistently [crmUnit, ordersPrelude] ∧
      (∀ u ∈ [ordersPrelude, crmUnit, crmUnit], u ∈ [crmUnit, ordersPrelude]) ∧
      membersFound [crmUnit, ordersPrelude, ordersPrelude, crmUnit, crmUnit] .default =
        [("crate::crm::Customer", ["label"])] ∧
      (∃ types, (discover [crmUnit, ordersPrelude] .default).run .never = (.ok types, []) ∧
        (discover [crmUnit, ordersPrelude, ordersPrelude, crmUnit, crmUnit] .default).run .never =
          (.ok types, [])) ∧
      ∀ printer,
        generate [crmUnit, ordersPrelude, ordersPrelude, crmUnit, crmUnit] .default printer =
          generate [crmUnit, ordersPrelude] .default printer := by
  have hbinds : BindsConsistently [crmUnit, ordersPrelude] := by decide +kernel
  have h : ∀ u ∈ [ordersPrelude, crmUnit, crmUnit], u ∈ [crmUnit, ordersPrelude] := by simp
  exact ⟨hbinds, h, by decide +kernel, repeated_units_change_nothing hbinds h .default⟩

end RowFactory
