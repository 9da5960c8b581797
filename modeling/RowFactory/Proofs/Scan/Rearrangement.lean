import RowFactory.Proofs.Scan.SameSightings

namespace RowFactory

/-- The same items in another order, at the outermost level or in inline modules. -/
inductive Rearranged : List Item → List Item → Prop
  | perm {xs ys : List Item} : xs.Perm ys → Rearranged xs ys
  | inside {name : Ident} {content content' : List Item} (before after : List Item) :
    Rearranged content content' →
    Rearranged (before ++ .module name (some content) :: after)
      (before ++ .module name (some content') :: after)
  | trans {xs ys zs : List Item} : Rearranged xs ys → Rearranged ys zs → Rearranged xs zs

structure SourceUnit.IsRearranged (u u' : SourceUnit) : Prop where
  module : u.module = u'.module
  items : Rearranged u.items u'.items

/-- The same units in another order, each rearranged. -/
def RearrangedUnits (units units' : List SourceUnit) : Prop :=
  ∃ order, units.Perm order ∧ List.Forall₂ SourceUnit.IsRearranged order units'

theorem perm_entries_of_rearranged {xs ys : List Item} (h : Rearranged xs ys) :
    (xs.flatMap Item.entries).Perm (ys.flatMap Item.entries) := by
  induction h with
  | perm h => exact h.flatMap_right _
  | inside before after =>
    simp only [List.flatMap_append, List.flatMap_cons, Item.entries, Item.declaredName?,
      List.Perm.refl]
  | trans _ _ ih ih' => exact ih.trans ih'

theorem sameSightings_of_rearranged {xs ys : List Item} (h : Rearranged xs ys) (m : ModulePath) :
    SameSightings (Item.sightingsAll m xs) (Item.sightingsAll m ys) := by
  induction h generalizing m with
  | perm h =>
    rw [sightingsAll_eq_flatMap, sightingsAll_eq_flatMap]
    exact .of_mem_iff fun _ => (h.flatMap_right _).mem_iff
  | @inside name _ _ before after hcontent ih =>
    have hmodule := SameSightings.cons
      (.module (m.child name.name) fun e => (perm_entries_of_rearranged hcontent).mem_iff)
      (ih (m.child name.name))
    simp only [sightingsAll_eq_flatMap, List.flatMap_append, List.flatMap_cons,
      Item.sightings] at hmodule ⊢
    exact (SameSightings.refl _).append (hmodule.append (.refl _))
  | trans _ _ ih ih' => exact (ih m).trans (ih' m)

theorem SourceUnit.IsRearranged.sameSightings {u u' : SourceUnit} (h : u.IsRearranged u') :
    SameSightings u.sightings u'.sightings := by
  rw [SourceUnit.sightings, SourceUnit.sightings, h.module]
  refine SameSightings.cons ?_ (sameSightings_of_rearranged h.items u'.module)
  exact .module _ fun e => (perm_entries_of_rearranged h.items).mem_iff

theorem sameSightings_of_rearrangedUnits {units units' : List SourceUnit}
    (h : RearrangedUnits units units') :
    SameSightings (sightingsOf units) (sightingsOf units') := by
  obtain ⟨order, hperm, hitems⟩ := h
  have horder : SameSightings (sightingsOf units) (sightingsOf order) :=
    .of_mem_iff fun _ => (hperm.flatMap_right _).mem_iff
  have hunits : SameSightings (sightingsOf order) (sightingsOf units') := by
    clear horder hperm
    induction hitems with
    | nil => exact .refl _
    | cons hu _ ih => exact hu.sameSightings.append ih
  exact horder.trans hunits

/-- Where no module binds a name in two ways, the order of the units and of the items in them and in
their inline modules does not matter to which types are found. -/
theorem rearranged_discovers_same_names {units units' : List SourceUnit}
    (hbinds : BindsConsistently units) (h : RearrangedUnits units units') (config : Config) :
    ∃ types types', (discover units config).run .never = (.ok types, []) ∧
      (discover units' config).run .never = (.ok types', []) ∧
      (types.map (·.name)).Perm (types'.map (·.name)) := by
  refine ⟨_, _, (yields_discover units config).run, (yields_discover units' config).run, ?_⟩
  rw [List.map_map, List.map_map]
  exact perm_names_of_same hbinds (sameSightings_of_rearrangedUnits h) config

/-- The names of the types that are found, in order. -/
def namesFound (units : List SourceUnit) (config : Config) : List String :=
  match ((discover units config).run .never).1 with
  | .ok types => types.map (·.name.text)
  | .error _ => []

/-- `#[derive(marker)] struct name;`. -/
def derivingStruct (name marker : String) : StructItem :=
  { attrs := [⟨false, .list ⟨false, [.plain "derive"]⟩ .paren [.word marker]⟩]
    visibility := .inherited
    name := .plain name
    generics := .none
    fields := .unit }

/-- `#[derive(path)] struct name;`. -/
def structDeriving (name : String) (path : List String) : StructItem :=
  { derivingStruct name "" with
    attrs := [⟨false, .list ⟨false, [.plain "derive"]⟩ .paren
      (Path.tokens ⟨false, path.map fun word => .plain (.plain word)⟩)⟩] }

/-- `use super::Mapped as RowMapped;`. -/
def superImport : Item :=
  .use false (.path (.plain "super") (.rename (.plain "Mapped") (.plain "RowMapped")))

/-- `use crate::prelude::RowMapped as Mapped;`. -/
def preludeImport : Item :=
  .use false (.path (.plain "crate") (.path (.plain "prelude")
    (.rename (.plain "RowMapped") (.plain "Mapped"))))

/-- The root of a crate in which two structs derive what a further unit imports. -/
def ordersRoot : SourceUnit :=
  ⟨.root, [.struct (derivingStruct "Customer" "Mapped"),
    .module (.plain "orders") (some [.struct (derivingStruct "Order" "RowMapped"), superImport]),
    preludeImport]⟩

def ordersRootRearranged : SourceUnit :=
  ⟨.root, [preludeImport,
    .module (.plain "orders") (some [superImport, .struct (derivingStruct "Order" "RowMapped")]),
    .struct (derivingStruct "Customer" "Mapped")]⟩

/-- `use ::rowmap::*;`. -/
def ordersPrelude : SourceUnit :=
  ⟨⟨["crate", "prelude"]⟩, [.use true (.path (.plain "rowmap") .glob)]⟩

/-- Imports stand behind their uses first, and in front of them then. -/
theorem rearranged_discovers_same_names_orders :
    BindsConsistently [ordersRoot, ordersPrelude] ∧
      RearrangedUnits [ordersRoot, ordersPrelude] [ordersPrelude, ordersRootRearranged] ∧
      namesFound [ordersRoot, ordersPrelude] .default =
        ["crate::Customer", "crate::orders::Order"] ∧
      namesFound [ordersPrelude, ordersRootRearranged] .default =
        ["crate::orders::Order", "crate::Customer"] ∧
      ∃ types types', (discover [ordersRoot, ordersPrelude] .default).run .never = (.ok types, []) ∧
        (discover [ordersPrelude, ordersRootRearranged] .default).run .never = (.ok types', []) ∧
        (types.map (·.name)).Perm (types'.map (·.name)) := by
  have hbinds : BindsConsistently [ordersRoot, ordersPrelude] := by decide +kernel
  have hroot : ordersRoot.IsRearranged ordersRootRearranged := by
    refine ⟨rfl, ?_⟩
    refine .trans (.inside [.struct (derivingStruct "Customer" "Mapped")] [preludeImport]
      (.perm (.swap superImport (.struct (derivingStruct "Order" "RowMapped")) []))) ?_
    exact .perm (List.reverse_perm _).symm
  have hprelude : ordersPrelude.IsRearranged ordersPrelude := ⟨rfl, .perm (.refl _)⟩
  have h : RearrangedUnits [ordersRoot, ordersPrelude] [ordersPrelude, ordersRootRearranged] :=
    ⟨[ordersPrelude, ordersRoot], .swap ordersPrelude ordersRoot [],
      .cons hprelude (.cons hroot .nil)⟩
  exact ⟨hbinds, h, by decide +kernel, by decide +kernel,
    rearranged_discovers_same_names hbinds h .default⟩

end RowFactory
