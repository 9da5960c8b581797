import RowFactory.Proofs.Factory.OfStruct
import RowFactory.Proofs.Generation.Outcome
import RowFactory.Proofs.Scan.Rearrangement

namespace RowFactory

/-- In the second list of items the module that the names lead to is only declared; in the first it
stands inline, with the given content. -/
inductive Detached : List String → List Item → List Item → List Item → Prop
  | here (name : Ident) (content before after : List Item) :
    Detached [name.name] content (before ++ .module name (some content) :: after)
      (before ++ .module name none :: after)
  | inside (name : Ident) {names : List String} {content body body' : List Item}
      (before after : List Item) : Detached names content body body' →
    Detached (name.name :: names) content (before ++ .module name (some body) :: after)
      (before ++ .module name (some body') :: after)

section

variable {names : List String} {content items items' : List Item}

/-- A module is declared by its name, whatever stands in it. -/
theorem Detached.entries (h : Detached names content items items') :
    items.flatMap Item.entries = items'.flatMap Item.entries := by
  cases h <;> simp only [List.flatMap_append, List.flatMap_cons, Item.entries, Item.declaredName?]

/-- The unit of its own brings in what the inline module brought in. -/
theorem Detached.sameSightings (h : Detached names content items items') (m : ModulePath) :
    SameSightings (Item.sightingsAll m items)
      (Item.sightingsAll m items' ++ SourceUnit.sightings ⟨⟨m.segments ++ names⟩, content⟩) := by
  induction h generalizing m with
  | here name content before after =>
    refine .of_mem_iff fun x => ?_
    simp only [sightingsAll_eq_flatMap, List.flatMap_append, List.flatMap_cons, Item.sightings,
      SourceUnit.sightings, ModulePath.child, List.mem_append, List.mem_cons, List.not_mem_nil]
    tauto
  | @inside name names content body body' before after hbody ih =>
    have hplace : (⟨m.segments ++ name.name :: names⟩ : ModulePath) =
        ⟨(m.child name.name).segments ++ names⟩ := by simp [ModulePath.child]
    have hmodule : Sighting.Alike (.module (m.child name.name) body)
        (.module (m.child name.name) body') := .module _ fun e => by rw [hbody.entries]
    have hinline := (SameSightings.refl (before.flatMap (Item.sightings m))).append
      ((SameSightings.cons hmodule (ih (m.child name.name))).append
        (.refl (after.flatMap (Item.sightings m))))
    rw [hplace]
    simp only [sightingsAll_eq_flatMap, List.flatMap_append, List.flatMap_cons,
      Item.sightings] at hinline ⊢
    refine hinline.trans (.of_mem_iff fun x => ?_)
    simp only [List.mem_append, List.mem_cons]
    tauto

end

/-- The units with an inline module written in a unit of its own, in any place among the others. -/
theorem sameSightings_of_detached {before after units' : List SourceUnit} {u : SourceUnit}
    {names : List String} {content items' : List Item} (h : Detached names content u.items items')
    (hunits : units'.Perm
      (⟨u.place names, content⟩ :: before ++ { u with items := items' } :: after)) :
    SameSightings (sightingsOf (before ++ u :: after)) (sightingsOf units') := by
  have hmodule : Sighting.Alike (.module u.module u.items) (.module u.module items') :=
    .module _ fun e => by rw [h.entries]
  have hunit := SameSightings.cons hmodule (h.sameSightings u.module)
  have hall := (SameSightings.refl (sightingsOf before)).append
    (hunit.append (.refl (sightingsOf after)))
  have horder : SameSightings
      (sightingsOf (⟨u.place names, content⟩ :: before ++ { u with items := items' } :: after))
      (sightingsOf units') := .of_mem_iff fun _ => (hunits.flatMap_right _).mem_iff.symm
  simp only [sightingsOf, List.flatMap_append, List.flatMap_cons] at hall horder ⊢
  refine hall.trans (.trans (.of_mem_iff fun x => ?_) horder)
  simp only [SourceUnit.sightings, SourceUnit.place, List.cons_append, List.mem_append,
    List.mem_cons]
  tauto

/-- Both generations succeed, with the same artifacts in any order, or both fail. -/
def SameArtifacts : Except GenerationError (List Artifact) →
    Except GenerationError (List Artifact) → Prop
  | .ok artifacts, .ok artifacts' => artifacts.Perm artifacts'
  | .error _, .error _ => True
  | _, _ => False

theorem SameArtifacts.trans : ∀ {a b c : Except GenerationError (List Artifact)},
    SameArtifacts a b → SameArtifacts b c → SameArtifacts a c
  | .ok _, .ok _, .ok _, h, h' => List.Perm.trans h h'
  | .error _, .error _, .error _, _, _ => trivial
  | .ok _, .error _, _, h, _ | .error _, .ok _, _, h, _ => h.elim
  | _, .ok _, .error _, _, h' | _, .error _, .ok _, _, h' => h'.elim

/-- Types in another order give the same artifacts, though another one may fail first. -/
theorem sameArtifacts_mapM {α : Type} {f : α → Except GenerationError Artifact} {xs ys : List α}
    (h : xs.Perm ys) : SameArtifacts (xs.mapM f) (ys.mapM f) := by
  induction h with
  | nil => exact List.Perm.nil
  | @cons x xs ys _ ih =>
    rw [List.mapM_cons, List.mapM_cons]
    cases f x with
    | error e => exact trivial
    | ok a =>
      revert ih
      cases xs.mapM f <;> cases ys.mapM f
      · exact id
      · exact id
      · exact id
      · exact fun ih => List.Perm.cons a ih
  | swap x y rest =>
    simp only [List.mapM_cons]
    cases f x <;> cases f y <;> cases rest.mapM f
    case ok.ok.ok a b artifacts => exact List.Perm.swap a b artifacts
    all_goals exact trivial
  | trans _ _ ih ih' => exact ih.trans ih'

/-- The artifact of a struct, which the items of its `impl` blocks do not matter to. -/
def emitStruct (config : Config) (printer : Printer) (d : ModulePath × StructItem) :
    Except GenerationError Artifact :=
  emit (annotate [] d.1 d.2) (annotate [] d.1 d.2).bindings config.runtime printer

theorem emit_annotate (sightings : List Sighting) (config : Config) (printer : Printer)
    (d : ModulePath × StructItem) :
    emit (annotate sightings d.1 d.2) (annotate sightings d.1 d.2).bindings config.runtime printer =
      emitStruct config printer d := by
  unfold emitStruct emit annotate
  rw [ofType?_ofStruct, ofType?_ofStruct]
  rfl

theorem generate_eq_mapM_emitStruct (units : List SourceUnit) (config : Config)
    (printer : Printer) :
    generate units config printer =
      (firstMarkedStructs units config).mapM (emitStruct config printer) := by
  rw [generate_eq_mapM, markedTypes, List.mapM_map]
  congr 1
  funext d
  exact emit_annotate _ config printer d

/-- It makes no difference to what is generated whether a module stands inline or in a unit of its
own, wherever that unit comes. -/
theorem generate_detached {before after units' : List SourceUnit} {u : SourceUnit}
    {names : List String} {content items' : List Item}
    (hbinds : BindsConsistently (before ++ u :: after))
    (hnames : ((declaredStructs (before ++ u :: after)).map declaredName).Nodup)
    (h : Detached names content u.items items')
    (hunits : units'.Perm
      (⟨u.place names, content⟩ :: before ++ { u with items := items' } :: after))
    (config : Config) (printer : Printer) :
    SameArtifacts (generate (before ++ u :: after) config printer)
      (generate units' config printer) := by
  rw [generate_eq_mapM_emitStruct, generate_eq_mapM_emitStruct]
  exact sameArtifacts_mapM
    (perm_firstMarked_of_same hbinds hnames (sameSightings_of_detached h hunits) config)

/-- The root with its inline module written elsewhere. -/
def ordersRootDetached : SourceUnit :=
  { ordersRoot with
    items := [.struct (derivingStruct "Customer" "Mapped"), .module (.plain "orders") none,
      preludeImport] }

def ordersModule : SourceUnit :=
  ⟨⟨["crate", "orders"]⟩, [.struct (derivingStruct "Order" "RowMapped"), superImport]⟩

/-- The files that are generated, none if generation fails. -/
def hintsOf (units : List SourceUnit) (config : Config) (printer : Printer) : List String :=
  match generate units config printer with
  | .ok artifacts => artifacts.map (·.hint)
  | .error _ => []

/-- The module imports from its parent, and the unit with its text comes first. -/
theorem generate_detached_orders :
    BindsConsistently [ordersRoot, ordersPrelude] ∧
      ((declaredStructs [ordersRoot, ordersPrelude]).map declaredName).Nodup ∧
      Detached ["orders"] ordersModule.items ordersRoot.items ordersRootDetached.items ∧
      hintsOf [ordersRoot, ordersPrelude] .default .compact =
        ["Customer.rowmap.rs", "orders.Order.rowmap.rs"] ∧
      hintsOf [ordersModule, ordersRootDetached, ordersPrelude] .default .compact =
        ["orders.Order.rowmap.rs", "Customer.rowmap.rs"] ∧
      SameArtifacts (generate [ordersRoot, ordersPrelude] .default .compact)
        (generate [ordersModule, ordersRootDetached, ordersPrelude] .default .compact) := by
  have hbinds : BindsConsistently [ordersRoot, ordersPrelude] := by decide +kernel
  have hnames : ((declaredStructs [ordersRoot, ordersPrelude]).map declaredName).Nodup := by
    decide +kernel
  have h : Detached ["orders"] ordersModule.items ordersRoot.items ordersRootDetached.items :=
    .here (.plain "orders") ordersModule.items [.struct (derivingStruct "Customer" "Mapped")]
      [preludeImport]
  exact ⟨hbinds, hnames, h, by decide +kernel, by decide +kernel,
    @generate_detached [] [ordersPrelude] _ ordersRoot _ _ _ hbinds hnames h (.refl _) .default
      .compact⟩

end RowFactory
