import Mathlib.Data.List.Forall2
import RowFactory.Proofs.Scan.DerivedPaths
import RowFactory.Proofs.Scan.Rearrangement

namespace RowFactory

/-- In the second list a struct has attributes that derive the same paths in the same order, at the
outermost level or in an inline module. -/
inductive AttributesRewritten : List Item → List Item → Prop
  | struct (item : StructItem) {attrs : List Attribute} (before after : List Item) :
    derivePaths item.attrs = derivePaths attrs →
    AttributesRewritten (before ++ .struct item :: after)
      (before ++ .struct { item with attrs } :: after)
  | inside (name : Ident) {body body' : List Item} (before after : List Item) :
    AttributesRewritten body body' →
    AttributesRewritten (before ++ .module name (some body) :: after)
      (before ++ .module name (some body') :: after)

/-- Structs have attributes that derive the same, in any of the units. -/
inductive AttributesRewrittenIn : List SourceUnit → List SourceUnit → Prop
  | unit (before after : List SourceUnit) (u : SourceUnit) {items : List Item} :
    AttributesRewritten u.items items →
    AttributesRewrittenIn (before ++ u :: after) (before ++ { u with items } :: after)
  | refl (units : List SourceUnit) : AttributesRewrittenIn units units
  | trans {units units' units'' : List SourceUnit} : AttributesRewrittenIn units units' →
    AttributesRewrittenIn units' units'' → AttributesRewrittenIn units units''

/-- The structs are the same but for attributes that derive the same. -/
def StructItem.DerivesAlike (item item' : StructItem) : Prop :=
  ∃ attrs, item' = { item with attrs } ∧ derivePaths item.attrs = derivePaths attrs

/-- A struct is seen with attributes that derive the same, a module with items that bind the same,
or all is the same. -/
inductive Sighting.DerivesAlike : Sighting → Sighting → Prop
  | refl (s : Sighting) : DerivesAlike s s
  | struct (m : ModulePath) {item item' : StructItem} : item.DerivesAlike item' →
    DerivesAlike (.struct m item) (.struct m item')
  | module (m : ModulePath) {items items' : List Item} :
    (∀ s : ModuleScope, items.foldl ModuleScope.bindItem s =
      items'.foldl ModuleScope.bindItem s) →
    DerivesAlike (.module m items) (.module m items')

theorem forall₂_derivesAlike_refl (seen : List Sighting) :
    List.Forall₂ Sighting.DerivesAlike seen seen :=
  List.forall₂_same.mpr fun x _ => .refl x

/-- A table says nothing of a struct but its name. -/
theorem AttributesRewritten.foldl_bindItem {items items' : List Item}
    (h : AttributesRewritten items items') (s : ModuleScope) :
    items.foldl ModuleScope.bindItem s = items'.foldl ModuleScope.bindItem s := by
  cases h with
  | struct item before after _ | inside name before after _ =>
    rw [List.foldl_append, List.foldl_append, List.foldl_cons, List.foldl_cons]
    rfl

theorem AttributesRewritten.sightings {items items' : List Item}
    (h : AttributesRewritten items items') (m : ModulePath) :
    List.Forall₂ Sighting.DerivesAlike (Item.sightingsAll m items)
      (Item.sightingsAll m items') := by
  induction h generalizing m with
  | struct item before after hattrs =>
    have hstruct : item.DerivesAlike _ := ⟨_, rfl, hattrs⟩
    simp only [sightingsAll_eq_flatMap, List.flatMap_append, List.flatMap_cons, Item.sightings]
    exact List.rel_append (forall₂_derivesAlike_refl _)
      (List.rel_append (.cons (.struct m hstruct) .nil) (forall₂_derivesAlike_refl _))
  | @inside name body body' before after hbody ih =>
    have hmodule := List.Forall₂.cons (.module (m.child name.name) hbody.foldl_bindItem)
      (ih (m.child name.name))
    simp only [sightingsAll_eq_flatMap, List.flatMap_append, List.flatMap_cons,
      Item.sightings] at hmodule ⊢
    exact List.rel_append (forall₂_derivesAlike_refl _)
      (List.rel_append hmodule (forall₂_derivesAlike_refl _))

section

variable {seen seen' : List Sighting}

theorem ofSightings_of_derivesAlike (h : List.Forall₂ Sighting.DerivesAlike seen seen') :
    Scopes.ofSightings seen = .ofSightings seen' := by
  have hadd : ∀ scopes : Scopes,
      seen.foldl Scopes.addSighting scopes = seen'.foldl Scopes.addSighting scopes := by
    induction h with
    | nil => exact fun _ => rfl
    | cons hxy _ ih =>
      intro scopes
      rw [List.foldl_cons, List.foldl_cons, ih]
      congr 1
      cases hxy with
      | refl => rfl
      | struct m _ => rfl
      | module m hitems => simp only [Scopes.addSighting, Scopes.bindItems, hitems]
  exact hadd .empty

theorem structsSeen_of_derivesAlike (h : List.Forall₂ Sighting.DerivesAlike seen seen') :
    List.Forall₂ (fun d d' => d.1 = d'.1 ∧ d.2.DerivesAlike d'.2) (structsSeen seen)
      (structsSeen seen') := by
  induction h with
  | nil => exact .nil
  | @cons x y rest rest' hxy _ ih =>
    cases hxy with
    | refl =>
      cases x with
      | struct m item => exact .cons ⟨rfl, item.attrs, rfl, rfl⟩ ih
      | module _ _ | implItems _ _ _ => exact ih
    | struct m hitem => exact .cons ⟨rfl, hitem⟩ ih
    | module m _ => exact ih

theorem implItemsOf_of_derivesAlike (h : List.Forall₂ Sighting.DerivesAlike seen seen')
    (m : ModulePath) (target : String) :
    implItemsOf m target seen = implItemsOf m target seen' := by
  unfold implItemsOf
  congr 1
  induction h with
  | nil => rfl
  | cons hxy _ ih =>
    rw [List.flatMap_cons, List.flatMap_cons, ih]
    cases hxy <;> rfl

/-- Structs are collected alike, step by step. -/
theorem collectMarked_of_derivesAlike (h : List.Forall₂ Sighting.DerivesAlike seen seen')
    (config : Config) (scopes : Scopes) {structs structs' : List (ModulePath × StructItem)}
    (hstructs : List.Forall₂ (fun d d' => d.1 = d'.1 ∧ d.2.DerivesAlike d'.2) structs structs')
    (types : List AnnotatedType) :
    collectMarked seen config scopes types structs =
      collectMarked seen' config scopes types structs' := by
  induction hstructs generalizing types with
  | nil => rfl
  | @cons d d' rest rest' hd _ ih =>
    obtain ⟨m, item⟩ := d
    obtain ⟨m', item'⟩ := d'
    obtain ⟨rfl, attrs, rfl, hattrs⟩ := hd
    have hmarker : carriesMarker scopes config m item =
        carriesMarker scopes config m { item with attrs } := by
      simp only [carriesMarker, hattrs]
    have htype : annotate seen m item = annotate seen' m { item with attrs } := by
      simp only [annotate, AnnotatedType.ofStruct, implItemsOf_of_derivesAlike h]
    simp only [collectMarked, hmarker, htype, ih]

end

/-- There is one check for each unit, whatever stands in it. -/
theorem forM_check_eq_of_length {units units' : List SourceUnit}
    (h : units.length = units'.length) :
    (units.forM fun _ => Pass.check) = units'.forM fun _ => Pass.check := by
  induction units generalizing units' with
  | nil => rw [List.length_eq_zero_iff.mp h.symm]
  | cons u rest ih =>
    obtain ⟨u', rest', rfl⟩ := List.exists_cons_of_length_eq_add_one h.symm
    have hrest := ih (by simpa using h)
    change (Pass.check >>= fun _ => rest.forM fun _ => Pass.check) =
      Pass.check >>= fun _ => rest'.forM fun _ => Pass.check
    rw [hrest]

theorem AttributesRewritten.sightings_unit {u : SourceUnit} {items : List Item}
    (h : AttributesRewritten u.items items) :
    List.Forall₂ Sighting.DerivesAlike u.sightings ({ u with items } : SourceUnit).sightings :=
  .cons (.module u.module h.foldl_bindItem) (h.sightings u.module)

theorem AttributesRewrittenIn.discover_eq {units units' : List SourceUnit}
    (h : AttributesRewrittenIn units units') (config : Config) :
    discover units config = discover units' config := by
  induction h with
  | refl => rfl
  | trans _ _ ih ih' => exact ih.trans ih'
  | @unit before after u items hitems =>
    have hseen : List.Forall₂ Sighting.DerivesAlike
        ((before ++ u :: after).flatMap SourceUnit.sightings)
        ((before ++ { u with items } :: after).flatMap SourceUnit.sightings) := by
      simp only [List.flatMap_append, List.flatMap_cons]
      exact List.rel_append (forall₂_derivesAlike_refl _)
        (List.rel_append hitems.sightings_unit (forall₂_derivesAlike_refl _))
    have hchecks : ((before ++ u :: after).forM fun _ => Pass.check) =
        (before ++ { u with items } :: after).forM fun _ => Pass.check :=
      forM_check_eq_of_length (by simp)
    have hcollect := collectMarked_of_derivesAlike hseen config
      (.ofSightings ((before ++ { u with items } :: after).flatMap SourceUnit.sightings))
      (structsSeen_of_derivesAlike hseen) []
    simp only [discover, hchecks, ofSightings_of_derivesAlike hseen, hcollect]

/-- Discovery is the same, check by check, whatever the attributes of structs are as long as the
same paths are derived in the same order. They are where lists of derives are split or joined, where
attributes are put under conditions, to any depth and next to other items, and where attributes are
inserted that derive nothing, such as a derive whose arguments are no list of paths. -/
theorem derived_paths_determine_discovery :
    (∀ attrs attrs', Rewritten attrs attrs' → derivePaths attrs = derivePaths attrs') ∧
      ∀ units units', AttributesRewrittenIn units units' →
        ∀ config, discover units config = discover units' config :=
  ⟨fun _ _ h => h.derivePaths_eq, fun _ _ h => h.discover_eq⟩

/-- The path of one name. -/
def wordPath (w : String) : Path := ⟨false, [.plain (.plain w)]⟩

theorem isPath_word (g : Grammar) {w : String} (h : (Ident.plain w).endsPath) :
    g.IsPath [.word w] (wordPath w) := by
  have hreadable : (wordPath w).IsReadable := ⟨.plain w, [], rfl, by simpa using h⟩
  have hreads : (g.path false).Reads ((wordPath w).tokens ++ []) [] (· = wordPath w) :=
    hreadable.reads_path g ⟨rfl, rfl⟩
  exact hreads

/-- `allow(dead_code)`. -/
def allowDeadCode : MetaItem := .list ⟨false, [.plain "allow"]⟩ .paren [.word "dead_code"]

/-- `unix, allow(dead_code), derive(RowMapped,)`. -/
def unixArguments : List Token :=
  .word "unix" :: .punct ',' false :: (allowDeadCode.tokens ++ .punct ',' false ::
    (deriveList .paren [.word "RowMapped", .punct ',' false]).tokens)

/-- `feature = "db", derive(Debug), cfg_attr(unix, allow(dead_code), derive(RowMapped,))`. -/
def featureArguments : List Token :=
  .word "feature" :: .punct '=' false :: .literal "\"db\"" :: .punct ',' false ::
    ((deriveList .paren [.word "Debug"]).tokens ++ .punct ',' false ::
      (cfgAttrList .paren unixArguments).tokens)

/-- `#[derive(Debug, RowMapped)]`. -/
def plainAttributes : List Attribute :=
  [⟨false, deriveList .paren [.word "Debug", .punct ',' false, .word "RowMapped"]⟩]

/-- The same derives under conditions, and an attribute `#[derive(1)]`. -/
def nestedAttributes : List Attribute :=
  [⟨false, cfgAttrList .paren featureArguments⟩, ⟨false, deriveList .paren [.literal "1"]⟩]

theorem namesAttribute_word {w : String} (h : (Ident.plain w).isKeyword = false) :
    NamePath.NamesAttribute ⟨false, [.plain w]⟩ :=
  .inr ⟨List.cons_ne_nil _ _, fun i hi => .inl (by rwa [List.mem_singleton.mp hi])⟩

theorem isMeta_unixArguments : CommaList (Grammar.forTokens unixArguments).IsMeta unixArguments
    [.path ⟨false, [.plain "unix"]⟩, allowDeadCode,
      deriveList .paren [.word "RowMapped", .punct ',' false]] := by
  have hunix : (Grammar.forTokens unixArguments).IsMeta [.word "unix"]
      (.path ⟨false, [.plain "unix"]⟩) := .path (namesAttribute_word (by decide))
  have hallow : (Grammar.forTokens unixArguments).IsMeta allowDeadCode.tokens allowDeadCode :=
    .list .paren _ (namesAttribute_word (by decide))
  have hderive : (Grammar.forTokens unixArguments).IsMeta
      (deriveList .paren [.word "RowMapped", .punct ',' false]).tokens (deriveList .paren _) :=
    .list .paren _ (namesAttribute_word (by decide))
  exact .more false hunix (.more false hallow (.last hderive))

theorem isMeta_featureArguments :
    CommaList (Grammar.forTokens featureArguments).IsMeta featureArguments
      [.value ⟨false, [.plain "feature"]⟩ .literal [.literal "\"db\""],
        deriveList .paren [.word "Debug"], cfgAttrList .paren unixArguments] := by
  have hfeature : (Grammar.forTokens featureArguments).IsMeta
      [.word "feature", .punct '=' false, .literal "\"db\""]
      (.value ⟨false, [.plain "feature"]⟩ .literal [.literal "\"db\""]) :=
    .value false .literal _ (namesAttribute_word (by decide)) (Grammar.isExpr_literal _ _) rfl
  have hderive : (Grammar.forTokens featureArguments).IsMeta
      (deriveList .paren [.word "Debug"]).tokens (deriveList .paren _) :=
    .list .paren _ (namesAttribute_word (by decide))
  have hcfg : (Grammar.forTokens featureArguments).IsMeta
      (cfgAttrList .paren unixArguments).tokens (cfgAttrList .paren _) :=
    .list .paren _ (namesAttribute_word (by decide))
  exact .more false hfeature (.more false hderive (.last hcfg))

theorem rewritten_nestedAttributes : Rewritten plainAttributes nestedAttributes := by
  have hdebug (g : Grammar) : g.IsPath [.word "Debug"] (wordPath "Debug") :=
    isPath_word g (by decide)
  have hmarker (g : Grammar) : g.IsPath [.word "RowMapped"] (wordPath "RowMapped") :=
    isPath_word g (by decide)
  have hjoined : AreDerives plainAttributes [wordPath "Debug", wordPath "RowMapped"] :=
    .cons false .paren (.more false (hdebug _) (.last (hmarker _))) .nil
  have hlast : AreDerives [⟨false, deriveList .paren [.word "RowMapped", .punct ',' false]⟩]
      [wordPath "RowMapped"] := .cons false .paren (.more false (hmarker _) .nil) .nil
  have hsplit : AreDerives [⟨false, deriveList .paren [.word "Debug"]⟩,
      ⟨false, deriveList .paren [.word "RowMapped", .punct ',' false]⟩]
      [wordPath "Debug", wordPath "RowMapped"] := .cons false .paren (.last (hdebug _)) hlast
  have hallow : Rewritten [] [⟨false, allowDeadCode⟩] :=
    .inserted false (.other fun key d arguments h => by cases h; decide)
  have hone : Rewritten [] [⟨false, deriveList .paren [.literal "1"]⟩] :=
    .inserted false (.noPaths .paren (Option.isNone_iff_eq_none.mp (by decide +kernel)))
  have hinner := (hallow.append (.refl [⟨false, deriveList .paren
    [.word "RowMapped", .punct ',' false]⟩])).trans (.conditional false .paren isMeta_unixArguments)
  have houter := ((Rewritten.refl [⟨false, deriveList .paren [.word "Debug"]⟩]).append hinner).trans
    (.conditional false .paren isMeta_featureArguments)
  exact ((Rewritten.derives hjoined hsplit).trans houter).append hone

/-- A struct in an inline module that imports the marker's name. -/
def attributedStruct (attrs : List Attribute) : Item :=
  .module (.plain "crm") (some [.use false (.path (.plain "rowmap") (.name (.plain "RowMapped"))),
    .struct { derivingStruct "Customer" "" with attrs }])

theorem derived_paths_determine_discovery_nested :
    Rewritten plainAttributes nestedAttributes ∧
      AttributesRewrittenIn [⟨.root, [attributedStruct plainAttributes]⟩]
        [⟨.root, [attributedStruct nestedAttributes]⟩] ∧
      discover [⟨.root, [attributedStruct plainAttributes]⟩] .default =
        discover [⟨.root, [attributedStruct nestedAttributes]⟩] .default ∧
      namesFound [⟨.root, [attributedStruct nestedAttributes]⟩] .default =
        ["crate::crm::Customer"] := by
  obtain ⟨hderived, hdiscover⟩ := derived_paths_determine_discovery
  have hitems : AttributesRewritten [attributedStruct plainAttributes]
      [attributedStruct nestedAttributes] :=
    .inside (.plain "crm") [] [] (.struct { derivingStruct "Customer" "" with
      attrs := plainAttributes } [.use false (.path (.plain "rowmap") (.name (.plain "RowMapped")))]
      [] (hderived _ _ rewritten_nestedAttributes))
  have hunits : AttributesRewrittenIn [⟨.root, [attributedStruct plainAttributes]⟩]
      [⟨.root, [attributedStruct nestedAttributes]⟩] :=
    .unit [] [] ⟨.root, [attributedStruct plainAttributes]⟩ hitems
  exact ⟨rewritten_nestedAttributes, hunits, hdiscover _ _ hunits .default, by decide +kernel⟩

end RowFactory
