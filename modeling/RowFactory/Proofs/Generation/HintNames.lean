import RowFactory.Proofs.Generation.Outcome
import RowFactory.Proofs.Name.HintName
import RowFactory.Proofs.Scan.DeclaredNames

namespace RowFactory

theorem nodup_map_congr {α β γ : Type} {f : α → β} {g : α → γ} {xs : List α}
    (h : ∀ a ∈ xs, ∀ b ∈ xs, f a = f b ↔ g a = g b) : (xs.map f).Nodup ↔ (xs.map g).Nodup := by
  rw [List.Nodup, List.Nodup, List.pairwise_map, List.pairwise_map]
  exact List.Pairwise.iff_of_mem fun ha hb => not_congr (h _ ha _ hb)

theorem map_fst_targets (directory : String) (artifacts : List Artifact) :
    ((Writer.into directory).targets artifacts).map (·.1) =
      (artifacts.map (·.hint) ++ [indexFileName]).map (joinPath directory) := by
  simp [Writer.targets, Writer.into]

variable {texts : List (String × String)} {units : List SourceUnit} {config : Config}
  {printer : Printer} {artifacts : List Artifact}

theorem path?_of_emits {t : AnnotatedType} {a : Artifact} (h : Emits config printer t a) :
    ∃ p, t.name.path? = .ok p := by
  cases hpath : t.name.path? with
  | ok p => exact ⟨p, rfl⟩
  | error e =>
    have hfactory : Factory.ofType? t t.bindings config.runtime = .error e := by
      rw [Factory.ofType?, hpath]
      rfl
    rw [Emits, emit, hfactory] at h
    cases e <;> cases h

/-- The files are named after the types. -/
theorem hints_eq (h : List.Forall₂ (Emits config printer) (markedTypes units config) artifacts) :
    artifacts.map (·.hint) =
      (firstMarkedStructs units config).map fun d => (declaredName d).hintName := by
  rw [map_eq_of_emits (fun _ _ hemit => (name_of_emit hemit).2) h, markedTypes, List.map_map]
  rfl

/-- The names that a file is called by are names that can be written. -/
theorem isIdentifier_of_mem_hintParts
    (hunits : SourceUnit.ofTexts? texts = some units)
    (h : List.Forall₂ (Emits config printer) (markedTypes units config) artifacts)
    {d : ModulePath × StructItem} (hd : d ∈ firstMarkedStructs units config) :
    ∀ part ∈ (declaredName d).hintParts, isIdentifier part.toList := by
  have hpath : ∃ p, (declaredName d).path? = .ok p := by
    have hmem : annotate (sightingsOf units) d.1 d.2 ∈ markedTypes units config :=
      List.mem_map_of_mem hd
    obtain ⟨i, hi, heq⟩ := List.getElem_of_mem hmem
    have hemit := h.get (i := i) hi (h.length_eq ▸ hi)
    rw [List.get_eq_getElem, heq] at hemit
    exact path?_of_emits hemit
  obtain ⟨p, hp⟩ := hpath
  intro part hpart
  rcases List.mem_append.mp hpart with hpart | hpart
  · exact (QualifiedName.isModuleName_of_path? hp part ((List.dropWhile_sublist _).mem hpart)).1
  · obtain rfl := List.mem_singleton.mp hpart
    have hname := (wellNamed_of_mem_declaredStructs hunits (mem_declaredStructs_of_first hd)).1.name.1
    rw [Ident.isSpelled, Bool.and_eq_true] at hname
    exact hname.1

/-- A generation that succeeds gives no file the index's name, and no two types one file, unless
they have the same name, raw or not, and their modules are the same but for words `crate` in front.
What is written into a directory, the index included, is distinct files exactly then. -/
theorem hints_nodup_iff
    (hunits : SourceUnit.ofTexts? texts = some units)
    (h : generate units config printer = .ok artifacts) :
    indexFileName ∉ artifacts.map (·.hint) ∧
    ((artifacts.map (·.hint)).Nodup ↔
      ((firstMarkedStructs units config).map fun d => (declaredName d).hintParts).Nodup) ∧
    ∀ directory, (((Writer.into directory).targets artifacts).map (·.1)).Nodup ↔
      (artifacts.map (·.hint)).Nodup := by
  have hemits := generate_eq_ok_iff.mp h
  have hhints := hints_eq hemits
  have hparts : ∀ d ∈ firstMarkedStructs units config, ∀ part ∈ (declaredName d).hintParts,
      isIdentifier part.toList := fun d hd => isIdentifier_of_mem_hintParts hunits hemits hd
  have hwithout : ∀ c, isIdentifierContinue c = false → ∀ d ∈ firstMarkedStructs units config,
      ∀ part ∈ (declaredName d).hintParts, c ∉ part.toList := fun c hc d hd part hpart =>
    not_mem_of_isIdentifier (hparts d hd part hpart) hc
  have hindex : indexFileName ∉ artifacts.map (·.hint) := by
    rw [hhints, List.mem_map]
    rintro ⟨d, -, hd⟩
    exact QualifiedName.hintName_ne_indexFileName _ hd
  have hslash : ∀ hint ∈ artifacts.map (·.hint) ++ [indexFileName],
      hint.toList.head? ≠ some '/' := by
    intro hint hmem hhead
    rcases List.mem_append.mp hmem with hmem | hmem
    · rw [hhints] at hmem
      obtain ⟨d, hd, rfl⟩ := List.mem_map.mp hmem
      exact QualifiedName.slash_not_mem_hintName (hwithout '/' (by decide) d hd)
        (List.mem_of_mem_head? hhead)
    · obtain rfl := List.mem_singleton.mp hmem
      revert hhead
      decide
  refine ⟨hindex, ?_, fun directory => ?_⟩
  · rw [hhints]
    exact nodup_map_congr fun d hd e he => QualifiedName.hintName_inj
      (hwithout '.' (by decide) d hd) (hwithout '.' (by decide) e he)
  · have hplaces := nodup_map_congr (f := joinPath directory) (g := id)
      fun a ha b hb => joinPath_inj (hslash a ha) (hslash b hb)
    rw [map_fst_targets, hplaces, List.map_id, List.nodup_append]
    refine ⟨fun hnodup => hnodup.1, fun hnodup => ⟨hnodup, by simp, ?_⟩⟩
    rintro hint hmem _ hname rfl
    exact hindex (List.mem_singleton.mp hname ▸ hmem)

/-- The files that are generated for texts under the settings by default. -/
def hintsOf? (texts : List (String × String)) (printer : Printer) : Option (List String) := do
  let units ← SourceUnit.ofTexts? texts
  match generate units .default printer with
  | .ok artifacts => return artifacts.map (·.hint)
  | .error _ => none

theorem exists_generate_of_hintsOf? {hints : List String} (h : hintsOf? texts printer = some hints) :
    ∃ units artifacts, SourceUnit.ofTexts? texts = some units ∧
      generate units .default printer = .ok artifacts ∧ artifacts.map (·.hint) = hints := by
  obtain ⟨units, hunits, h⟩ := Option.bind_eq_some_iff.mp h
  cases hgenerate : generate units .default printer with
  | error e => simp [hgenerate] at h
  | ok artifacts =>
    simp only [hgenerate] at h
    exact ⟨units, artifacts, hunits, hgenerate, Option.some.inj h⟩

theorem hints_nodup_crm :
    ∃ units artifacts,
      SourceUnit.ofTexts?
        [("crm", "mod r#type \x7b #[derive(rowmap::RowMapped)] struct Customer; \x7d"),
          ("crate::crm", "#[derive(rowmap::RowMapped)] struct Customer;")] = some units ∧
      generate units .default .pretty = .ok artifacts ∧
      artifacts.map (·.hint) = ["crm.type.Customer.rowmap.rs", "crm.Customer.rowmap.rs"] ∧
      indexFileName ∉ artifacts.map (·.hint) ∧
      ((firstMarkedStructs units .default).map fun d => (declaredName d).hintParts).Nodup ∧
      (((Writer.into "out").targets artifacts).map (·.1)).Nodup := by
  have hrun : hintsOf?
      [("crm", "mod r#type \x7b #[derive(rowmap::RowMapped)] struct Customer; \x7d"),
        ("crate::crm", "#[derive(rowmap::RowMapped)] struct Customer;")] .pretty =
      some ["crm.type.Customer.rowmap.rs", "crm.Customer.rowmap.rs"] := by decide +kernel
  obtain ⟨units, artifacts, hunits, h, hhints⟩ := exists_generate_of_hintsOf? hrun
  obtain ⟨hindex, hparts, htargets⟩ := hints_nodup_iff hunits h
  have hnodup : (artifacts.map (·.hint)).Nodup := by
    rw [hhints]
    decide
  exact ⟨units, artifacts, hunits, h, hhints, hindex, hparts.mp hnodup, (htargets "out").mpr hnodup⟩

/-- Every word `crate` in front of a module's path is left out of the file's name. -/
theorem hints_collide_below_crate :
    ∃ units artifacts,
      SourceUnit.ofTexts? [("crate", "#[derive(rowmap::RowMapped)] struct A;"),
        ("crate::crate", "#[derive(rowmap::RowMapped)] struct A;")] = some units ∧
      generate units .default .pretty = .ok artifacts ∧
      artifacts.map (·.hint) = ["A.rowmap.rs", "A.rowmap.rs"] :=
  exists_generate_of_hintsOf? (by decide +kernel)

end RowFactory
