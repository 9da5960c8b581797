import RowFactory.Proofs.Name.Spellings

namespace RowFactory

/-- An identifier, or a reserved word that has a raw form. -/
def Ident.MayBeRaw (i : Ident) : Prop := isIdentifier i.name.toList ∧ neverRaw i.name = false

variable {i : Ident}

theorem isModuleName_of_mayBeRaw (h : i.MayBeRaw) : IsModuleName i.name := by
  refine ⟨h.1, fun hblank => ?_⟩
  have hnever := h.2
  rw [hblank] at hnever
  revert hnever
  decide

/-- What stands between the colons for a name: neither a blank nor a colon. -/
theorem mem_text {c : Char} (h : isIdentifier i.name.toList) (hc : c ∈ i.text.toList) :
    c ≠ ':' ∧ isBlank c = false := by
  have hname : c ∈ i.name.toList → c ≠ ':' ∧ isBlank c = false := by
    intro hmem
    have hcontinue := isIdentifierContinue_of_mem h hmem
    refine ⟨?_, isBlank_eq_false hcontinue⟩
    rintro rfl
    exact absurd hmem (not_mem_of_isIdentifier h (by decide))
  unfold Ident.text at hc
  split at hc
  · rw [String.toList_append, List.mem_append] at hc
    rcases hc with hc | hc
    · have hmark : ∀ c ∈ "r#".toList, c ≠ ':' ∧ isBlank c = false :=
        forall_mem_of_all (by decide)
      exact hmark c hc
    · exact hname hc
  · exact hname hc

/-- The text of a path of modules, from the root or not. -/
def moduleText (rooted : Bool) (names : List Ident) : String :=
  "::".intercalate (((if rooted then [Ident.plain "crate"] else []) ++ names).map Ident.text)

/-- The path is the names below the root, none of them raw. -/
theorem ofText_moduleText (rooted : Bool) {names : List Ident} (h : ∀ i ∈ names, i.MayBeRaw) :
    ModulePath.ofText (moduleText rooted names) = ⟨"crate" :: names.map (·.name)⟩ := by
  have hnames : ∀ i ∈ names, isIdentifier i.name.toList := fun i hi => (h i hi).1
  cases rooted with
  | true =>
    have hall : ∀ name ∈ (Ident.plain "crate" :: names).map (·.name), isIdentifier name.toList :=
      List.forall_mem_cons.mpr ⟨by decide, by simpa using hnames⟩
    exact ModulePath.ofText_of_spells (spells_idents (Ident.plain "crate" :: names)) hall
  | false =>
    have hpath := ModulePath.ofText_of_spells (spells_idents names) (by simpa using hnames)
    have hroot : (names.map (·.name)).head? ≠ some "crate" := by
      cases names with
      | nil => simp
      | cons i rest =>
        intro hhead
        have hnever := (h i (by simp)).2
        rw [show i.name = "crate" by simpa using hhead] at hnever
        revert hnever
        decide
    rw [ModulePath.anchored, if_neg hroot] at hpath
    exact hpath

end RowFactory
