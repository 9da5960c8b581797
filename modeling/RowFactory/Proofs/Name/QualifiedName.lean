import RowFactory.Name.QualifiedName
import RowFactory.Proofs.Source.Spelling

namespace RowFactory

/-- A module's name as it is written in a path. -/
def moduleIdent (name : String) : Ident :=
  ⟨!pathKeywords.contains name && keywords.contains name, name⟩

/-- The name can be an identifier, perhaps only a raw one. -/
def IsModuleName (name : String) : Prop := isIdentifier name.toList ∧ name ≠ "_"

instance (name : String) : Decidable (IsModuleName name) := inferInstanceAs (Decidable (_ ∧ _))

theorem segmentIdent?_eq_some {name : String} (h : IsModuleName name) :
    segmentIdent? name = some (moduleIdent name) := by
  unfold segmentIdent? moduleIdent
  cases hp : pathKeywords.contains name with
  | true => simp [Ident.plain]
  | false => simp [h.1, h.2]

theorem isModuleName_of_segmentIdent? {name : String} {i : Ident}
    (h : segmentIdent? name = some i) : IsModuleName name := by
  have hpath : ∀ n ∈ pathKeywords, IsModuleName n := by decide
  unfold segmentIdent? at h
  split at h
  case isTrue hkeyword => exact hpath name (by simpa using hkeyword)
  case isFalse =>
    split at h
    case isTrue => cases h
    case isFalse hname => simpa [IsModuleName] using hname

/-- Only words that have a raw form are written raw. -/
theorem isSpelled_moduleIdent {name : String} (h : IsModuleName name) :
    (moduleIdent name).isSpelled := by
  have hraw : ∀ n ∈ keywords, n ∉ pathKeywords → n ≠ "_" → neverRaw n = false := by decide
  simp only [Ident.isSpelled, moduleIdent, h.1, Bool.true_and, Bool.not_eq_true']
  cases hpath : pathKeywords.contains name with
  | true => rfl
  | false =>
    cases hkeyword : keywords.contains name with
    | false => rfl
    | true => simpa using hraw name (by simpa using hkeyword) (by simpa using hpath) h.2

theorem endsPath_moduleIdent (name : String) : (moduleIdent name).endsPath := by
  simp only [moduleIdent, Ident.endsPath, Ident.isKeyword]
  cases pathKeywords.contains name <;> cases keywords.contains name <;> rfl

theorem endsPath_names {i : Ident} (names : List String) (hi : i.endsPath) :
    ∀ j ∈ names.map moduleIdent ++ [i], j.endsPath := by
  simp only [List.mem_append, List.mem_map, List.mem_singleton]
  rintro j (⟨name, -, rfl⟩ | rfl)
  · exact endsPath_moduleIdent name
  · exact hi

namespace QualifiedName

theorem idents?_eq_ok {names : List String} (h : ∀ n ∈ names, IsModuleName n) :
    idents? names = .ok (names.map moduleIdent) := by
  induction names with
  | nil => rfl
  | cons name rest ih =>
    have hrest := ih fun n hn => h n (by simp [hn])
    simp [idents?, segmentIdent?_eq_some (h name (by simp)), hrest, Except.map]

theorem isModuleName_of_idents? {names : List String} {is : List Ident}
    (h : idents? names = .ok is) : ∀ n ∈ names, IsModuleName n := by
  induction names generalizing is with
  | nil => simp
  | cons name names ih =>
    rw [idents?] at h
    cases hi : segmentIdent? name with
    | none => simp [hi] at h
    | some i =>
      cases hrest : idents? names with
      | error e => simp [hi, hrest, Except.map] at h
      | ok rest =>
        simp only [List.mem_cons]
        rintro n (rfl | hn)
        · exact isModuleName_of_segmentIdent? hi
        · exact ih hrest n hn

/-- A type that is referred to by a path stands in modules whose names can be written. -/
theorem isModuleName_of_path? {n : QualifiedName} {p : Path} (h : n.path? = .ok p) :
    ∀ name ∈ n.module.segments, IsModuleName name := by
  unfold path? at h
  cases hmodules : idents? n.module.segments with
  | error e => simp [hmodules, bind, Except.bind] at h
  | ok modules => exact isModuleName_of_idents? hmodules

/-- The path is made of the modules' names and the type's own identifier as it is spelled, unless
that is a reserved word. -/
theorem path?_eq {n : QualifiedName} (h : ∀ name ∈ n.module.segments, IsModuleName name) :
    n.path? =
      if n.ident.endsPath then
        .ok ⟨false, (n.module.segments.map moduleIdent ++ [n.ident]).map .plain⟩
      else .error (.reserved n.ident) := by
  unfold path?
  rw [idents?_eq_ok h]
  rfl

end QualifiedName

end RowFactory
