import RowFactory.Output.Writer
import RowFactory.Proofs.Name.QualifiedName

namespace RowFactory

theorem not_mem_of_isIdentifier {name : String} {c : Char} (h : isIdentifier name.toList)
    (hc : isIdentifierContinue c = false) : c ∉ name.toList := by
  cases hcs : name.toList with
  | nil => simp
  | cons d ds =>
    rw [hcs, isIdentifier, Bool.and_eq_true, List.all_eq_true] at h
    intro hmem
    have hcontinue : isIdentifierContinue c := by
      rcases List.mem_cons.mp hmem with rfl | hmem
      · exact isIdentifierContinue_of_start h.1
      · exact h.2 c hmem
    rw [hc] at hcontinue
    cases hcontinue

namespace QualifiedName

/-- What the name of a type's file is made of: the modules below the root, and the type's name. -/
def hintParts (n : QualifiedName) : List String :=
  n.module.segments.dropWhile (· = "crate") ++ [n.simpleName]

theorem hintName_eq (n : QualifiedName) :
    n.hintName = ".".intercalate n.hintParts ++ artifactSuffix := rfl

variable {n m : QualifiedName}

/-- Names without dots are read back from a file's name. -/
theorem hintName_inj (hn : ∀ part ∈ n.hintParts, '.' ∉ part.toList)
    (hm : ∀ part ∈ m.hintParts, '.' ∉ part.toList) :
    n.hintName = m.hintName ↔ n.hintParts = m.hintParts := by
  have hsplit : ∀ k : QualifiedName, (∀ part ∈ k.hintParts, '.' ∉ part.toList) →
      (".".intercalate k.hintParts).toList.splitOn '.' = k.hintParts.map String.toList := by
    intro k hk
    rw [String.toList_intercalate]
    refine List.splitOn_intercalate '.' ?_ (by simp [hintParts])
    rintro l hl
    obtain ⟨part, hpart, rfl⟩ := List.mem_map.mp hl
    exact hk part hpart
  constructor
  · intro h
    have hjoined : ".".intercalate n.hintParts = ".".intercalate m.hintParts := by
      simpa [hintName_eq] using h
    have hparts := hsplit n hn
    rw [hjoined, hsplit m hm] at hparts
    exact ((List.map_inj_right fun a b h => String.toList_inj.mp h).mp hparts).symm
  · intro h
    rw [hintName_eq, hintName_eq, h]

/-- No type's file has the index's name, which is too short. -/
theorem hintName_ne_indexFileName (n : QualifiedName) : n.hintName ≠ indexFileName := by
  intro h
  have hlength := congrArg String.length h
  rw [hintName_eq, String.length_append] at hlength
  have hsuffix : artifactSuffix.length = 10 := by decide
  have hindex : indexFileName.length = 9 := by decide
  omega

/-- The name of a file is no path of several names. -/
theorem slash_not_mem_hintName (hn : ∀ part ∈ n.hintParts, '/' ∉ part.toList) :
    '/' ∉ n.hintName.toList := by
  have hjoined : ∀ parts : List String, (∀ part ∈ parts, '/' ∉ part.toList) →
      '/' ∉ (".".intercalate parts).toList := by
    intro parts hparts
    induction parts with
    | nil => simp
    | cons part rest ih =>
      cases rest with
      | nil => simpa using hparts
      | cons next rest =>
        have hrest := ih fun p hp => hparts p (List.mem_cons_of_mem part hp)
        rw [String.intercalate_cons_cons]
        simp only [String.toList_append, List.mem_append, not_or]
        exact ⟨⟨hparts part (by simp), by decide⟩, hrest⟩
  have hsuffix : '/' ∉ artifactSuffix.toList := by decide
  rw [hintName_eq, String.toList_append, List.mem_append, not_or]
  exact ⟨hjoined _ hn, hsuffix⟩

end QualifiedName

theorem joinPath_inj {directory a b : String} (ha : a.toList.head? ≠ some '/')
    (hb : b.toList.head? ≠ some '/') : joinPath directory a = joinPath directory b ↔ a = b := by
  refine ⟨fun h => ?_, fun h => h ▸ rfl⟩
  simp only [joinPath, ha, hb, decide_false, Bool.false_or] at h
  split at h
  · exact h
  · split at h
    · simpa using h
    · simpa using h

end RowFactory
