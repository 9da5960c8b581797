import RowFactory.Proofs.Scan.Rearrangement

namespace RowFactory

/-- `super` so many times, and the names behind it. -/
def supersThen (k : Nat) (names : List String) : List String := List.replicate k "super" ++ names

/-- The path to the module that is so many levels further up. -/
def ModulePath.above (m : ModulePath) (k : Nat) : List String :=
  m.segments.take (m.segments.length - k)

theorem ModulePath.ancestor?_eq {m : ModulePath} (hm : m.segments ≠ []) (k : Nat) :
    m.ancestor? k = if k < m.segments.length then some ⟨m.above k⟩ else none := by
  have hpos := List.length_pos_iff.mpr hm
  induction k generalizing m with
  | zero => simp [ancestor?, above, hpos]
  | succ k ih =>
    rw [ancestor?, parent?]
    by_cases hlength : m.segments.length < 2
    · rw [if_pos hlength, if_neg (by omega)]
      rfl
    · have hparent : 0 < m.segments.dropLast.length := by
        rw [List.length_dropLast]
        omega
      have hclimb := ih (m := ⟨m.segments.dropLast⟩) (List.length_pos_iff.mp hparent) hparent
      rw [if_neg hlength, Option.bind_some, hclimb]
      have hlast : m.segments.dropLast.take (m.segments.length - 1 - k) =
          m.segments.take (m.segments.length - (k + 1)) := by
        rw [List.dropLast_eq_take, List.take_take]
        congr 1
        omega
      simp only [above, List.length_dropLast, hlast]
      congr 1
      exact propext (by omega)

theorem takeWhile_supersThen (k : Nat) {names : List String}
    (hnames : names.head? ≠ some "super") :
    (supersThen k names).takeWhile (· = "super") = List.replicate k "super" := by
  induction k with
  | zero =>
    cases names with
    | nil => rfl
    | cons name rest => simpa [supersThen] using hnames
  | succ k ih => simpa [supersThen, List.replicate_succ] using ih

theorem begins_supersThen {k : Nat} (hk : 0 < k) (names : List String) :
    ∃ first rest, supersThen k names = first :: rest ∧ first ∈ placeWords := by
  obtain ⟨j, rfl⟩ : ∃ j, k = j + 1 := ⟨k - 1, by omega⟩
  exact ⟨"super", supersThen j names, rfl, by simp [placeWords]⟩

namespace ModulePath

variable {m : ModulePath}

theorem placed?_super (hm : m.segments ≠ []) {k : Nat} (hk : 0 < k) {names : List String}
    (hnames : names.head? ≠ some "super") :
    m.placed? (supersThen k names) =
      if k < m.segments.length then some (m.above k ++ names) else none := by
  obtain ⟨j, rfl⟩ : ∃ j, k = j + 1 := ⟨k - 1, by omega⟩
  have hplaced : m.placed? (supersThen (j + 1) names) =
      (m.ancestor? ((supersThen (j + 1) names).takeWhile (· = "super")).length).map fun base =>
        base.segments ++ (supersThen (j + 1) names).drop
          ((supersThen (j + 1) names).takeWhile (· = "super")).length := rfl
  rw [hplaced, takeWhile_supersThen _ hnames, List.length_replicate, ancestor?_eq hm,
    supersThen, List.drop_append_of_le_length (by simp)]
  split <;> simp

theorem placed?_self (names : List String) :
    m.placed? ("self" :: names) = some (m.segments ++ names) := rfl

theorem placed?_of_head {segments : List String} (h : segments.head? = some "crate") :
    m.placed? segments = some segments := by
  obtain ⟨rest, rfl⟩ := List.head?_eq_some_iff.mp h
  rfl

end ModulePath

namespace Scopes

variable {scopes : Scopes}

/-- What the word in front says is all that counts, wherever the path is written. -/
theorem reaches_place {m : ModulePath} {segments : List String}
    (hfirst : ∃ first rest, segments = first :: rest ∧ first ∈ placeWords) {lookup : Lookup}
    {left : Nat} {found : List String} :
    scopes.Reaches left (.written m ⟨false, segments⟩ lookup) found ↔
      ∃ placed, m.placed? segments = some placed ∧
        scopes.Reaches left (.canonical placed) found := by
  obtain ⟨first, rest, rfl, hfirst⟩ := hfirst
  rw [reaches_iff_leads, movesOf_place rfl rfl hfirst]
  simp [leads_canonical, Option.mem_toList]

theorem reaches_of_place {m : ModulePath} {segments placed : List String}
    (h : m.placed? segments = some placed) {lookup : Lookup} {left : Nat} {found : List String} :
    scopes.Reaches left (.written m ⟨false, segments⟩ lookup) found ↔
      scopes.Reaches left (.canonical placed) found := by
  rw [reaches_place (begins_of_placed? h)]
  simp [h]

end Scopes

theorem ModulePath.IsInCrate.segments_ne_nil {m : ModulePath} (h : m.IsInCrate) :
    m.segments ≠ [] := fun hnil => by simp [ModulePath.IsInCrate, hnil] at h

theorem ModulePath.IsInCrate.head?_above {m : ModulePath} (h : m.IsInCrate) {k : Nat}
    (hk : k < m.segments.length) (names : List String) :
    (m.above k ++ names).head? = some "crate" := by
  have habove : (m.above k).head? = some "crate" := by
    rw [ModulePath.above, List.head?_take, if_neg (by omega), h]
  rw [List.head?_append, habove]
  rfl

theorem ModulePath.IsInCrate.placed?_super {m : ModulePath} (h : m.IsInCrate) {k : Nat}
    (hk : 0 < k) {names : List String} (hnames : names.head? ≠ some "super") :
    m.placed? (supersThen k names) =
      if k < m.segments.length then m.placed? (m.above k ++ names) else none := by
  rw [ModulePath.placed?_super h.segments_ne_nil hk hnames]
  split
  case isTrue hlength => rw [ModulePath.placed?_of_head (h.head?_above hlength names)]
  case isFalse => rfl

/-- A run of `super` in front is a path from the root of the crate, and leads nowhere where it
leaves the crate. Behind `self` it stays in the module, each `super` being looked up as a name. So
it is for a path in a derive, and for the target of an import or of a glob, with whatever stands
behind it. -/
theorem only_leading_supers_climb {m : ModulePath} (hm : m.IsInCrate) {k : Nat} (hk : 0 < k)
    {names : List String} (hnames : names.head? ≠ some "super") (scopes : Scopes) :
    (∀ left lookup found,
      (scopes.Reaches left (.written m ⟨false, supersThen k names⟩ lookup) found ↔
        k < m.segments.length ∧
          scopes.Reaches left (.written m ⟨false, m.above k ++ names⟩ lookup) found) ∧
      (scopes.Reaches left (.written m ⟨false, "self" :: supersThen k names⟩ lookup) found ↔
        scopes.Reaches left (.written m ⟨false, m.segments ++ supersThen k names⟩ lookup) found)) ∧
    (∀ found,
      (found ∈ scopes.resolve m ⟨false, supersThen k names⟩ ↔
        k < m.segments.length ∧ found ∈ scopes.resolve m ⟨false, m.above k ++ names⟩) ∧
      (found ∈ scopes.resolve m ⟨false, "self" :: supersThen k names⟩ ↔
        found ∈ scopes.resolve m ⟨false, m.segments ++ supersThen k names⟩)) ∧
    (scopes.EndsAt (m.segments ++ supersThen k names) →
      scopes.resolve m ⟨false, "self" :: supersThen k names⟩ =
        [m.segments ++ supersThen k names]) := by
  have hroot := ModulePath.placed?_of_head (m := m) (hm.head?_append (supersThen k names))
  have hself : ∀ left lookup found,
      scopes.Reaches left (.written m ⟨false, "self" :: supersThen k names⟩ lookup) found ↔
        scopes.Reaches left (.canonical (m.segments ++ supersThen k names)) found :=
    fun _ _ _ => Scopes.reaches_of_place (ModulePath.placed?_self _)
  have hlead : ∀ left lookup found,
      (scopes.Reaches left (.written m ⟨false, supersThen k names⟩ lookup) found ↔
        k < m.segments.length ∧
          scopes.Reaches left (.written m ⟨false, m.above k ++ names⟩ lookup) found) ∧
      (scopes.Reaches left (.written m ⟨false, "self" :: supersThen k names⟩ lookup) found ↔
        scopes.Reaches left (.written m ⟨false, m.segments ++ supersThen k names⟩ lookup)
          found) := by
    intro left lookup found
    refine ⟨?_, by rw [hself, Scopes.reaches_of_place hroot]⟩
    rw [Scopes.reaches_place (begins_supersThen hk names), hm.placed?_super hk hnames]
    split
    case isTrue hlength =>
      have habove := ModulePath.placed?_of_head (m := m) (hm.head?_above hlength names)
      rw [habove, Scopes.reaches_of_place habove]
      simp [hlength]
    case isFalse hlength => simp [hlength]
  refine ⟨hlead, fun found => ?_, fun hends => Scopes.resolve_eq_singleton fun found => ?_⟩
  · simp only [Scopes.mem_resolve_iff_reaches]
    exact hlead maxIndirections .any found
  · rw [hself, Scopes.reaches_iff_of_single (Scopes.movesOf_endsAt hends), Scopes.leads_find]

/-- A module that names the root's import in two ways, and imports it by one of them. -/
def placedMarkers (byImport : List String) : List SourceUnit :=
  [⟨.root, [.use false (.path (.plain "rowmap") (.name (.plain "RowMapped")))]⟩,
    ⟨⟨["crate", "crm"]⟩,
      [.use false ((byImport.map Ident.plain).foldr UseTree.path (.name (.plain "RowMapped"))),
        .struct (structDeriving "Customer" ["super", "RowMapped"]),
        .struct (structDeriving "Order" ["self", "super", "RowMapped"]),
        .struct (derivingStruct "Invoice" "RowMapped")]⟩]

theorem only_leading_supers_climb_crm :
    ModulePath.IsInCrate ⟨["crate", "crm"]⟩ ∧ ["RowMapped"].head? ≠ some "super" ∧
      (∀ found, found ∈ (Scopes.ofUnits (placedMarkers ["super"])).resolve ⟨["crate", "crm"]⟩
          ⟨false, ["super", "RowMapped"]⟩ ↔
        1 < 2 ∧ found ∈ (Scopes.ofUnits (placedMarkers ["super"])).resolve ⟨["crate", "crm"]⟩
          ⟨false, ["crate", "RowMapped"]⟩) ∧
      (Scopes.ofUnits (placedMarkers ["super"])).resolve ⟨["crate", "crm"]⟩
        ⟨false, ["self", "super", "RowMapped"]⟩ = [["crate", "crm", "super", "RowMapped"]] := by
  have hm : ModulePath.IsInCrate ⟨["crate", "crm"]⟩ := rfl
  have hnames : ["RowMapped"].head? ≠ some "super" := by decide
  have hends : (Scopes.ofUnits (placedMarkers ["super"])).EndsAt
      (["crate", "crm"] ++ supersThen 1 ["RowMapped"]) := by
    intro m scope name rest he
    have hfound : (Scopes.ofUnits (placedMarkers ["super"])).enclosing?
        ["crate", "crm", "super", "RowMapped"] =
          some (⟨["crate", "crm"]⟩, ⟨[("Invoice", .declared), ("Order", .declared),
            ("Customer", .declared), ("RowMapped", .imported ⟨false, ["super", "RowMapped"]⟩)],
            []⟩, "super", ["RowMapped"]) := by decide +kernel
    obtain ⟨rfl, rfl, rfl, rfl⟩ := by simpa using hfound.symm.trans he
    exact .inr ⟨rfl, rfl⟩
  obtain ⟨_, hderive, hself⟩ := only_leading_supers_climb hm Nat.one_pos hnames
    (.ofUnits (placedMarkers ["super"]))
  exact ⟨hm, hnames, fun found => (hderive found).1, hself hends⟩

/-- Behind `self`, the root's import of the marker is not come to from a derive, nor from an import;
and what would leave the crate is found in it. -/
theorem self_keeps_supers_from_climbing :
    (Scopes.ofUnits (placedMarkers ["super"])).resolve ⟨["crate", "crm"]⟩
        ⟨false, ["super", "RowMapped"]⟩ = [["rowmap", "RowMapped"]] ∧
      (Scopes.ofUnits (placedMarkers ["super"])).resolve ⟨["crate", "crm"]⟩
        ⟨false, ["self", "super", "RowMapped"]⟩ = [["crate", "crm", "super", "RowMapped"]] ∧
      namesFound (placedMarkers ["super"]) .default =
        ["crate::crm::Customer", "crate::crm::Invoice"] ∧
      namesFound (placedMarkers ["self", "super"]) .default = ["crate::crm::Customer"] ∧
      (Scopes.ofUnits (placedMarkers ["super"])).resolve .root
        ⟨false, ["super", "RowMapped"]⟩ = [] ∧
      (Scopes.ofUnits (placedMarkers ["super"])).resolve .root
        ⟨false, ["self", "super", "RowMapped"]⟩ = [["crate", "super", "RowMapped"]] := by
  decide +kernel

end RowFactory
