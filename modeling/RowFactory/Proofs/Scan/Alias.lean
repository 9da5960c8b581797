import RowFactory.Proofs.Scan.Rearrangement

namespace RowFactory

namespace Scopes

/-- A way from one state to another, with the number of imports and globs that are followed. -/
inductive Route (scopes : Scopes) : LookupState → Nat → LookupState → Prop
  | here (state : LookupState) : Route scopes state 0 state
  | place {state target : LookupState} {segments : List String} {n : Nat} :
    .canonical segments ∈ scopes.movesOf state → Route scopes (.canonical segments) n target →
    Route scopes state n target
  | follow {state target : LookupState} {m : ModulePath} {path : WrittenPath} {lookup : Lookup}
      {n : Nat} :
    .follow m path lookup ∈ scopes.movesOf state → Route scopes (.written m path lookup) n target →
    Route scopes state (n + 1) target

/-- What one more import or glob leads to is come to over fewer as well. This is so where no branch
of the search is deeper, and where the deeper ones come back to where the search has been. -/
def IsWithinDepth (scopes : Scopes) (depth : Nat) (start : LookupState) : Prop :=
  ∀ target, scopes.Route start (depth + 1) target → ∃ n ≤ depth, scopes.Route start n target

variable {scopes : Scopes} {state start : LookupState} {found : List String}

theorem isWithinDepth_of_le {depth : Nat}
    (h : ∀ n target, scopes.Route start n target → n ≤ depth) : scopes.IsWithinDepth depth start :=
  fun target hr => absurd (h _ target hr) (by omega)

theorem route_of_find {p : List String} (h : scopes.movesOf state = [.find p]) {n : Nat}
    {target : LookupState} (hr : scopes.Route state n target) : n = 0 := by
  cases hr with
  | here => rfl
  | place hm _ | follow hm _ => simp [h] at hm

theorem route_of_place {p : List String} (h : scopes.movesOf state = [.canonical p]) {n : Nat}
    {target : LookupState} (hr : scopes.Route state n target) :
    n = 0 ∨ scopes.Route (.canonical p) n target := by
  cases hr with
  | here => exact .inl rfl
  | place hm hr =>
    obtain rfl := by simpa [h] using hm
    exact .inr hr
  | follow hm _ => simp [h] at hm

theorem route_of_follow {m : ModulePath} {path : WrittenPath} {lookup : Lookup}
    (h : scopes.movesOf state = [.follow m path lookup]) {n : Nat} {target : LookupState}
    (hr : scopes.Route state n target) :
    n = 0 ∨ ∃ k, n = k + 1 ∧ scopes.Route (.written m path lookup) k target := by
  cases hr with
  | here => exact .inl rfl
  | place hm _ => simp [h] at hm
  | follow hm hr =>
    obtain ⟨rfl, rfl, rfl⟩ := by simpa [h] using hm
    exact .inr ⟨_, rfl, hr⟩

/-- What can be found is at the end of the ways that are short enough. -/
theorem reaches_iff_route {left : Nat} :
    scopes.Reaches left state found ↔
      ∃ n ≤ left, ∃ target, scopes.Route state n target ∧ .find found ∈ scopes.movesOf target := by
  constructor
  · intro h
    induction h with
    | find hm => exact ⟨0, Nat.zero_le _, _, .here _, hm⟩
    | @visit left left' state next move found hm ha _ ih =>
      obtain ⟨n, hn, target, hroute, hfind⟩ := ih
      cases move with
      | find p => cases ha
      | canonical p =>
        cases ha
        exact ⟨n, hn, target, .place hm hroute, hfind⟩
      | follow m path lookup =>
        cases left with
        | zero => cases ha
        | succ left =>
          cases ha
          exact ⟨n + 1, by omega, target, .follow hm hroute, hfind⟩
  · rintro ⟨n, hn, target, hroute, hfind⟩
    induction hroute generalizing left with
    | here => exact .find hfind
    | place hm _ ih => exact .visit hm rfl (ih hn hfind)
    | follow hm _ ih =>
      obtain ⟨left, rfl⟩ : ∃ k, left = k + 1 := ⟨left - 1, by omega⟩
      exact .visit hm rfl (ih (by omega) hfind)

theorem reaches_mono {left left' : Nat} (hle : left ≤ left')
    (h : scopes.Reaches left state found) : scopes.Reaches left' state found := by
  obtain ⟨n, hn, hroute⟩ := reaches_iff_route.mp h
  exact reaches_iff_route.mpr ⟨n, hn.trans hle, hroute⟩

/-- The last step is not needed where it leads to nothing new. -/
theorem reaches_of_isWithinDepth {depth : Nat} (hdepth : scopes.IsWithinDepth depth start)
    (h : scopes.Reaches (depth + 1) start found) : scopes.Reaches depth start found := by
  obtain ⟨n, hn, target, hroute, hfind⟩ := reaches_iff_route.mp h
  by_cases hlast : n = depth + 1
  · subst hlast
    obtain ⟨k, hk, hroute⟩ := hdepth target hroute
    exact reaches_iff_route.mpr ⟨k, hk, target, hroute, hfind⟩
  · exact reaches_iff_route.mpr ⟨n, by omega, target, hroute, hfind⟩

/-- What is found depends on the moves alone. -/
theorem reaches_congr {state state' : LookupState}
    (h : scopes.movesOf state = scopes.movesOf state') {left : Nat} :
    scopes.Reaches left state found ↔ scopes.Reaches left state' found := by
  rw [reaches_iff_leads, reaches_iff_leads, h]

/-- The name that does not apply is not the one that is looked up. -/
theorem movesOf_skipping {m : ModulePath} {path : WrittenPath} {name : String}
    (h : path.leadingColon = true ∨ path.segments.head? ≠ some name) :
    scopes.movesOf (.written m path (.skipping name)) = scopes.movesOf (.written m path .any) := by
  cases hp : path.segments with
  | nil => simp [movesOf, hp]
  | cons first rest =>
    cases hc : path.leadingColon with
    | true => simp [movesOf, hp, hc]
    | false =>
      have hfirst : name ≠ first := fun heq => by simp [hp, hc, heq] at h
      simp only [movesOf, hp, hc, Lookup.skipping, Lookup.any, Option.some.injEq, hfirst,
        reduceCtorEq]

/-- The import's one way on, with one import fewer left. -/
theorem mem_resolve_imported {m : ModulePath} {scope : ModuleScope} {name : String}
    {target : WrittenPath} (hs : scopes.get? m = some scope)
    (hb : scope.get? name = some (.imported target)) (hname : name ∉ placeWords)
    (tail : List String) :
    found ∈ scopes.resolve m ⟨false, name :: tail⟩ ↔
      scopes.Reaches 15 (.written m (target.append tail) (.skipping name)) found := by
  have hbound : scopes.bound? m .any name = some (.imported target) := by
    simp [bound?, Lookup.any, hs, hb]
  have hmoves : scopes.movesOf (.written m ⟨false, name :: tail⟩ .any) =
      [.follow m (target.append tail) (.skipping name)] := by
    rw [movesOf_name ⟨rfl, rfl, hname⟩, hbound]
  rw [mem_resolve_iff_reaches, reaches_iff_of_single hmoves, leads_follow]
  simp [maxIndirections]

end Scopes

/-- An imported name stands for nothing that its target does not stand for, with the same names
behind. It loses nothing, except what is only found with the last import that may be followed. -/
theorem import_stands_for_target {scopes : Scopes} {m : ModulePath} {scope : ModuleScope}
    {name : String} {target : WrittenPath} (hs : scopes.get? m = some scope)
    (hb : scope.get? name = some (.imported target)) (hname : name ∉ placeWords)
    (htarget : target.leadingColon = true ∨ ∃ first ∈ target.segments.head?, first ≠ name)
    (tail : List String) :
    scopes.resolve m ⟨false, name :: tail⟩ ⊆ scopes.resolve m (target.append tail) ∧
      (scopes.IsWithinDepth 15 (.written m (target.append tail) .any) →
        (scopes.resolve m ⟨false, name :: tail⟩).Perm (scopes.resolve m (target.append tail))) := by
  have hskip : (target.append tail).leadingColon = true ∨
      (target.append tail).segments.head? ≠ some name := by
    refine htarget.imp_right fun ⟨first, hfirst, hne⟩ => ?_
    rw [WrittenPath.append, List.head?_append, Option.mem_def.mp hfirst]
    simpa using hne
  have himport : ∀ found, found ∈ scopes.resolve m ⟨false, name :: tail⟩ ↔
      scopes.Reaches 15 (.written m (target.append tail) .any) found := fun found => by
    rw [Scopes.mem_resolve_imported hs hb hname,
      Scopes.reaches_congr (Scopes.movesOf_skipping hskip)]
  have hsub : scopes.resolve m ⟨false, name :: tail⟩ ⊆ scopes.resolve m (target.append tail) := by
    intro found hfound
    rw [Scopes.mem_resolve_iff_reaches]
    exact Scopes.reaches_mono (Nat.le_succ 15) ((himport found).mp hfound)
  refine ⟨hsub, fun hdepth => ?_⟩
  refine (List.perm_ext_iff_of_nodup (Scopes.nodup_resolve ..) (Scopes.nodup_resolve ..)).mpr ?_
  refine fun found => ⟨fun h => hsub h, fun h => (himport found).mpr ?_⟩
  exact Scopes.reaches_of_isWithinDepth hdepth ((Scopes.mem_resolve_iff_reaches ..).mp h)

/-- `use rowmap as orm;` in the root, and `use super::orm as db;` in a module below it. -/
def aliasTables : Scopes :=
  ⟨[(.root, ⟨[("orm", .imported ⟨false, ["rowmap"]⟩)], []⟩),
    (⟨["crate", "crm"]⟩, ⟨[("db", .imported ⟨false, ["super", "orm"]⟩)], []⟩)]⟩

/-- Two imports stand between the alias and the marker, one of them the alias itself. -/
theorem import_stands_for_target_db :
    aliasTables.get? ⟨["crate", "crm"]⟩ =
        some ⟨[("db", .imported ⟨false, ["super", "orm"]⟩)], []⟩ ∧
      "db" ∉ placeWords ∧
      aliasTables.IsWithinDepth 15
        (.written ⟨["crate", "crm"]⟩ ⟨false, ["super", "orm", "RowMapped"]⟩ .any) ∧
      (aliasTables.resolve ⟨["crate", "crm"]⟩ ⟨false, ["db", "RowMapped"]⟩).Perm
        (aliasTables.resolve ⟨["crate", "crm"]⟩ ⟨false, ["super", "orm", "RowMapped"]⟩) ∧
      aliasTables.resolve ⟨["crate", "crm"]⟩ ⟨false, ["db", "RowMapped"]⟩ =
        [["rowmap", "RowMapped"]] := by
  have hs : aliasTables.get? ⟨["crate", "crm"]⟩ =
      some ⟨[("db", .imported ⟨false, ["super", "orm"]⟩)], []⟩ := by decide +kernel
  have hname : "db" ∉ placeWords := by decide
  have hfirst : ∃ first ∈ ["super", "orm"].head?, first ≠ "db" := ⟨"super", rfl, by decide⟩
  have hdepth : aliasTables.IsWithinDepth 15
      (.written ⟨["crate", "crm"]⟩ ⟨false, ["super", "orm", "RowMapped"]⟩ .any) := by
    have hclimb : aliasTables.movesOf
        (.written ⟨["crate", "crm"]⟩ ⟨false, ["super", "orm", "RowMapped"]⟩ .any) =
          [.canonical ["crate", "orm", "RowMapped"]] := rfl
    have himport : aliasTables.movesOf (.canonical ["crate", "orm", "RowMapped"]) =
        [.follow .root ⟨false, ["rowmap", "RowMapped"]⟩ (.skipping "orm")] := rfl
    have hend : aliasTables.movesOf
        (.written .root ⟨false, ["rowmap", "RowMapped"]⟩ (.skipping "orm")) =
          [.find ["rowmap", "RowMapped"]] := rfl
    refine Scopes.isWithinDepth_of_le fun n target hroute => ?_
    obtain rfl | hroute := Scopes.route_of_place hclimb hroute
    · exact Nat.zero_le _
    obtain rfl | ⟨k, rfl, hlast⟩ := Scopes.route_of_follow himport hroute
    · exact Nat.zero_le _
    obtain rfl := Scopes.route_of_find hend hlast
    decide
  obtain ⟨_, hperm⟩ := import_stands_for_target hs rfl hname (.inr hfirst) ["RowMapped"]
  exact ⟨hs, hname, hdepth, hperm hdepth, by decide +kernel⟩

end RowFactory
