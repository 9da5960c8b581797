import RowFactory.Proofs.Scan.Rearrangement

namespace RowFactory

/-- The path is one into another crate. -/
def WrittenPath.LeadsOutside (path : WrittenPath) : Prop :=
  path.leadingColon = true ∨ ∀ first ∈ path.segments.head?, first ∉ placeWords

/-- The path by which an import goes on to look for the name. -/
def TableEntry.target? (name : String) : TableEntry → Option WrittenPath
  | .name n (.imported target) => if n = name then some target else none
  | .name _ .declared => none
  | .glob path => some (path.append [name])

/-- What may supply the first name of that path. -/
def TableEntry.lookup : TableEntry → Lookup
  | .name n _ => .skipping n
  | .glob _ => .expanded

/-- The modules have one import each, of the name or of everything, from the next module, and from
another crate in the last. So the name in the first module leads to the path; a link may rename. -/
inductive ImportChain (units : List SourceUnit) : List ModulePath → String → List String → Prop
  | last {m : ModulePath} {name : String} {entry : TableEntry} {target : WrittenPath} :
    entriesOf units m = [entry] → entry.target? name = some target →
    target.LeadsOutside → 2 ≤ target.segments.length →
    ImportChain units [m] name target.segments
  | link {m next : ModulePath} {rest : List ModulePath} {name nextName : String}
      {entry : TableEntry} {found : List String} :
    entriesOf units m = [entry] →
    entry.target? name = some ⟨false, next.segments ++ [nextName]⟩ → next.IsInCrate →
    ImportChain units (next :: rest) nextName found →
    ImportChain units (m :: next :: rest) name found

namespace Scopes

variable {scopes : Scopes} {m : ModulePath}

/-- A path into another crate is found as it is where nothing else supplies its first name. -/
theorem movesOf_leadsOutside {target : WrittenPath} {lookup : Lookup} (hout : target.LeadsOutside)
    (hlength : 2 ≤ target.segments.length)
    (hbound : ∀ first, scopes.bound? m lookup first = none)
    (hglobs : lookup.globs = false ∨ ((scopes.get? m).getD .empty).globs = []) :
    scopes.movesOf (.written m target lookup) = [.find target.segments] := by
  obtain ⟨first, rest, hp⟩ : ∃ first rest, target.segments = first :: rest :=
    List.exists_cons_of_length_pos (by omega)
  cases hc : target.leadingColon with
  | true => simp [movesOf, hp, hc]
  | false =>
    have hfirst : first ∉ placeWords :=
      (hout.resolve_left (by simp [hc])) first (by simp [hp])
    have hrest : rest ≠ [] := by
      rintro rfl
      simp [hp] at hlength
    rw [movesOf_name ⟨hp, hc, hfirst⟩, hbound]
    obtain hl | hg := hglobs
    · simp [hl, hrest]
    · simp [hg, hrest, globMoves]

end Scopes

section

variable {units : List SourceUnit} {m : ModulePath} {entry : TableEntry} {name : String}
  {target : WrittenPath}

theorem get?_ofUnits_of_single (he : entriesOf units m = [entry]) :
    (Scopes.ofUnits units).get? m = some (ModuleScope.empty.add entry) := by
  rw [get?_ofUnits_of_mem (e := entry) (by simp [he]), he]
  rfl

theorem TableEntry.target?_eq_some_iff :
    entry.target? name = some target ↔
      entry = .name name (.imported target) ∨
        ∃ path, entry = .glob path ∧ path.append [name] = target := by
  cases entry with
  | glob path => simp [target?]
  | name n b => cases b <;> simp [target?, and_comm]

/-- The one import of a module is the only way on from a name that is looked up in it. -/
theorem movesOf_asksFor (he : entriesOf units m = [entry]) (ht : entry.target? name = some target)
    {state : LookupState} (h : state.AsksFor m name) :
    (Scopes.ofUnits units).movesOf state = [.follow m target entry.lookup] := by
  have hs := get?_ofUnits_of_single he
  obtain rfl | ⟨path, rfl, rfl⟩ := TableEntry.target?_eq_some_iff.mp ht
  · exact Scopes.movesOf_imported hs (by simp [ModuleScope.get?_add, TableEntry.binding?]) h
  · exact Scopes.movesOf_glob hs rfl rfl h

/-- An import into another crate leads there at once, for its module binds no other name. -/
theorem movesOf_target_outside (he : entriesOf units m = [entry])
    (ht : entry.target? name = some target) (hout : target.LeadsOutside)
    (hlength : 2 ≤ target.segments.length) :
    (Scopes.ofUnits units).movesOf (.written m target entry.lookup) = [.find target.segments] := by
  have hs := get?_ofUnits_of_single he
  obtain rfl | ⟨path, rfl, rfl⟩ := TableEntry.target?_eq_some_iff.mp ht
  · refine Scopes.movesOf_leadsOutside hout hlength (fun first => ?_) (.inr (by rw [hs]; rfl))
    by_cases hfirst : name = first
    · simp [Scopes.bound?, TableEntry.lookup, Lookup.skipping, hfirst]
    · simp [Scopes.bound?, hs, ModuleScope.get?_add, TableEntry.binding?, hfirst]
  · refine Scopes.movesOf_leadsOutside hout hlength (fun first => ?_) (.inl rfl)
    simp [Scopes.bound?, hs, ModuleScope.get?_add, TableEntry.binding?]

/-- A path into a module of the crate leads to the name there. -/
theorem movesOf_target_inside {m next : ModulePath} (hnext : next.IsInCrate) (nextName : String)
    (lookup : Lookup) {scopes : Scopes} :
    scopes.movesOf (.written m ⟨false, next.segments ++ [nextName]⟩ lookup) =
      [.canonical (next.segments ++ [nextName])] := by
  obtain ⟨rest, hp⟩ := List.head?_eq_some_iff.mp (hnext.head?_append [nextName])
  simp [Scopes.movesOf, hp]

end

/-- Each link takes one of the imports that may be followed; behind the last nothing is left
open. -/
theorem ImportChain.reaches_iff {units : List SourceUnit} {ms : List ModulePath} {name : String}
    {found : List String} (h : ImportChain units ms name found) {m : ModulePath}
    (hm : ms.head? = some m) {state : LookupState} (hstate : state.AsksFor m name) (left : Nat)
    (p : List String) :
    (Scopes.ofUnits units).Reaches left state p ↔ ms.length ≤ left ∧ p = found := by
  induction h generalizing m state left with
  | @last m' name entry target he ht hout hlength =>
    obtain rfl : m' = m := Option.some.inj hm
    rw [Scopes.reaches_iff_of_single (movesOf_asksFor he ht hstate), Scopes.leads_follow,
      Scopes.reaches_iff_of_single (movesOf_target_outside he ht hout hlength),
      Scopes.leads_find]
    rfl
  | @link m' next rest name nextName entry found he ht hnext _ ih =>
    obtain rfl : m' = m := Option.some.inj hm
    have hasks : (LookupState.canonical (next.segments ++ [nextName])).AsksFor next nextName :=
      .canonical fun hnil => by simp [ModulePath.IsInCrate, hnil] at hnext
    have hleft : 0 < left ∧ (next :: rest).length ≤ left - 1 ↔
        (m' :: next :: rest).length ≤ left := by
      simp only [List.length_cons]
      omega
    rw [Scopes.reaches_iff_of_single (movesOf_asksFor he ht hstate), Scopes.leads_follow,
      Scopes.reaches_iff_of_single (movesOf_target_inside hnext nextName entry.lookup),
      Scopes.leads_canonical, ih rfl hasks, ← and_assoc, hleft]

/-- A name that is carried by a chain of at most sixteen imports stands for what is at the end and
nothing else; by a longer chain it stands for nothing. -/
theorem chain_carries_name {units : List SourceUnit} {m : ModulePath} {rest : List ModulePath}
    {name : String} {found : List String} (h : ImportChain units (m :: rest) name found)
    (hname : name ∉ placeWords) :
    (Scopes.ofUnits units).resolve m ⟨false, [name]⟩ =
      if (m :: rest).length ≤ 16 then [found] else [] := by
  have hreaches := h.reaches_iff rfl (.written hname) maxIndirections
  split
  case isTrue hlength =>
    exact Scopes.resolve_eq_singleton fun p => by rw [hreaches]; exact and_iff_right hlength
  case isFalse hlength =>
    refine List.eq_nil_iff_forall_not_mem.mpr fun p hp => hlength ?_
    exact ((hreaches p).mp ((Scopes.mem_resolve_iff_reaches ..).mp hp)).1

/-- The letter that is so many places behind the first. -/
def letter (first : Char) (i : Nat) : String := String.singleton (Char.ofNat (first.toNat + i))

def stop (i : Nat) : ModulePath := ⟨["crate", letter 'a' i]⟩

def nameAtStop (i : Nat) : String := letter 'A' ((i + 1) / 2)

/-- `use crate::b::B as A;` and `use crate::c::*;` by turns, and in the end
`use rowmap::RowMapped as I;`. -/
def importAtStop (i : Nat) : Item :=
  if i = 16 then
    .use false (.path (.plain "rowmap") (.rename (.plain "RowMapped") (.plain (nameAtStop i))))
  else
    .use false (.path (.plain "crate") (.path (.plain (letter 'a' (i + 1)))
      (if i % 2 = 0 then .rename (.plain (nameAtStop (i + 1))) (.plain (nameAtStop i)) else .glob)))

def stops : List SourceUnit := (List.range 17).map fun i => ⟨stop i, [importAtStop i]⟩

/-- From all seventeen stops nothing is found, from the last sixteen the marker. -/
theorem chain_carries_name_stops :
    ImportChain stops ((List.range' 1 16).map stop) "B" ["rowmap", "RowMapped"] ∧
      ImportChain stops ((List.range' 0 17).map stop) "A" ["rowmap", "RowMapped"] ∧
      "A" ∉ placeWords ∧ "B" ∉ placeWords ∧
      (Scopes.ofUnits stops).resolve (stop 1) ⟨false, ["B"]⟩ = [["rowmap", "RowMapped"]] ∧
      (Scopes.ofUnits stops).resolve (stop 0) ⟨false, ["A"]⟩ = [] := by
  have hlast : (entriesOf stops (stop 16)).map (·.target? (nameAtStop 16)) =
      [some ⟨false, ["rowmap", "RowMapped"]⟩] := by decide +kernel
  have hlink : ∀ i < 16, (entriesOf stops (stop i)).map (·.target? (nameAtStop i)) =
      [some ⟨false, (stop (i + 1)).segments ++ [nameAtStop (i + 1)]⟩] := by decide +kernel
  have hchain : ∀ n ≤ 16, ImportChain stops ((List.range' (16 - n) (n + 1)).map stop)
      (nameAtStop (16 - n)) ["rowmap", "RowMapped"] := by
    intro n hn
    induction n with
    | zero =>
      obtain ⟨entry, he, ht⟩ := List.map_eq_singleton_iff.mp hlast
      have hout : WrittenPath.LeadsOutside ⟨false, ["rowmap", "RowMapped"]⟩ := .inr (by decide)
      exact .last he ht hout (Nat.le_refl 2)
    | succ n ih =>
      obtain ⟨entry, he, ht⟩ := List.map_eq_singleton_iff.mp (hlink (16 - (n + 1)) (by omega))
      have hnext : 16 - (n + 1) + 1 = 16 - n := by omega
      rw [hnext] at ht
      have hrest := ih (by omega)
      rw [List.range'_succ, List.range'_succ, hnext]
      exact .link he ht rfl hrest
  have hsixteen : ImportChain stops ((List.range' 1 16).map stop) "B" _ := hchain 15 (by omega)
  have hseventeen : ImportChain stops ((List.range' 0 17).map stop) "A" _ := hchain 16 (by omega)
  have ha : "A" ∉ placeWords := by decide
  have hb : "B" ∉ placeWords := by decide
  exact ⟨hsixteen, hseventeen, ha, hb, chain_carries_name hsixteen hb,
    chain_carries_name hseventeen ha⟩

end RowFactory
