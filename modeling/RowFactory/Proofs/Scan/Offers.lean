import RowFactory.Proofs.Scan.Discovery

namespace RowFactory

/-- The words that stand for a module by themselves. -/
def placeWords : List String := ["crate", "self", "super"]

/-- The path begins with a name that has to be looked up. -/
structure WrittenPath.BeginsWith (path : WrittenPath) (name : String) (rest : List String) :
    Prop where
  segments : path.segments = name :: rest
  leadingColon : path.leadingColon = false
  notPlace : name ∉ placeWords

theorem WrittenPath.BeginsWith.ne {path : WrittenPath} {name : String} {rest : List String}
    (h : path.BeginsWith name rest) : name ≠ "crate" ∧ name ≠ "self" ∧ name ≠ "super" := by
  simpa [placeWords] using h.notPlace

@[simp]
theorem WrittenPath.append_nil (path : WrittenPath) : path.append [] = path := by
  simp [append]

/-- The path from the root that a path stands for by the word it begins with. -/
def ModulePath.placed? (m : ModulePath) (segments : List String) : Option (List String) :=
  match segments with
  | "crate" :: _ => some segments
  | "self" :: rest => some (m.segments ++ rest)
  | "super" :: _ =>
    let supers := segments.takeWhile (· = "super")
    (m.ancestor? supers.length).map fun base => base.segments ++ segments.drop supers.length
  | _ => none

namespace Scopes

/-- What a module binds a name to, but for an import that is being followed. -/
def bound? (scopes : Scopes) (m : ModulePath) (lookup : Lookup) (name : String) :
    Option Binding :=
  if lookup.skip = some name then none else ((scopes.get? m).getD .empty).get? name

/-- A path from the root at which the search ends: no module on it leads on. -/
def EndsAt (scopes : Scopes) (segments : List String) : Prop :=
  ∀ m scope name rest, scopes.enclosing? segments = some (m, scope, name, rest) →
    scope.get? name = some .declared ∨ scope.get? name = none ∧ scope.globs = []

/-- The rules by which a state has its moves. -/
inductive Offers (scopes : Scopes) : LookupState → Move → Prop
  | ends {segments : List String} : scopes.EndsAt segments →
    Offers scopes (.canonical segments) (.find segments)
  | importOnTheWay {segments : List String} {m : ModulePath} {scope : ModuleScope}
      {name : String} {rest : List String} {target : WrittenPath} :
    scopes.enclosing? segments = some (m, scope, name, rest) →
    scope.get? name = some (.imported target) →
    Offers scopes (.canonical segments) (.follow m (target.append rest) (.skipping name))
  | globOnTheWay {segments : List String} {m : ModulePath} {scope : ModuleScope}
      {name : String} {rest : List String} {glob : WrittenPath} :
    scopes.enclosing? segments = some (m, scope, name, rest) →
    scope.get? name = none → glob ∈ scope.globs →
    Offers scopes (.canonical segments) (.follow m (glob.append (name :: rest)) .expanded)
  | outside {m : ModulePath} {path : WrittenPath} {lookup : Lookup} :
    path.leadingColon = true → path.segments ≠ [] →
    Offers scopes (.written m path lookup) (.find path.segments)
  | placed {m : ModulePath} {path : WrittenPath} {lookup : Lookup} {segments : List String} :
    path.leadingColon = false → m.placed? path.segments = some segments →
    Offers scopes (.written m path lookup) (.canonical segments)
  | declared {m : ModulePath} {path : WrittenPath} {lookup : Lookup} {name : String}
      {rest : List String} :
    path.BeginsWith name rest → scopes.bound? m lookup name = some .declared →
    Offers scopes (.written m path lookup) (.canonical (m.segments ++ path.segments))
  | imported {m : ModulePath} {path : WrittenPath} {lookup : Lookup} {name : String}
      {rest : List String} {target : WrittenPath} :
    path.BeginsWith name rest → scopes.bound? m lookup name = some (.imported target) →
    Offers scopes (.written m path lookup) (.follow m (target.append rest) (.skipping name))
  | glob {m : ModulePath} {path : WrittenPath} {lookup : Lookup} {name : String}
      {rest : List String} {scope : ModuleScope} {glob : WrittenPath} :
    path.BeginsWith name rest → scopes.bound? m lookup name = none → lookup.globs = true →
    scopes.get? m = some scope → glob ∈ scope.globs →
    Offers scopes (.written m path lookup) (.follow m (glob.append path.segments) .expanded)
  | prelude {m : ModulePath} {path : WrittenPath} {lookup : Lookup} {name : String}
      {rest : List String} :
    path.BeginsWith name rest → scopes.bound? m lookup name = none → rest ≠ [] →
    Offers scopes (.written m path lookup) (.find path.segments)

variable {scopes : Scopes}

theorem movesOf_name {m : ModulePath} {path : WrittenPath} {lookup : Lookup} {name : String}
    {rest : List String} (h : path.BeginsWith name rest) :
    scopes.movesOf (.written m path lookup) =
      match scopes.bound? m lookup name with
      | some .declared => [.canonical (m.segments ++ path.segments)]
      | some (.imported target) => [.follow m (target.append rest) (.skipping name)]
      | none =>
        (if lookup.globs then globMoves m ((scopes.get? m).getD .empty).globs path.segments
          else []) ++ if rest.isEmpty then [] else [.find path.segments] := by
  obtain ⟨h₁, h₂, h₃⟩ := h.ne
  have hbound : scopes.bound? m lookup name =
      if lookup.skip = some name then none else ((scopes.get? m).getD .empty).get? name := rfl
  cases hb : scopes.bound? m lookup name with
  | none => simp [movesOf, h.segments, h.leadingColon, h₁, h₂, h₃, ← hbound, hb]
  | some b => cases b <;> simp [movesOf, h.segments, h.leadingColon, h₁, h₂, h₃, ← hbound, hb]

theorem movesOf_place {m : ModulePath} {path : WrittenPath} {lookup : Lookup} {first : String}
    {rest : List String} (hp : path.segments = first :: rest) (hc : path.leadingColon = false)
    (hfirst : first ∈ placeWords) :
    scopes.movesOf (.written m path lookup) =
      (m.placed? path.segments).toList.map Move.canonical := by
  obtain rfl | rfl | rfl : first = "crate" ∨ first = "self" ∨ first = "super" := by
    simpa [placeWords] using hfirst
  · simp [movesOf, ModulePath.placed?, hp, hc]
  · simp [movesOf, ModulePath.placed?, hp, hc]
  · simp only [movesOf, ModulePath.placed?, hp, hc, Bool.false_eq_true, String.reduceEq,
      ↓reduceIte]
    cases m.ancestor? (("super" :: rest).takeWhile (· = "super")).length <;> rfl

theorem movesOf_endsAt {segments : List String} (h : scopes.EndsAt segments) :
    scopes.movesOf (.canonical segments) = [.find segments] := by
  cases he : scopes.enclosing? segments with
  | none => simp [movesOf, he]
  | some found =>
    obtain ⟨m, scope, name, rest⟩ := found
    obtain hb | ⟨hb, hg⟩ := h m scope name rest he
    · simp [movesOf, he, hb]
    · simp [movesOf, he, hb, hg]

theorem begins_of_placed? {m : ModulePath} {segments placed : List String}
    (h : m.placed? segments = some placed) :
    ∃ first rest, segments = first :: rest ∧ first ∈ placeWords := by
  unfold ModulePath.placed? at h
  split at h
  · exact ⟨_, _, rfl, by simp [placeWords]⟩
  · exact ⟨_, _, rfl, by simp [placeWords]⟩
  · exact ⟨_, _, rfl, by simp [placeWords]⟩
  · cases h

theorem offers_canonical_of_mem {segments : List String} {move : Move}
    (hm : move ∈ scopes.movesOf (.canonical segments)) :
    scopes.Offers (.canonical segments) move := by
  cases he : scopes.enclosing? segments with
  | none =>
    obtain rfl : move = .find segments := by simpa [movesOf, he] using hm
    exact .ends fun m scope name rest h => by simp [he] at h
  | some found =>
    obtain ⟨m, scope, name, rest⟩ := found
    have ends (h : scope.get? name = some .declared ∨ scope.get? name = none ∧ scope.globs = []) :
        scopes.Offers (.canonical segments) (.find segments) := by
      refine .ends fun m' scope' name' rest' h' => ?_
      obtain ⟨rfl, rfl, rfl, rfl⟩ : m = m' ∧ scope = scope' ∧ name = name' ∧ rest = rest' := by
        simpa [he] using h'
      exact h
    simp only [movesOf, he] at hm
    cases hb : scope.get? name with
    | some binding =>
      cases binding with
      | declared =>
        obtain rfl : move = .find segments := by simpa [hb] using hm
        exact ends (.inl hb)
      | imported target =>
        obtain rfl : move = .follow m (target.append rest) (.skipping name) := by
          simpa [hb] using hm
        exact .importOnTheWay he hb
    | none =>
      simp only [hb] at hm
      split at hm
      case isTrue hempty =>
        obtain rfl := List.mem_singleton.mp hm
        exact ends (.inr ⟨hb, List.isEmpty_iff.mp hempty⟩)
      case isFalse =>
        obtain ⟨glob, hglob, rfl⟩ := List.mem_map.mp hm
        exact .globOnTheWay he hb hglob

theorem offers_name_of_mem {m : ModulePath} {path : WrittenPath} {lookup : Lookup} {name : String}
    {rest : List String} (h : path.BeginsWith name rest) {move : Move}
    (hm : move ∈ scopes.movesOf (.written m path lookup)) :
    scopes.Offers (.written m path lookup) move := by
  rw [movesOf_name h] at hm
  cases hb : scopes.bound? m lookup name with
  | some binding =>
    cases binding with
    | declared =>
      obtain rfl : move = .canonical (m.segments ++ path.segments) := by simpa [hb] using hm
      exact .declared h hb
    | imported target =>
      obtain rfl : move = .follow m (target.append rest) (.skipping name) := by
        simpa [hb] using hm
      exact .imported h hb
  | none =>
    simp only [hb] at hm
    rcases List.mem_append.mp hm with hm | hm
    · split at hm
      case isTrue hglobs =>
        obtain ⟨glob, hglob, rfl⟩ := List.mem_map.mp hm
        cases hs : scopes.get? m with
        | none => simp [hs, ModuleScope.empty] at hglob
        | some scope => exact .glob h hb hglobs hs (by simpa [hs] using hglob)
      case isFalse => cases hm
    · split at hm
      case isTrue => cases hm
      case isFalse hrest =>
        obtain rfl := List.mem_singleton.mp hm
        exact .prelude h hb (by simpa using hrest)

/-- A state has the moves that the rules give it, and no other. -/
theorem mem_movesOf_iff {state : LookupState} {move : Move} :
    move ∈ scopes.movesOf state ↔ scopes.Offers state move := by
  constructor
  · intro hm
    cases state with
    | canonical segments => exact offers_canonical_of_mem hm
    | written m path lookup =>
      cases hp : path.segments with
      | nil => simp [movesOf, hp] at hm
      | cons first rest =>
        cases hc : path.leadingColon with
        | true =>
          obtain rfl : move = .find path.segments := by simpa [movesOf, hp, hc] using hm
          exact .outside hc (by simp [hp])
        | false =>
          by_cases hfirst : first ∈ placeWords
          · rw [movesOf_place hp hc hfirst] at hm
            obtain ⟨segments, hplaced, rfl⟩ := List.mem_map.mp hm
            exact .placed hc (by simpa using hplaced)
          · exact offers_name_of_mem ⟨hp, hc, hfirst⟩ hm
  · intro h
    cases h with
    | ends h => simp [movesOf_endsAt h]
    | importOnTheWay he hb => simp [movesOf, he, hb]
    | globOnTheWay he hb hg =>
      have hne : ¬ List.isEmpty _ = true := fun h => List.ne_nil_of_mem hg (List.isEmpty_iff.mp h)
      simp only [movesOf, he, hb, if_neg hne]
      exact List.mem_map_of_mem hg
    | @outside m path lookup hc hp =>
      obtain ⟨first, rest, hp⟩ := List.exists_cons_of_ne_nil hp
      simp [movesOf, hp, hc]
    | placed hc hplaced =>
      obtain ⟨first, rest, hp, hfirst⟩ := begins_of_placed? hplaced
      rw [movesOf_place hp hc hfirst, hplaced]
      simp
    | declared h hb => simp [movesOf_name h, hb]
    | imported h hb => simp [movesOf_name h, hb]
    | glob h hb hl hs hg =>
      rw [movesOf_name h, hb]
      refine List.mem_append_left _ ?_
      rw [if_pos hl, hs]
      exact List.mem_map_of_mem hg
    | prelude h hb hrest => simp [movesOf_name h, hb, hrest]

end Scopes

/-- What the move finds has the one property, what it leads to has the other. -/
def Move.Keeps (inv : LookupState → Prop) (result : List String → Prop) : Move → Prop
  | .find found => result found
  | .canonical segments => inv (.canonical segments)
  | .follow m path lookup => inv (.written m path lookup)

theorem Move.Keeps.arrival {inv : LookupState → Prop} {result : List String → Prop} {move : Move}
    {left left' : Nat} {next : LookupState} (h : move.Keeps inv result)
    (ha : move.arrival? left = some (next, left')) : inv next := by
  cases move with
  | find segments => cases ha
  | canonical segments =>
    obtain ⟨rfl, _⟩ := Prod.mk.inj (Option.some.inj ha)
    exact h
  | follow m path lookup =>
    cases left with
    | zero => cases ha
    | succ left =>
      obtain ⟨rfl, _⟩ := Prod.mk.inj (Option.some.inj ha)
      exact h

/-- What every rule keeps holds of all that is found. -/
theorem Scopes.result_of_reaches {scopes : Scopes} {inv : LookupState → Prop}
    {result : List String → Prop}
    (step : ∀ state move, inv state → scopes.Offers state move → move.Keeps inv result)
    {left : Nat} {state : LookupState} {found : List String}
    (hr : scopes.Reaches left state found) (h : inv state) : result found := by
  induction hr with
  | find hm => exact step _ _ h (mem_movesOf_iff.mp hm)
  | visit hm ha _ ih => exact ih ((step _ _ h (mem_movesOf_iff.mp hm)).arrival ha)

namespace Scopes

section

variable {scopes : Scopes} {left : Nat} {state : LookupState} {found : List String}

theorem leads_find {p : List String} : scopes.Leads left (.find p) found ↔ found = p := by
  constructor
  · rintro (h | ⟨state, left', ha, _⟩)
    · exact (Move.find.inj h).symm
    · cases ha
  · exact fun h => .inl (h ▸ rfl)

theorem leads_canonical {segments : List String} :
    scopes.Leads left (.canonical segments) found ↔
      scopes.Reaches left (.canonical segments) found := by
  constructor
  · rintro (h | ⟨state, left', ha, hr⟩)
    · cases h
    · cases ha
      exact hr
  · exact fun hr => .inr ⟨_, _, rfl, hr⟩

/-- To follow an import or a glob, one must be left. -/
theorem leads_follow {m : ModulePath} {path : WrittenPath} {lookup : Lookup} :
    scopes.Leads left (.follow m path lookup) found ↔
      0 < left ∧ scopes.Reaches (left - 1) (.written m path lookup) found := by
  cases left with
  | zero =>
    constructor
    · rintro (h | ⟨state, left', ha, hr⟩)
      · cases h
      · cases ha
    · rintro ⟨h, _⟩
      cases h
  | succ n =>
    constructor
    · rintro (h | ⟨state, left', ha, hr⟩)
      · cases h
      · cases ha
        exact ⟨n.succ_pos, hr⟩
    · rintro ⟨_, hr⟩
      exact .inr ⟨_, _, rfl, hr⟩

/-- Where there is only one move, what can be reached is what it leads to. -/
theorem reaches_iff_of_single {move : Move} (h : scopes.movesOf state = [move]) :
    scopes.Reaches left state found ↔ scopes.Leads left move found := by
  rw [reaches_iff_leads, h]
  simp

theorem nodup_resolve (scopes : Scopes) (m : ModulePath) (path : WrittenPath) :
    (scopes.resolve m path).Nodup :=
  nodup_make (maxIndirections + 1) (.follow m path .any) .empty (by simp [Search.empty])

theorem resolve_eq_singleton {m : ModulePath} {path : WrittenPath} {p : List String}
    (h : ∀ q, scopes.Reaches maxIndirections (.written m path .any) q ↔ q = p) :
    scopes.resolve m path = [p] := by
  refine List.perm_singleton.mp ((List.perm_ext_iff_of_nodup (nodup_resolve scopes m path)
    (by simp)).mpr fun q => ?_)
  rw [mem_resolve_iff_reaches, h, List.mem_singleton]

end

end Scopes

/-- The module is the crate's root or below it. -/
def ModulePath.IsInCrate (m : ModulePath) : Prop := m.segments.head? = some "crate"

instance (m : ModulePath) : Decidable m.IsInCrate := inferInstanceAs (Decidable (_ = _))

/-- What is looked up stands in a module of the crate, or is a path from its root. -/
def LookupState.IsInCrate : LookupState → Prop
  | .written m _ _ => m.IsInCrate
  | .canonical segments => segments.head? = some "crate"

theorem ModulePath.IsInCrate.head?_append {m : ModulePath} (h : m.IsInCrate)
    (rest : List String) : (m.segments ++ rest).head? = some "crate" := by
  rw [List.head?_append, h]
  rfl

theorem ModulePath.IsInCrate.parent {m parent : ModulePath} (h : m.IsInCrate)
    (hp : m.parent? = some parent) : parent.IsInCrate := by
  unfold ModulePath.parent? at hp
  split at hp
  case isTrue => cases hp
  case isFalse hlength =>
    obtain rfl := Option.some.inj hp
    unfold ModulePath.IsInCrate at h ⊢
    match hs : m.segments with
    | [] | [_] => simp [hs] at hlength
    | first :: second :: rest => simpa [hs] using h

theorem ModulePath.IsInCrate.ancestor {m base : ModulePath} {n : Nat} (h : m.IsInCrate)
    (ha : m.ancestor? n = some base) : base.IsInCrate := by
  induction n generalizing m with
  | zero => exact Option.some.inj ha ▸ h
  | succ n ih =>
    obtain ⟨parent, hp, ha⟩ := Option.bind_eq_some_iff.mp ha
    exact ih (h.parent hp) ha

theorem ModulePath.IsInCrate.placed {m : ModulePath} {segments placed : List String}
    (h : m.IsInCrate) (hp : m.placed? segments = some placed) :
    placed.head? = some "crate" := by
  unfold ModulePath.placed? at hp
  split at hp
  · exact Option.some.inj hp ▸ rfl
  · exact Option.some.inj hp ▸ h.head?_append _
  · obtain ⟨base, hbase, rfl⟩ := Option.map_eq_some_iff.mp hp
    exact (h.ancestor hbase).head?_append _
  · cases hp

/-- The states in which a name is looked up in a module: as it is written there, or as a path from
the root. -/
inductive LookupState.AsksFor (m : ModulePath) (name : String) : LookupState → Prop
  | written : name ∉ placeWords → AsksFor m name (.written m ⟨false, [name]⟩ .any)
  | canonical : m.segments ≠ [] → AsksFor m name (.canonical (m.segments ++ [name]))

namespace Scopes

variable {scopes : Scopes}

/-- The module that a path is looked up in is what stands in front of the names in the path. -/
theorem eq_of_enclosing? {segments : List String} {m : ModulePath} {scope : ModuleScope}
    {name : String} {rest : List String}
    (h : scopes.enclosing? segments = some (m, scope, name, rest)) :
    segments = m.segments ++ name :: rest ∧ m.segments ≠ [] ∧ scopes.get? m = some scope := by
  obtain ⟨n, hn, h⟩ := List.exists_of_findSome?_eq_some h
  dsimp only at h
  split at h
  case h_2 => cases h
  case h_1 hs hd =>
    obtain ⟨rfl, rfl, rfl, rfl⟩ := by simpa using h
    refine ⟨by rw [← hd, List.take_append_drop], ?_, hs⟩
    have hpos : n ≠ 0 := by
      simp only [List.mem_reverse, List.range_eq_range', List.drop_range', List.mem_range'_1] at hn
      omega
    have hseg : segments ≠ [] := fun hnil => by simp [hnil] at hd
    simp [List.take_eq_nil_iff, hpos, hseg]

/-- Names of a scanned module are looked up in it. -/
theorem enclosing?_append {m : ModulePath} {scope : ModuleScope} (hs : scopes.get? m = some scope)
    (hm : m.segments ≠ []) (name : String) :
    scopes.enclosing? (m.segments ++ [name]) = some (m, scope, name, []) := by
  obtain ⟨k, hk⟩ : ∃ k, m.segments.length = k + 1 :=
    ⟨m.segments.length - 1, by have := List.length_pos_iff.mpr hm; omega⟩
  unfold enclosing?
  rw [List.length_append, List.length_singleton, List.range_succ,
    List.drop_append_of_le_length (by simp [hk]), List.reverse_append]
  simp [hs]

section

variable {m : ModulePath} {scope : ModuleScope} {name : String} {state : LookupState}

theorem begins_of_name (hname : name ∉ placeWords) :
    WrittenPath.BeginsWith ⟨false, [name]⟩ name [] := ⟨rfl, rfl, hname⟩

theorem movesOf_imported {target : WrittenPath} (hs : scopes.get? m = some scope)
    (hb : scope.get? name = some (.imported target)) (h : state.AsksFor m name) :
    scopes.movesOf state = [.follow m target (.skipping name)] := by
  cases h with
  | written hname =>
    have hbound : scopes.bound? m .any name = some (.imported target) := by
      simp [bound?, Lookup.any, hs, hb]
    simp [movesOf_name (begins_of_name hname), hbound]
  | canonical hm => simp [movesOf, enclosing?_append hs hm, hb]

/-- A name that the module does not bind can only come from a glob. -/
theorem movesOf_glob {path : WrittenPath} (hs : scopes.get? m = some scope)
    (hb : scope.get? name = none) (hg : scope.globs = [path]) (h : state.AsksFor m name) :
    scopes.movesOf state = [.follow m (path.append [name]) .expanded] := by
  cases h with
  | written hname =>
    have hbound : scopes.bound? m .any name = none := by simp [bound?, Lookup.any, hs, hb]
    rw [movesOf_name (begins_of_name hname), hbound, hs]
    simp [Lookup.any, hg, globMoves]
  | canonical hm => simp [movesOf, enclosing?_append hs hm, hb, hg, globMoves]

end

theorem keeps_isInCrate {state : LookupState} {move : Move} (h : state.IsInCrate)
    (hm : scopes.Offers state move) : move.Keeps LookupState.IsInCrate fun _ => True := by
  have onTheWay : ∀ {segments : List String} {m : ModulePath} {scope : ModuleScope}
      {name : String} {rest : List String}, segments.head? = some "crate" →
      scopes.enclosing? segments = some (m, scope, name, rest) → m.IsInCrate := by
    intro segments m scope name rest h he
    obtain ⟨rfl, hne, _⟩ := eq_of_enclosing? he
    obtain ⟨first, more, hm⟩ := List.exists_cons_of_ne_nil hne
    simpa [ModulePath.IsInCrate, hm] using h
  cases hm with
  | ends _ | outside _ _ | prelude _ _ _ => exact trivial
  | importOnTheWay he _ | globOnTheWay he _ _ => exact onTheWay h he
  | placed _ hp => exact ModulePath.IsInCrate.placed h hp
  | declared _ _ => exact ModulePath.IsInCrate.head?_append h _
  | imported _ _ | glob _ _ _ _ _ => exact h

end Scopes

theorem isInCrate_of_mem_declaredStructs {units : List SourceUnit}
    (hunits : ∀ u ∈ units, u.module.IsInCrate) {d : ModulePath × StructItem}
    (hd : d ∈ declaredStructs units) : d.1.IsInCrate := by
  obtain ⟨u, hu, hd⟩ := List.mem_flatMap.mp hd
  obtain ⟨⟨names, item⟩, _, rfl⟩ := List.mem_map.mp hd
  exact (hunits u hu).head?_append names

end RowFactory
