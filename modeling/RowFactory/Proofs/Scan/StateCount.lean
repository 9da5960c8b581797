import Mathlib.Algebra.Order.BigOperators.Group.List
import Mathlib.Algebra.Order.Ring.Nat
import Mathlib.Data.List.ProdSigma
import RowFactory.Proofs.Scan.Entries
import RowFactory.Proofs.Scan.Rearrangement

namespace RowFactory

namespace Scopes

/-- The most globs in one module; one, if there are none. -/
def mostGlobs (scopes : Scopes) : Nat :=
  (scopes.modules.map (·.2.globs.length)).foldr max 1

theorem one_le_mostGlobs (scopes : Scopes) : 1 ≤ scopes.mostGlobs := by
  unfold mostGlobs
  induction scopes.modules with
  | nil => exact Nat.le_refl 1
  | cons entry rest ih => exact Nat.le_trans ih (Nat.le_max_right _ _)

theorem length_globs_le_mostGlobs {scopes : Scopes} {m : ModulePath} {scope : ModuleScope}
    (h : scopes.get? m = some scope) : scope.globs.length ≤ scopes.mostGlobs := by
  obtain ⟨before, after, hmodules, -⟩ := List.lookup_eq_some_iff.mp h
  rw [mostGlobs, hmodules]
  clear hmodules
  induction before with
  | nil => exact Nat.le_max_left _ _
  | cons entry rest ih => exact Nat.le_trans ih (Nat.le_max_right _ _)

end Scopes

namespace Move

/-- The state that an import or a glob leads to. -/
@[simp] def followed? : Move → Option LookupState
  | .follow m path lookup => some (.written m path lookup)
  | _ => none

/-- The path from the root that a path stands for. -/
@[simp] def placed? : Move → Option LookupState
  | .canonical segments => some (.canonical segments)
  | _ => none

end Move

@[simp] theorem length_followed?_globMoves (m : ModulePath) (globs : List WrittenPath)
    (tail : List String) :
    ((globMoves m globs tail).filterMap Move.followed?).length = globs.length := by
  simp [globMoves, List.filterMap_map, Function.comp_def]

@[simp] theorem placed?_globMoves (m : ModulePath) (globs : List WrittenPath)
    (tail : List String) : (globMoves m globs tail).filterMap Move.placed? = [] := by
  simp [globMoves]

theorem length_flatMap_le {α β : Type} {f : α → List β} {n : Nat} {xs : List α}
    (h : ∀ x ∈ xs, (f x).length ≤ n) : (xs.flatMap f).length ≤ xs.length * n := by
  rw [List.length_flatMap]
  simpa using List.sum_le_card_nsmul (xs.map fun x => (f x).length) n (by simpa using h)

namespace Scopes

section

variable {scopes : Scopes} {state start : LookupState}

/-- The states that an import or a glob of the state leads to. -/
def followedFrom (scopes : Scopes) (state : LookupState) : List LookupState :=
  (scopes.movesOf state).filterMap Move.followed?

/-- The path from the root that the state stands for, if any. -/
def placedFrom (scopes : Scopes) (state : LookupState) : List LookupState :=
  (scopes.movesOf state).filterMap Move.placed?

theorem followed_of_canonical (scopes : Scopes) (segments : List String) :
    scopes.placedFrom (.canonical segments) = [] ∧
      (scopes.followedFrom (.canonical segments)).length ≤ scopes.mostGlobs := by
  simp only [placedFrom, followedFrom, movesOf]
  cases he : scopes.enclosing? segments with
  | none => simp [List.filterMap_cons]
  | some found =>
    obtain ⟨m, scope, name, rest⟩ := found
    have hglobs := length_globs_le_mostGlobs (eq_of_enclosing? he).2.2
    cases hb : scope.get? name with
    | some binding => cases binding <;> simp [hb, List.filterMap_cons, one_le_mostGlobs]
    | none => cases hg : scope.globs.isEmpty <;> simp [hb, hg, hglobs, List.filterMap_cons]

/-- A state stands for a path from the root and leads nowhere else, or it leads over imports and
globs. -/
theorem placed_or_followed (scopes : Scopes) (state : LookupState) :
    (∃ segments, scopes.movesOf state = [.canonical segments]) ∨
      scopes.placedFrom state = [] ∧ (scopes.followedFrom state).length ≤ scopes.mostGlobs := by
  cases state with
  | canonical segments => exact .inr (scopes.followed_of_canonical segments)
  | written m path lookup =>
    unfold placedFrom followedFrom
    cases hp : path.segments with
    | nil => simp [movesOf, hp]
    | cons first rest =>
      cases hc : path.leadingColon with
      | true => simp [movesOf, hp, hc, List.filterMap_cons]
      | false =>
        by_cases hfirst : first ∈ placeWords
        · rw [movesOf_place hp hc hfirst]
          cases m.placed? path.segments <;> simp [List.filterMap_cons]
        · rw [movesOf_name ⟨hp, hc, hfirst⟩]
          cases scopes.bound? m lookup first with
          | some binding => cases binding <;> simp [List.filterMap_cons, one_le_mostGlobs]
          | none =>
            have hglobs : ((scopes.get? m).getD .empty).globs.length ≤ scopes.mostGlobs := by
              cases hs : scopes.get? m with
              | none => simp [ModuleScope.empty]
              | some scope => exact length_globs_le_mostGlobs hs
            right
            cases lookup.globs <;> cases rest <;> simp [hglobs, List.filterMap_cons]

/-- What is reached from the state over one import or glob. -/
def nextFrom (scopes : Scopes) (state : LookupState) : List LookupState :=
  (state :: scopes.placedFrom state).flatMap scopes.followedFrom

theorem length_nextFrom_le : (scopes.nextFrom state).length ≤ scopes.mostGlobs := by
  rcases scopes.placed_or_followed state with ⟨segments, hm⟩ | ⟨hplaced, hfollowed⟩
  · have hplaced : scopes.placedFrom state = [.canonical segments] := by simp [placedFrom, hm]
    have hfollowed : scopes.followedFrom state = [] := by
      simp [followedFrom, hm, List.filterMap_cons]
    simpa [nextFrom, hplaced, hfollowed] using (scopes.followed_of_canonical segments).2
  · simpa [nextFrom, hplaced] using hfollowed

theorem length_placedFrom_le : (scopes.placedFrom state).length ≤ 1 := by
  rcases scopes.placed_or_followed state with ⟨segments, hm⟩ | ⟨hplaced, -⟩
  · simp [placedFrom, hm]
  · simp [hplaced]

/-- What is followed to over so many imports or globs. -/
def followedAt (scopes : Scopes) (start : LookupState) : Nat → List LookupState
  | 0 => [start]
  | depth + 1 => (scopes.followedAt start depth).flatMap scopes.nextFrom

/-- What is reached over so many imports or globs. -/
def reachedAt (scopes : Scopes) (start : LookupState) (depth : Nat) : List LookupState :=
  (scopes.followedAt start depth).flatMap fun state => state :: scopes.placedFrom state

theorem mem_reachedAt {depth : Nat} (h : scopes.ReachedIn start state depth) :
    state ∈ scopes.reachedAt start depth := by
  induction h with
  | start => simp [reachedAt, followedAt]
  | canonical _ hm ih =>
    obtain ⟨before, hb, hmem⟩ := List.mem_flatMap.mp ih
    rcases List.mem_cons.mp hmem with rfl | hplaced
    · have hplaced : _ ∈ scopes.placedFrom _ := List.mem_filterMap.mpr ⟨_, hm, rfl⟩
      exact List.mem_flatMap.mpr ⟨_, hb, List.mem_cons_of_mem _ hplaced⟩
    · obtain ⟨move, -, hmove⟩ := List.mem_filterMap.mp hplaced
      cases move with
      | canonical p =>
        obtain rfl := Option.some.inj hmove
        exact absurd hm canonical_not_mem_movesOf_canonical
      | find p => simp at hmove
      | follow m path lookup => simp at hmove
  | follow _ hm ih =>
    obtain ⟨before, hb, hmem⟩ := List.mem_flatMap.mp ih
    have hfollowed : _ ∈ scopes.followedFrom _ := List.mem_filterMap.mpr ⟨_, hm, rfl⟩
    have hnext := List.mem_flatMap.mpr ⟨_, hmem, hfollowed⟩
    exact List.mem_flatMap.mpr ⟨_, List.mem_flatMap.mpr ⟨_, hb, hnext⟩, by simp⟩

end

theorem length_followedAt_le (scopes : Scopes) (start : LookupState) (depth : Nat) :
    (scopes.followedAt start depth).length ≤ scopes.mostGlobs ^ depth := by
  induction depth with
  | zero => exact Nat.le_refl 1
  | succ depth ih =>
    calc (scopes.followedAt start (depth + 1)).length
        ≤ (scopes.followedAt start depth).length * scopes.mostGlobs :=
          length_flatMap_le fun _ _ => length_nextFrom_le
      _ ≤ scopes.mostGlobs ^ depth * scopes.mostGlobs := Nat.mul_le_mul_right _ ih

theorem length_reachedAt_le (scopes : Scopes) (start : LookupState) (depth : Nat) :
    (scopes.reachedAt start depth).length ≤ 2 * scopes.mostGlobs ^ depth := by
  calc (scopes.reachedAt start depth).length
      ≤ (scopes.followedAt start depth).length * 2 :=
        length_flatMap_le fun _ _ => Nat.succ_le_succ length_placedFrom_le
    _ ≤ scopes.mostGlobs ^ depth * 2 := Nat.mul_le_mul_right _ (length_followedAt_le ..)
    _ = 2 * scopes.mostGlobs ^ depth := Nat.mul_comm _ _

section

variable {scopes : Scopes} {limit : Nat} {m : ModulePath} {path : WrittenPath}

theorem length_seen_le (scopes : Scopes) (limit : Nat) (m : ModulePath) (path : WrittenPath) :
    (scopes.searchWithin limit m path).seen.length ≤
      2 * (limit + 1) * scopes.mostGlobs ^ limit := by
  have hsub : (scopes.searchWithin limit m path).seen.map (·.1) ⊆
      (List.range (limit + 1)).flatMap (scopes.reachedAt (.written m path .any)) := by
    intro state hs
    obtain ⟨left, hl⟩ : ∃ left, (scopes.searchWithin limit m path).seen.lookup state = some left :=
      Option.isSome_iff_exists.mp (List.lookup_isSome_iff.mpr (by simpa using hs))
    have hreached := (reached_of_lookup_seen hl).2.2
    exact List.mem_flatMap.mpr
      ⟨limit - left, List.mem_range.mpr (by omega), mem_reachedAt hreached⟩
  calc (scopes.searchWithin limit m path).seen.length
      = ((scopes.searchWithin limit m path).seen.map (·.1)).length := (List.length_map _).symm
    _ ≤ ((List.range (limit + 1)).flatMap (scopes.reachedAt (.written m path .any))).length :=
        (List.subperm_of_subset nodup_seen hsub).length_le
    _ ≤ (List.range (limit + 1)).length * (2 * scopes.mostGlobs ^ limit) := by
        refine length_flatMap_le fun depth hd => Nat.le_trans (length_reachedAt_le ..) ?_
        have hdepth : depth ≤ limit := Nat.le_of_lt_succ (List.mem_range.mp hd)
        exact Nat.mul_le_mul_left 2 (Nat.pow_le_pow_right scopes.one_le_mostGlobs hdepth)
    _ = 2 * (limit + 1) * scopes.mostGlobs ^ limit := by
        rw [List.length_range, Nat.mul_left_comm, Nat.mul_assoc]

/-- So many states are remembered if so many different ones are reached. -/
theorem length_le_seen {α : Type} {xs : List α} (hnodup : xs.Nodup) {f : α → LookupState}
    (hf : f.Injective)
    (h : ∀ x ∈ xs, (f x).isRemembered ∧
      ∃ depth ≤ limit, scopes.ReachedIn (.written m path .any) (f x) depth) :
    xs.length ≤ (scopes.searchWithin limit m path).seen.length := by
  have hsub : xs.map f ⊆ (scopes.searchWithin limit m path).seen.map (·.1) := by
    intro state hs
    obtain ⟨x, hx, rfl⟩ := List.mem_map.mp hs
    obtain ⟨hremembered, depth, hd, hreached⟩ := h x hx
    obtain ⟨left, hl, -⟩ := knows_of_reachedIn hreached hd hremembered
    obtain ⟨before, after, hseen, -⟩ := List.lookup_eq_some_iff.mp hl
    simp [hseen]
  calc xs.length = (xs.map f).length := (List.length_map f).symm
    _ ≤ ((scopes.searchWithin limit m path).seen.map (·.1)).length :=
        (List.subperm_of_subset (hnodup.map hf) hsub).length_le
    _ = _ := List.length_map _

end

/-- The tables of a crate with one module. -/
def ofRoot (scope : ModuleScope) : Scopes := ⟨[(.root, scope)]⟩

section

variable {scope : ModuleScope} {start : LookupState} {name other : String}
  {tail : List String} {depth : Nat}

@[simp] theorem get?_ofRoot : (ofRoot scope).get? .root = some scope := rfl

theorem get?_ofRoot_eq_none {m : ModulePath} (h : m ≠ .root) : (ofRoot scope).get? m = none := by
  have hbeq : (m == .root) = false := by simpa using h
  simp [ofRoot, get?, List.lookup_cons, hbeq]

theorem enclosing?_ofRoot (scope : ModuleScope) (name : String) (rest : List String) :
    (ofRoot scope).enclosing? ("crate" :: name :: rest) = some (.root, scope, name, rest) := by
  cases he : (ofRoot scope).enclosing? ("crate" :: name :: rest) with
  | none =>
    have hnone := List.findSome?_eq_none_iff.mp he 1 (by simp [List.range_eq_range'])
    simp [ofRoot, get?, ModulePath.root] at hnone
  | some found =>
    obtain ⟨m, scope', name', rest'⟩ := found
    obtain ⟨hsegments, -, hs⟩ := eq_of_enclosing? he
    obtain rfl : m = .root := by
      by_contra hm
      simp [get?_ofRoot_eq_none hm] at hs
    obtain rfl : scope = scope' := by simpa using hs
    obtain ⟨rfl, rfl⟩ : name = name' ∧ rest = rest' := by simpa [ModulePath.root] using hsegments
    rfl

theorem bound?_ofRoot_eq_none (lookup : Lookup) (h : scope.get? name = none) :
    (ofRoot scope).bound? .root lookup name = none := by
  simp [bound?, h]

/-- Over so many imports or globs one comes to every glob of the root, with the names behind it. -/
def ExpandsAt (scope : ModuleScope) (start : LookupState) (tail : List String) (depth : Nat) :
    Prop :=
  ∃ state, (ofRoot scope).ReachedIn start state depth ∧
    ∀ glob ∈ scope.globs, (ofRoot scope).Offers state (.follow .root (glob.append tail) .expanded)

theorem ExpandsAt.follow (h : ExpandsAt scope start tail depth) {glob : WrittenPath}
    (hg : glob ∈ scope.globs) :
    (ofRoot scope).ReachedIn start (.written .root (glob.append tail) .expanded) (depth + 1) := by
  obtain ⟨state, hreached, hoffers⟩ := h
  exact hreached.follow (mem_movesOf_iff.mpr (hoffers glob hg))

/-- A name that is not bound can only come from a glob. -/
theorem expandsAt_of_open {lookup : Lookup}
    (h : (ofRoot scope).ReachedIn start (.written .root ⟨false, name :: tail⟩ lookup) depth)
    (hname : name ∉ placeWords) (hb : scope.get? name = none) (hglobs : lookup.globs = true) :
    ExpandsAt scope start (name :: tail) depth :=
  ⟨_, h, fun _ hg =>
    .glob ⟨rfl, rfl, hname⟩ (bound?_ofRoot_eq_none lookup hb) hglobs get?_ofRoot hg⟩

/-- An import of a name that is not bound leads to the globs at once. -/
theorem expandsAt_of_import {lookup : Lookup}
    (h : (ofRoot scope).ReachedIn start (.written .root ⟨false, name :: tail⟩ lookup) depth)
    (hskip : lookup.skip = none) (hname : name ∉ placeWords)
    (hb : scope.get? name = some (.imported ⟨false, [other]⟩))
    (hother : other ∉ placeWords) (hopen : scope.get? other = none) :
    ExpandsAt scope start (other :: tail) (depth + 1) := by
  have hbound : (ofRoot scope).bound? .root lookup name = some (.imported ⟨false, [other]⟩) := by
    simp [bound?, hskip, hb]
  exact expandsAt_of_open (h.follow (mem_movesOf_iff.mpr (.imported ⟨rfl, rfl, hname⟩ hbound)))
    hother hopen rfl

/-- A glob of a name that is not bound puts the name in front, at the cost of one glob. -/
theorem ExpandsAt.self (h : ExpandsAt scope start tail depth)
    (hg : ⟨false, ["self", name]⟩ ∈ scope.globs) (hb : scope.get? name = none) :
    ExpandsAt scope start (name :: tail) (depth + 1) := by
  have hplaced : (ofRoot scope).Offers
      (.written .root (WrittenPath.append ⟨false, ["self", name]⟩ tail) .expanded)
      (.canonical ("crate" :: name :: tail)) := .placed rfl rfl
  exact ⟨_, (h.follow hg).canonical (mem_movesOf_iff.mpr hplaced),
    fun _ hg => .globOnTheWay (enclosing?_ofRoot scope name tail) hb hg⟩

/-- A glob of a name that is imported puts what it stands for in front, at the cost of the glob and
the import. -/
theorem ExpandsAt.aliased (h : ExpandsAt scope start tail depth)
    (hg : ⟨false, [name]⟩ ∈ scope.globs) (hname : name ∉ placeWords)
    (hb : scope.get? name = some (.imported ⟨false, [other]⟩))
    (hother : other ∉ placeWords) (hopen : scope.get? other = none) :
    ExpandsAt scope start (other :: tail) (depth + 2) :=
  expandsAt_of_import (h.follow hg) rfl hname hb hother hopen

end

end Scopes

/-- All words of the length over the names. -/
def wordsOver (names : List String) : Nat → List (List String)
  | 0 => [[]]
  | length + 1 => (names ×ˢ wordsOver names length).map fun word => word.1 :: word.2

theorem length_wordsOver (names : List String) (length : Nat) :
    (wordsOver names length).length = names.length ^ length := by
  induction length with
  | zero => rfl
  | succ length ih => rw [wordsOver, List.length_map, List.length_product, ih, Nat.pow_succ']

theorem nodup_wordsOver {names : List String} (h : names.Nodup) (length : Nat) :
    (wordsOver names length).Nodup := by
  induction length with
  | zero => simp [wordsOver]
  | succ length ih =>
    refine (h.product ih).map fun first second heq => ?_
    obtain ⟨hhead, htail⟩ := List.cons.inj heq
    exact Prod.ext hhead htail

/-- As many names as asked for: `a`, `aa` and so on. -/
def namesOf (k : Nat) : List String :=
  (List.range k).map fun i => String.ofList (List.replicate (i + 1) 'a')

theorem length_namesOf (k : Nat) : (namesOf k).length = k := by simp [namesOf]

theorem nodup_namesOf (k : Nat) : (namesOf k).Nodup := by
  refine List.nodup_range.map fun i j h => ?_
  simpa using String.ofList_injective h

/-- A module that imports everything from so many modules of its own, none of which is known:
`use self::a::*`, `use self::aa::*` and so on. -/
def openGlobs (k : Nat) : ModuleScope :=
  ⟨[], (namesOf k).map fun name => ⟨false, ["self", name]⟩⟩

namespace Scopes

theorem mostGlobs_openGlobs (k : Nat) : (ofRoot (openGlobs k)).mostGlobs = max k 1 := by
  simp [mostGlobs, ofRoot, openGlobs, length_namesOf]

/-- Every word over the names is looked up, each name at the cost of a glob. -/
theorem expandsAt_openGlobs {k length : Nat} {word : List String}
    (h : word ∈ wordsOver (namesOf k) length) :
    ExpandsAt (openGlobs k) (.written .root ⟨false, ["Row"]⟩ .any) (word ++ ["Row"]) length := by
  induction length generalizing word with
  | zero =>
    obtain rfl : word = [] := by simpa [wordsOver] using h
    exact expandsAt_of_open .start (by decide) rfl rfl
  | succ length ih =>
    obtain ⟨⟨name, rest⟩, hmem, rfl⟩ := List.mem_map.mp h
    obtain ⟨hname, hrest⟩ := List.mem_product.mp hmem
    exact (ih hrest).self (List.mem_map_of_mem hname) rfl

/-- The states multiply with each glob that is followed. -/
theorem pow_le_length_seen (k limit : Nat) :
    k ^ (limit + 1) ≤
      ((ofRoot (openGlobs k)).searchWithin (limit + 1) .root ⟨false, ["Row"]⟩).seen.length := by
  have hinj : Function.Injective fun word =>
      LookupState.written .root ⟨false, "self" :: word ++ ["Row"]⟩ .expanded :=
    fun first second heq => by simpa using heq
  calc k ^ (limit + 1) = (wordsOver (namesOf k) (limit + 1)).length := by
        rw [length_wordsOver, length_namesOf]
    _ ≤ _ := length_le_seen (nodup_wordsOver (nodup_namesOf k) _) hinj fun word hword => ?_
  obtain ⟨⟨name, rest⟩, hmem, rfl⟩ := List.mem_map.mp hword
  obtain ⟨hname, hrest⟩ := List.mem_product.mp hmem
  exact ⟨rfl, limit + 1, Nat.le_refl _,
    (expandsAt_openGlobs hrest).follow (List.mem_map_of_mem hname)⟩

end Scopes

/-- `use Row::*; use self::rows::*; use ::*; use orm as Row;` in the crate's root. -/
def aliasedGlob : SourceUnit :=
  ⟨.root, [.use false (.path (.plain "Row") .glob),
    .use false (.path (.plain "self") (.path (.plain "rows") .glob)),
    .use true .glob,
    .use false (.rename (.plain "orm") (.plain "Row")),
    .struct (derivingStruct "Customer" "Row")]⟩

/-- The words of `rows` and `orm` that cost at most so much: the one name is put in front at the
cost of a glob, the other at that of a glob and an import. -/
def aliasWords : Nat → List (List String)
  | 0 => [[]]
  | 1 => [[], ["rows"]]
  | cost + 2 =>
    [] :: (aliasWords (cost + 1)).map ("rows" :: ·) ++ (aliasWords cost).map ("orm" :: ·)

theorem nodup_aliasWords (cost : Nat) : (aliasWords cost).Nodup := by
  induction cost using aliasWords.induct with
  | case1 => decide
  | case2 => decide
  | case3 cost rows orm =>
    have hrows : ((aliasWords (cost + 1)).map ("rows" :: ·)).Nodup :=
      rows.map fun _ _ h => (List.cons.inj h).2
    have horm : ((aliasWords cost).map ("orm" :: ·)).Nodup :=
      orm.map fun _ _ h => (List.cons.inj h).2
    refine List.nodup_cons.mpr ⟨by simp, hrows.append horm fun word hr ho => ?_⟩
    obtain ⟨_, -, rfl⟩ := List.mem_map.mp hr
    simp at ho

namespace Scopes

/-- What the imports of the unit are recorded as. -/
def aliasedScope : ModuleScope :=
  ⟨[("Customer", .declared), ("Row", .imported ⟨false, ["orm"]⟩)],
    [⟨false, ["Row"]⟩, ⟨false, ["self", "rows"]⟩, ⟨true, []⟩]⟩

theorem ofUnits_aliasedGlob : ofUnits [aliasedGlob] = ofRoot aliasedScope := rfl

theorem expandsAt_aliasedScope (cost : Nat) {word : List String} (h : word ∈ aliasWords cost) :
    ∃ depth ≤ cost + 1, ExpandsAt aliasedScope (.written .root ⟨false, ["Row"]⟩ .any)
      (word ++ ["orm"]) depth := by
  have start : ExpandsAt aliasedScope (.written .root ⟨false, ["Row"]⟩ .any) ["orm"] 1 :=
    expandsAt_of_import .start rfl (by decide) rfl (by decide) rfl
  have hrow : ⟨false, ["Row"]⟩ ∈ aliasedScope.globs := by decide
  have hrows : ⟨false, ["self", "rows"]⟩ ∈ aliasedScope.globs := by decide
  induction cost using aliasWords.induct generalizing word with
  | case1 =>
    obtain rfl : word = [] := by simpa [aliasWords] using h
    exact ⟨1, Nat.le_refl 1, start⟩
  | case2 =>
    obtain rfl | rfl : word = [] ∨ word = ["rows"] := by simpa [aliasWords] using h
    · exact ⟨1, Nat.le_succ 1, start⟩
    · exact ⟨2, Nat.le_refl 2, start.self hrows rfl⟩
  | case3 cost rows orm =>
    rcases List.mem_append.mp h with h | h
    · rcases List.mem_cons.mp h with rfl | h
      · exact ⟨1, by omega, start⟩
      · obtain ⟨rest, hrest, rfl⟩ := List.mem_map.mp h
        obtain ⟨depth, hd, hexpands⟩ := rows hrest
        exact ⟨depth + 1, by omega, hexpands.self hrows rfl⟩
    · obtain ⟨rest, hrest, rfl⟩ := List.mem_map.mp h
      obtain ⟨depth, hd, hexpands⟩ := orm hrest
      exact ⟨depth + 2, by omega, hexpands.aliased hrow (by decide) rfl (by decide) rfl⟩

end Scopes

/-- The names that the table spells: in the targets of imports and of globs. -/
def ModuleScope.segmentCount (scope : ModuleScope) : Nat :=
  (scope.bindings.map fun
    | (_, .imported target) => target.segments.length
    | (_, .declared) => 0).sum + (scope.globs.map (·.segments.length)).sum

namespace Scopes

/-- The size of the tables: the names that they and the paths of their modules spell. -/
def segmentCount (scopes : Scopes) : Nat :=
  (scopes.modules.map fun (m, scope) => m.segments.length + scope.segmentCount).sum

theorem segmentCount_openGlobs (k : Nat) : (ofRoot (openGlobs k)).segmentCount = 2 * k + 1 := by
  simp [segmentCount, ofRoot, ModuleScope.segmentCount, ModulePath.root, openGlobs,
    Function.comp_def, length_namesOf, Nat.mul_comm, Nat.add_comm]

/-- The states that a search remembers are bounded by the most globs of a module to the power of the
imports and globs that may be followed in a row, times twice the number of depths. So they are no
more than the fourth power of the names that the tables and the path spell, three or more, where no
module has two globs. No smaller power of the globs will do: with `k` globs to modules that are not
known, and no more than twice as many names in the tables, the states are as many as that power of
`k`. -/
theorem states_grow_with_globs (scopes : Scopes) (m : ModulePath) (path : WrittenPath) :
    (∀ limit, (scopes.searchWithin limit m path).seen.length ≤
      2 * (limit + 1) * scopes.mostGlobs ^ limit) ∧
    scopes.search m path = scopes.searchWithin 16 m path ∧
    (scopes.mostGlobs = 1 → 3 ≤ scopes.segmentCount + path.segments.length →
      (scopes.search m path).seen.length ≤ (scopes.segmentCount + path.segments.length) ^ 4) ∧
    ∀ k limit, (ofRoot (openGlobs k)).mostGlobs = max k 1 ∧
      (ofRoot (openGlobs k)).segmentCount = 2 * k + 1 ∧
      k ^ (limit + 1) ≤
        ((ofRoot (openGlobs k)).searchWithin (limit + 1) .root ⟨false, ["Row"]⟩).seen.length := by
  have hbound := fun limit => scopes.length_seen_le limit m path
  refine ⟨hbound, rfl, fun hglobs hnames => ?_, fun k limit =>
    ⟨mostGlobs_openGlobs k, segmentCount_openGlobs k, pow_le_length_seen k limit⟩⟩
  calc (scopes.search m path).seen.length ≤ 2 * (16 + 1) * scopes.mostGlobs ^ 16 := hbound 16
    _ ≤ 3 ^ 4 := by rw [hglobs]; decide
    _ ≤ (scopes.segmentCount + path.segments.length) ^ 4 := Nat.pow_le_pow_left hnames 4

/-- The root of a crate with one import, `use rowmap::*;`. -/
def preludeGlob : ModuleScope := ⟨[], [⟨false, ["rowmap"]⟩]⟩

theorem states_grow_with_globs_prelude :
    (ofRoot preludeGlob).mostGlobs = 1 ∧ 3 ≤ (ofRoot preludeGlob).segmentCount + 1 ∧
      ((ofRoot preludeGlob).search .root ⟨false, ["RowMapped"]⟩).seen.length ≤ (2 + 1) ^ 4 ∧
      2 ^ (15 + 1) ≤
        ((ofRoot (openGlobs 2)).searchWithin (15 + 1) .root ⟨false, ["Row"]⟩).seen.length := by
  have hglobs : (ofRoot preludeGlob).mostGlobs = 1 := rfl
  have hnames : 3 ≤ (ofRoot preludeGlob).segmentCount + 1 := by decide
  obtain ⟨-, -, hfew, hmany⟩ :=
    states_grow_with_globs (ofRoot preludeGlob) .root ⟨false, ["RowMapped"]⟩
  exact ⟨hglobs, hnames, hfew hglobs hnames, (hmany 2 15).2.2⟩

/-- Sixteen globs and imports in a row make more states than the fourth power of the six names that
the tables and the path spell. -/
theorem states_exceed_fourth_power :
    ((ofUnits [aliasedGlob]).segmentCount + (WrittenPath.mk false ["Row"]).segments.length) ^ 4 <
      ((ofUnits [aliasedGlob]).search .root ⟨false, ["Row"]⟩).seen.length := by
  have hinj : Function.Injective fun word =>
      LookupState.written .root ⟨false, "Row" :: (word ++ ["orm"])⟩ .expanded :=
    fun first second heq => by simpa using heq
  have hsize : (ofRoot aliasedScope).segmentCount = 5 := rfl
  have hcount : (aliasWords 14).length = 1596 := by decide +kernel
  rw [ofUnits_aliasedGlob, hsize]
  calc (5 + 1) ^ 4 < 1596 := by decide
    _ = (aliasWords 14).length := hcount.symm
    _ ≤ _ := length_le_seen (nodup_aliasWords 14) hinj fun word hword => ?_
  obtain ⟨depth, hd, hexpands⟩ := expandsAt_aliasedScope 14 hword
  have hrow : ⟨false, ["Row"]⟩ ∈ aliasedScope.globs := by decide
  exact ⟨rfl, depth + 1, Nat.succ_le_succ hd, hexpands.follow hrow⟩

end Scopes

end RowFactory
