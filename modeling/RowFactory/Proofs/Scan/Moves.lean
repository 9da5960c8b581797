import RowFactory.Scan.Search

namespace RowFactory

/-- A step from a state: a path is found, or another state is visited. -/
inductive Move where
  | find (segments : List String)
  | canonical (segments : List String)
  /-- An import or a glob is followed. -/
  | follow (m : ModulePath) (path : WrittenPath) (lookup : Lookup)

def globMoves (m : ModulePath) (globs : List WrittenPath) (tail : List String) : List Move :=
  globs.map fun glob => .follow m (glob.append tail) .expanded

namespace Scopes

/-- The moves of a state, in order. -/
def movesOf (scopes : Scopes) : LookupState → List Move
  | .canonical segments =>
    match scopes.enclosing? segments with
    | none => [.find segments]
    | some (m, scope, name, rest) =>
      match scope.get? name with
      | some (.imported target) => [.follow m (target.append rest) (.skipping name)]
      | some .declared => [.find segments]
      | none =>
        if scope.globs.isEmpty then [.find segments]
        else globMoves m scope.globs (name :: rest)
  | .written m path lookup =>
    match path.segments with
    | [] => []
    | first :: rest =>
      if path.leadingColon then [.find path.segments]
      else if first = "crate" then [.canonical path.segments]
      else if first = "self" then [.canonical (m.segments ++ rest)]
      else if first = "super" then
        let supers := path.segments.takeWhile (· = "super")
        match m.ancestor? supers.length with
        | some base => [.canonical (base.segments ++ path.segments.drop supers.length)]
        | none => []
      else
        let scope := (scopes.get? m).getD .empty
        match if lookup.skip = some first then none else scope.get? first with
        | some .declared => [.canonical (m.segments ++ first :: rest)]
        | some (.imported target) => [.follow m (target.append rest) (.skipping first)]
        | none =>
          (if lookup.globs then globMoves m scope.globs (first :: rest) else []) ++
            (if rest.isEmpty then [] else [.find (first :: rest)])

/-- What a move does to a search with `left` imports or globs still to be followed. -/
def make (scopes : Scopes) (rule : EntryRule) (left : Nat) : Move → Search → Search
  | .find segments, s => s.find segments
  | .canonical segments, s => scopes.canonicalize rule (scopes.follow rule left) left segments s
  | .follow m path lookup, s => scopes.follow rule left m path lookup s

def makeAll (scopes : Scopes) (rule : EntryRule) (left : Nat) (moves : List Move) (s : Search) :
    Search :=
  moves.foldl (fun s move => scopes.make rule left move s) s

end Scopes

/-- Visits of the state are remembered. A path that begins with a crate's name, and one without
names, is disposed of at once. -/
def LookupState.isRemembered : LookupState → Bool
  | .canonical _ => true
  | .written _ path _ => !path.leadingColon && !path.segments.isEmpty

/-- The state that a move leads to, with the imports or globs that may be followed from there. -/
def Move.arrival? : Nat → Move → Option (LookupState × Nat)
  | left, .canonical segments => some (.canonical segments, left)
  | left + 1, .follow m path lookup => some (.written m path lookup, left)
  | _, _ => none

namespace Scopes

variable {scopes : Scopes} {rule : EntryRule} {left : Nat}

@[simp] theorem makeAll_nil (s : Search) : scopes.makeAll rule left [] s = s := rfl

@[simp] theorem makeAll_cons (move : Move) (rest : List Move) (s : Search) :
    scopes.makeAll rule left (move :: rest) s =
      scopes.makeAll rule left rest (scopes.make rule left move s) := rfl

@[simp] theorem makeAll_append (moves rest : List Move) (s : Search) :
    scopes.makeAll rule left (moves ++ rest) s =
      scopes.makeAll rule left rest (scopes.makeAll rule left moves s) := by
  simp only [makeAll, List.foldl_append]

@[simp] theorem makeAll_globMoves (m : ModulePath) (globs : List WrittenPath) (tail : List String)
    (s : Search) :
    scopes.makeAll rule left (globMoves m globs tail) s =
      followGlobs (scopes.follow rule left) m globs tail s := by
  simp only [makeAll, globMoves, followGlobs, List.foldl_map, make]

theorem canonicalize_eq_makeAll (segments : List String) (s : Search) :
    scopes.canonicalize rule (scopes.follow rule left) left segments s =
      if rule s (.canonical segments) left then
        scopes.makeAll rule left (scopes.movesOf (.canonical segments))
          (s.enter (.canonical segments) left)
      else s := by
  unfold canonicalize
  cases rule s (.canonical segments) left with
  | false => simp
  | true =>
    simp only [Bool.not_true, Bool.false_eq_true, ↓reduceIte]
    cases he : scopes.enclosing? segments with
    | none => simp [movesOf, he, make]
    | some found =>
      obtain ⟨m, scope, name, rest⟩ := found
      cases hb : scope.get? name with
      | some binding => cases binding <;> simp [movesOf, he, hb, make]
      | none =>
        cases hg : scope.globs.isEmpty with
        | true => simp [movesOf, he, hb, hg, make]
        | false =>
          simp only [movesOf, he, hb, hg, Bool.false_eq_true, ↓reduceIte, makeAll_globMoves]

theorem lookupName_eq_makeAll {m : ModulePath} {name : String} {rest : List String}
    {lookup : Lookup} (s : Search) {path : WrittenPath} (hp : path.segments = name :: rest)
    (hcolon : path.leadingColon = false)
    (hname : name ≠ "crate" ∧ name ≠ "self" ∧ name ≠ "super") :
    scopes.lookupName rule (scopes.follow rule left) left m name rest lookup s =
      scopes.makeAll rule left (scopes.movesOf (.written m path lookup)) s := by
  generalize hb : (if lookup.skip = some name then none
    else ((scopes.get? m).getD .empty).get? name) = binding
  simp only [lookupName, movesOf, hp, hcolon, hname.1, hname.2.1, hname.2.2, hb,
    Bool.false_eq_true, ↓reduceIte]
  cases binding with
  | some binding => cases binding <;> simp [make]
  | none => cases lookup.globs <;> cases rest <;> simp [make]

/-- A written path that is entered makes its moves; one that is not remembered makes them
always. -/
theorem follow_succ_eq_makeAll (m : ModulePath) (path : WrittenPath) (lookup : Lookup)
    (s : Search) :
    scopes.follow rule (left + 1) m path lookup s =
      if (LookupState.written m path lookup).isRemembered then
        if rule s (.written m path lookup) left then
          scopes.makeAll rule left (scopes.movesOf (.written m path lookup))
            (s.enter (.written m path lookup) left)
        else s
      else scopes.makeAll rule left (scopes.movesOf (.written m path lookup)) s := by
  cases hp : path.segments with
  | nil => simp [follow, movesOf, LookupState.isRemembered, hp]
  | cons first rest =>
    cases hc : path.leadingColon with
    | true => simp [follow, movesOf, LookupState.isRemembered, hp, hc, make]
    | false =>
      cases hr : rule s (.written m path lookup) left with
      | false => simp [follow, LookupState.isRemembered, hp, hc, hr]
      | true =>
        simp only [follow, LookupState.isRemembered, hp, hc, hr, Bool.not_true, Bool.not_false,
          Bool.false_eq_true, ↓reduceIte, List.isEmpty_cons, Bool.and_self]
        by_cases h₁ : first = "crate"
        · simp [movesOf, hp, hc, h₁, make]
        by_cases h₂ : first = "self"
        · simp [movesOf, hp, hc, h₂, make]
        by_cases h₃ : first = "super"
        · subst h₃
          simp only [movesOf, hp, hc, h₁, h₂, Bool.false_eq_true, ↓reduceIte]
          cases m.ancestor? (("super" :: rest).takeWhile (· = "super")).length with
          | none => simp
          | some base => simp [make]
        · simp only [h₁, h₂, h₃, ↓reduceIte]
          exact lookupName_eq_makeAll _ hp hc ⟨h₁, h₂, h₃⟩

/-- Only a written path leads to a path from the root without a step being taken. -/
theorem canonical_not_mem_movesOf_canonical {segments p : List String} :
    Move.canonical p ∉ scopes.movesOf (.canonical segments) := by
  cases he : scopes.enclosing? segments with
  | none => simp [movesOf, he]
  | some found =>
    obtain ⟨m, scope, name, rest⟩ := found
    cases hb : scope.get? name with
    | some binding => cases binding <;> simp [movesOf, he, hb]
    | none =>
      cases hg : scope.globs.isEmpty with
      | true => simp [movesOf, he, hb, hg]
      | false => simp [movesOf, he, hb, hg, globMoves]

/-- A state whose visits are not remembered leads to no other state. -/
theorem eq_find_of_mem_movesOf {state : LookupState} (h : state.isRemembered = false)
    {move : Move} (hm : move ∈ scopes.movesOf state) : ∃ p, move = .find p := by
  cases state with
  | canonical segments => simp [LookupState.isRemembered] at h
  | written m path lookup =>
    cases hp : path.segments with
    | nil => simp [movesOf, hp] at hm
    | cons first rest =>
      have hc : path.leadingColon = true := by simpa [LookupState.isRemembered, hp] using h
      exact ⟨_, by simpa [movesOf, hp, hc] using hm⟩

/-- What a move does is what its state does: if the search goes in, or if there is nothing to
remember, the moves of the state are made. -/
theorem make_of_arrival {left' : Nat} {move : Move} {state : LookupState}
    (h : move.arrival? left = some (state, left')) (s : Search) :
    scopes.make rule left move s =
      if state.isRemembered then
        if rule s state left' then
          scopes.makeAll rule left' (scopes.movesOf state) (s.enter state left')
        else s
      else scopes.makeAll rule left' (scopes.movesOf state) s := by
  cases move with
  | find p => simp [Move.arrival?] at h
  | canonical segments =>
    obtain ⟨rfl, rfl⟩ : .canonical segments = state ∧ left = left' := by
      simpa [Move.arrival?] using h
    exact canonicalize_eq_makeAll segments s
  | follow m path lookup =>
    cases left with
    | zero => simp [Move.arrival?] at h
    | succ left =>
      obtain ⟨rfl, rfl⟩ : .written m path lookup = state ∧ left = left' := by
        simpa [Move.arrival?] using h
      exact follow_succ_eq_makeAll m path lookup s

/-- What holds of the moves that visit nothing, and passes from the moves of a state to those that
lead there, holds of every move. -/
theorem visit_induction (scopes : Scopes) {Q : Nat → Move → Prop}
    (find : ∀ left segments, Q left (.find segments))
    (cut : ∀ m path lookup, Q 0 (.follow m path lookup))
    (visit : ∀ left move state left', move.arrival? left = some (state, left') →
      (∀ next ∈ scopes.movesOf state, Q left' next) → Q left move)
    (left : Nat) (move : Move) : Q left move := by
  have canonical : ∀ left, (∀ m path lookup, Q left (.follow m path lookup)) →
      ∀ segments, Q left (.canonical segments) := by
    intro left follows segments
    refine visit left _ (.canonical segments) left rfl fun next hm => ?_
    cases next with
    | find p => exact find left p
    | canonical p => exact absurd hm canonical_not_mem_movesOf_canonical
    | follow m path lookup => exact follows m path lookup
  have follows : ∀ left m path lookup, Q left (.follow m path lookup) := by
    intro left
    induction left with
    | zero => exact cut
    | succ left ih =>
      intro m path lookup
      refine visit _ _ (.written m path lookup) left rfl fun next _ => ?_
      cases next with
      | find p => exact find left p
      | canonical p => exact canonical left ih p
      | follow m path lookup => exact ih m path lookup
  cases move with
  | find p => exact find left p
  | canonical p => exact canonical left (follows left) p
  | follow m path lookup => exact follows left m path lookup

end Scopes

/-- The moves are made one after another, each as the relation says. -/
inductive Chained (R : Move → Search → Search → Prop) : List Move → Search → Search → Prop
  | nil (s : Search) : Chained R [] s s
  | cons {move : Move} {rest : List Move} {s s₁ s₂ : Search} :
      R move s s₁ → Chained R rest s₁ s₂ → Chained R (move :: rest) s s₂

namespace Scopes

variable {scopes : Scopes} {rule : EntryRule} {left : Nat}

theorem chained_makeAll {R : Move → Search → Search → Prop} {moves : List Move}
    (h : ∀ move ∈ moves, ∀ s, R move s (scopes.make rule left move s)) (s : Search) :
    Chained R moves s (scopes.makeAll rule left moves s) := by
  induction moves generalizing s with
  | nil => exact .nil s
  | cons move rest ih =>
    exact .cons (h move (by simp) s) (ih (fun other hm => h other (by simp [hm])) _)

/-- A relation between a search before a move and after it holds of every move if it holds where
nothing is visited, and passes from the moves of a visited state to the move that leads there. -/
theorem make_induction {R : Nat → Move → Search → Search → Prop}
    (find : ∀ left segments s, R left (.find segments) s (s.find segments))
    (cut : ∀ m path lookup s, R 0 (.follow m path lookup) s s)
    (skip : ∀ left move state left' s, move.arrival? left = some (state, left') →
      state.isRemembered = true → rule s state left' = false → R left move s s)
    (enter : ∀ left move state left' s s', move.arrival? left = some (state, left') →
      state.isRemembered = true → rule s state left' = true →
      Chained (R left') (scopes.movesOf state) (s.enter state left') s' → R left move s s')
    (pass : ∀ left move state left' s s', move.arrival? left = some (state, left') →
      state.isRemembered = false → Chained (R left') (scopes.movesOf state) s s' →
      R left move s s')
    (left : Nat) (move : Move) (s : Search) : R left move s (scopes.make rule left move s) := by
  revert s
  refine scopes.visit_induction
    (Q := fun left move => ∀ s, R left move s (scopes.make rule left move s)) find cut ?_ left move
  intro left move state left' ha moves s
  rw [make_of_arrival ha]
  cases hs : state.isRemembered with
  | false => exact pass _ _ _ _ _ _ ha hs (chained_makeAll moves s)
  | true =>
    cases hr : rule s state left' with
    | false => exact skip _ _ _ _ _ ha hs hr
    | true => exact enter _ _ _ _ _ _ ha hs hr (chained_makeAll moves _)

/-- The path can be found from the state with at most `left` imports or globs followed. -/
inductive Reaches (scopes : Scopes) : Nat → LookupState → List String → Prop
  | find {left : Nat} {state : LookupState} {found : List String} :
      .find found ∈ scopes.movesOf state → Reaches scopes left state found
  | visit {left left' : Nat} {state next : LookupState} {move : Move} {found : List String} :
      move ∈ scopes.movesOf state → move.arrival? left = some (next, left') →
      Reaches scopes left' next found → Reaches scopes left state found

def Leads (scopes : Scopes) (left : Nat) (move : Move) (found : List String) : Prop :=
  move = .find found ∨
    ∃ state left', move.arrival? left = some (state, left') ∧ scopes.Reaches left' state found

theorem reaches_iff_leads {state : LookupState} {found : List String} :
    scopes.Reaches left state found ↔
      ∃ move ∈ scopes.movesOf state, scopes.Leads left move found := by
  constructor
  · intro h
    cases h with
    | find hm => exact ⟨_, hm, .inl rfl⟩
    | visit hm ha hr => exact ⟨_, hm, .inr ⟨_, _, ha, hr⟩⟩
  · rintro ⟨move, hm, rfl | ⟨next, left', ha, hr⟩⟩
    · exact .find hm
    · exact .visit hm ha hr

end Scopes

end RowFactory
