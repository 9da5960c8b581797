import RowFactory.Proofs.Scan.Moves

namespace RowFactory

/-- In a list of pairs, dropping one key leaves what the others are paired with. -/
theorem lookup_filter_ne {α β : Type} [BEq α] [LawfulBEq α] {key other : α} (h : other ≠ key)
    (pairs : List (α × β)) : (pairs.filter (·.1 != key)).lookup other = pairs.lookup other := by
  induction pairs with
  | nil => rfl
  | cons pair rest ih =>
    obtain ⟨k, v⟩ := pair
    by_cases hk : k = key
    · subst hk
      have hb : (other == k) = false := by simp [h]
      simp only [List.filter_cons, bne_self_eq_false, Bool.false_eq_true, ↓reduceIte,
        List.lookup_cons, hb, ih]
    · simp [hk, List.lookup_cons, ih]

namespace Search

@[simp] theorem mem_found_find {s : Search} {p q : List String} :
    q ∈ (s.find p).found ↔ q ∈ s.found ∨ q = p := by
  unfold find
  by_cases h : p ∈ s.found
  · simp only [List.contains_eq_mem, h, decide_true, ↓reduceIte]
    exact ⟨.inl, fun hq => hq.elim id fun heq => heq ▸ h⟩
  · simp [h]

@[simp] theorem seen_find (s : Search) (p : List String) : (s.find p).seen = s.seen := by
  unfold find
  split <;> rfl

theorem nodup_find {s : Search} (h : s.found.Nodup) (p : List String) :
    (s.find p).found.Nodup := by
  unfold find
  split
  · exact h
  next hp =>
    have hn : p ∉ s.found := by simpa using hp
    refine List.nodup_append.mpr ⟨h, by simp, fun q hq r hr => ?_⟩
    obtain rfl : r = p := by simpa using hr
    exact fun heq => hn (heq ▸ hq)

@[simp] theorem found_enter (s : Search) (state : LookupState) (left : Nat) :
    (s.enter state left).found = s.found := rfl

theorem lookup_seen_enter (s : Search) (state other : LookupState) (left : Nat) :
    (s.enter state left).seen.lookup other =
      if other = state then some left else s.seen.lookup other := by
  unfold enter
  by_cases h : other = state
  · simp [h]
  · have hb : (other == state) = false := by simp [h]
    simp [List.lookup_cons, hb, h, lookup_filter_ne h]

/-- The state was entered with at least as many steps left. -/
def Knows (s : Search) (state : LookupState) (left : Nat) : Prop :=
  ∃ before, s.seen.lookup state = some before ∧ left ≤ before

theorem Knows.mono {s : Search} {state : LookupState} {left left' : Nat}
    (h : s.Knows state left) (hle : left' ≤ left) : s.Knows state left' := by
  obtain ⟨before, hb, hl⟩ := h
  exact ⟨before, hb, by omega⟩

theorem knows_of_not_isNew {s : Search} {state : LookupState} {left : Nat}
    (h : s.isNew state left = false) : s.Knows state left := by
  unfold isNew at h
  split at h
  next before hb => exact ⟨before, hb, by simpa using h⟩
  next => simp at h

theorem knows_enter (s : Search) (state : LookupState) (left : Nat) :
    (s.enter state left).Knows state left :=
  ⟨left, by simp [lookup_seen_enter], Nat.le_refl left⟩

/-- Nothing found and nothing known is lost. -/
structure Grows (s s' : Search) : Prop where
  found : ∀ p ∈ s.found, p ∈ s'.found
  knows : ∀ state left, s.Knows state left → s'.Knows state left

theorem Grows.refl (s : Search) : Grows s s := ⟨fun _ h => h, fun _ _ h => h⟩

theorem Grows.trans {s s' s'' : Search} (h : Grows s s') (h' : Grows s' s'') : Grows s s'' :=
  ⟨fun p hp => h'.found p (h.found p hp), fun state left hk => h'.knows _ _ (h.knows state left hk)⟩

theorem grows_find (s : Search) (p : List String) : Grows s (s.find p) := by
  refine ⟨fun q hq => mem_found_find.mpr (.inl hq), fun state left hk => ?_⟩
  simpa [Knows] using hk

theorem grows_enter {s : Search} {state : LookupState} {left : Nat}
    (h : s.isNew state left = true) : Grows s (s.enter state left) := by
  refine ⟨fun p hp => hp, ?_⟩
  rintro other left' ⟨before, hb, hl⟩
  by_cases ho : other = state
  · subst ho
    have hlt : before < left := by simpa [isNew, hb] using h
    exact (knows_enter s other left).mono (by omega)
  · exact ⟨before, by simp [lookup_seen_enter, ho, hb], hl⟩

end Search

theorem Chained.of_trans {R : Move → Search → Search → Prop} {T : Search → Search → Prop}
    (refl : ∀ s, T s s) (trans : ∀ s s' s'', T s s' → T s' s'' → T s s'')
    (step : ∀ move s s', R move s s' → T s s') {moves : List Move} {s s' : Search}
    (h : Chained R moves s s') : T s s' := by
  induction h with
  | nil s => exact refl s
  | cons hm _ ih => exact trans _ _ _ (step _ _ _ hm) ih

namespace Scopes

open RowFactory.Search

variable {scopes : Scopes} {rule : EntryRule}

theorem nodup_make (left : Nat) (move : Move) (s : Search) :
    s.found.Nodup → (scopes.make rule left move s).found.Nodup := by
  have chained : ∀ {moves : List Move} {s s' : Search},
      Chained (fun _ s s' => s.found.Nodup → s'.found.Nodup) moves s s' →
      s.found.Nodup → s'.found.Nodup := by
    intro moves s s' h
    exact h.of_trans (T := fun s s' => s.found.Nodup → s'.found.Nodup) (fun _ hn => hn)
      (fun _ _ _ h h' hn => h' (h hn)) (fun _ _ _ h => h)
  refine make_induction (R := fun _ _ s s' => s.found.Nodup → s'.found.Nodup)
    ?find ?cut ?skip ?enter ?pass left move s
  case find => exact fun _ p s h => nodup_find h p
  case cut => exact fun _ _ _ _ h => h
  case skip => exact fun _ _ _ _ _ _ _ _ h => h
  case enter => exact fun _ _ _ _ s s' _ _ _ hc h => chained hc h
  case pass => exact fun _ _ _ _ s s' _ _ hc h => chained hc h

/-- The paths that a move adds are the ones that it leads to. -/
def AddsOnly (scopes : Scopes) (left : Nat) (move : Move) (s s' : Search) : Prop :=
  ∀ p ∈ s'.found, p ∈ s.found ∨ scopes.Leads left move p

theorem reaches_of_chained {left : Nat} {state : LookupState} {moves : List Move}
    {s s' : Search} (hsub : ∀ move ∈ moves, move ∈ scopes.movesOf state)
    (h : Chained (scopes.AddsOnly left) moves s s') :
    ∀ p ∈ s'.found, p ∈ s.found ∨ scopes.Reaches left state p := by
  induction h with
  | nil s => exact fun p hp => .inl hp
  | @cons move rest s s₁ s₂ hm _ ih =>
    intro p hp
    rcases ih (fun other ho => hsub other (by simp [ho])) p hp with hp | hr
    · refine (hm p hp).imp id fun hl => ?_
      exact reaches_iff_leads.mpr ⟨move, hsub move (by simp), hl⟩
    · exact .inr hr

/-- Under any rule nothing is found that cannot be reached. -/
theorem addsOnly_make (left : Nat) (move : Move) (s : Search) :
    scopes.AddsOnly left move s (scopes.make rule left move s) := by
  refine make_induction (R := scopes.AddsOnly) ?find ?cut ?skip ?enter ?pass left move s
  case find =>
    intro left segments s p hp
    rcases mem_found_find.mp hp with hp | rfl
    · exact .inl hp
    · exact .inr (.inl rfl)
  case cut => exact fun _ _ _ _ p hp => .inl hp
  case skip => exact fun _ _ _ _ _ _ _ _ p hp => .inl hp
  case enter =>
    intro left move state left' s s' ha _ _ hc p hp
    exact (reaches_of_chained (fun _ => id) hc p hp).imp id fun hr => .inr ⟨state, left', ha, hr⟩
  case pass =>
    intro left move state left' s s' ha _ hc p hp
    exact (reaches_of_chained (fun _ => id) hc p hp).imp id fun hr => .inr ⟨state, left', ha, hr⟩

/-- A move adds all paths that it leads to. -/
def AddsAll (scopes : Scopes) (left : Nat) (move : Move) (s s' : Search) : Prop :=
  (∀ p ∈ s.found, p ∈ s'.found) ∧ ∀ p, scopes.Leads left move p → p ∈ s'.found

theorem addsAll_of_chained {left : Nat} {moves : List Move} {s s' : Search}
    (h : Chained (scopes.AddsAll left) moves s s') :
    (∀ p ∈ s.found, p ∈ s'.found) ∧
      ∀ move ∈ moves, ∀ p, scopes.Leads left move p → p ∈ s'.found := by
  induction h with
  | nil s => exact ⟨fun p hp => hp, by simp⟩
  | @cons move rest s s₁ s₂ hm _ ih =>
    refine ⟨fun p hp => ih.1 p (hm.1 p hp), ?_⟩
    intro other ho p hl
    rcases List.mem_cons.mp ho with rfl | ho
    · exact ih.1 p (hm.2 p hl)
    · exact ih.2 other ho p hl

theorem addsAll_of_arrival {left left' : Nat} {move : Move} {state : LookupState}
    {s s' : Search} (ha : move.arrival? left = some (state, left'))
    (h : Chained (scopes.AddsAll left') (scopes.movesOf state) s s') :
    scopes.AddsAll left move s s' := by
  obtain ⟨hkeep, hall⟩ := addsAll_of_chained h
  refine ⟨hkeep, ?_⟩
  rintro p (rfl | ⟨next, n, hn, hr⟩)
  · simp [Move.arrival?] at ha
  · obtain ⟨rfl, rfl⟩ : state = next ∧ left' = n := by simpa [ha] using hn
    obtain ⟨step, hs, hl⟩ := reaches_iff_leads.mp hr
    exact hall step hs p hl

/-- Where every state is entered, everything that can be reached is found. -/
theorem addsAll_make_always (left : Nat) (move : Move) (s : Search) :
    scopes.AddsAll left move s (scopes.make .always left move s) := by
  refine make_induction (R := scopes.AddsAll) ?find ?cut ?skip ?enter ?pass left move s
  case find =>
    intro left segments s
    refine ⟨fun p hp => by simp [hp], ?_⟩
    rintro p (heq | ⟨state, left', ha, _⟩)
    · obtain rfl : segments = p := by simpa using heq
      simp
    · simp [Move.arrival?] at ha
  case cut =>
    intro m path lookup s
    refine ⟨fun p hp => hp, ?_⟩
    rintro p (heq | ⟨state, left', ha, _⟩)
    · simp at heq
    · simp [Move.arrival?] at ha
  case skip => exact fun _ _ _ _ _ _ _ hr => absurd hr (by simp [EntryRule.always])
  case enter =>
    intro left move state left' s s' ha _ _ hc
    exact addsAll_of_arrival (s := s.enter state left') ha hc
  case pass => exact fun _ _ _ _ s s' ha _ hc => addsAll_of_arrival ha hc

/-- What a move is after has been found, or the state that it leads to is known. -/
structure Covers (scopes : Scopes) (left : Nat) (move : Move) (s : Search) : Prop where
  found : ∀ p, move = .find p → p ∈ s.found
  known : ∀ state left', move.arrival? left = some (state, left') →
    state.isRemembered = true → s.Knows state left'
  passed : ∀ state left', move.arrival? left = some (state, left') →
    state.isRemembered = false → ∀ p, .find p ∈ scopes.movesOf state → p ∈ s.found

def Settled (scopes : Scopes) (s : Search) (state : LookupState) (left : Nat) : Prop :=
  ∀ move ∈ scopes.movesOf state, scopes.Covers left move s

theorem Covers.grows {left : Nat} {move : Move} {s s' : Search} (h : scopes.Covers left move s)
    (hg : Grows s s') : scopes.Covers left move s' :=
  ⟨fun p hp => hg.found p (h.found p hp),
    fun state left' ha hs => hg.knows state left' (h.known state left' ha hs),
    fun state left' ha hs p hp => hg.found p (h.passed state left' ha hs p hp)⟩

theorem Covers.mono {left left' : Nat} {move : Move} {s : Search}
    (h : scopes.Covers left move s) (hle : left' ≤ left) : scopes.Covers left' move s := by
  have arrives : ∀ state n, move.arrival? left' = some (state, n) →
      ∃ n', move.arrival? left = some (state, n') ∧ n ≤ n' := by
    intro state n hn
    cases move with
    | find p => simp [Move.arrival?] at hn
    | canonical p =>
      obtain ⟨rfl, rfl⟩ : .canonical p = state ∧ left' = n := by simpa [Move.arrival?] using hn
      exact ⟨left, rfl, hle⟩
    | follow m path lookup =>
      cases left' with
      | zero => simp [Move.arrival?] at hn
      | succ k =>
        obtain ⟨rfl, rfl⟩ : .written m path lookup = state ∧ k = n := by
          simpa [Move.arrival?] using hn
        obtain ⟨j, rfl⟩ : ∃ j, left = j + 1 := ⟨left - 1, by omega⟩
        exact ⟨j, rfl, by omega⟩
  refine ⟨h.found, fun state n hn hs => ?_, fun state n hn hs => ?_⟩
  · obtain ⟨n', hn', hle'⟩ := arrives state n hn
    exact (h.known state n' hn' hs).mono hle'
  · obtain ⟨n', hn', _⟩ := arrives state n hn
    exact h.passed state n' hn' hs

/-- A remembering search keeps what it has, covers each move that it makes, and leaves no state
unsettled of those that it enters meanwhile. The states on the way to the move are settled later,
when their own moves are over. -/
structure Completes (scopes : Scopes) (left : Nat) (move : Move) (s s' : Search) : Prop where
  grows : Grows s s'
  covers : scopes.Covers left move s'
  settled : ∀ state n, s'.seen.lookup state = some n →
    s.seen.lookup state = some n ∨ scopes.Settled s' state n

theorem completes_of_chained {left : Nat} {moves : List Move} {s s' : Search}
    (h : Chained (scopes.Completes left) moves s s') :
    Grows s s' ∧ (∀ move ∈ moves, scopes.Covers left move s') ∧
      ∀ state n, s'.seen.lookup state = some n →
        s.seen.lookup state = some n ∨ scopes.Settled s' state n := by
  induction h with
  | nil s => exact ⟨.refl s, by simp, fun _ _ h => .inl h⟩
  | @cons move rest s s₁ s₂ hm _ ih =>
    obtain ⟨hg, hcov, hset⟩ := ih
    refine ⟨hm.grows.trans hg, ?_, ?_⟩
    · intro other ho
      rcases List.mem_cons.mp ho with rfl | ho
      · exact hm.covers.grows hg
      · exact hcov other ho
    · intro state n hn
      rcases hset state n hn with hn | hs
      · exact (hm.settled state n hn).imp id fun hs step hst => (hs step hst).grows hg
      · exact .inr hs

theorem covers_of_knows {left left' : Nat} {move : Move} {state : LookupState} {s : Search}
    (ha : move.arrival? left = some (state, left')) (hs : state.isRemembered = true)
    (hk : s.Knows state left') : scopes.Covers left move s := by
  refine ⟨?_, fun next n hn _ => ?_, fun next n hn hrem => ?_⟩
  · rintro p rfl
    simp [Move.arrival?] at ha
  · obtain ⟨rfl, rfl⟩ : state = next ∧ left' = n := by simpa [ha] using hn
    exact hk
  · obtain ⟨rfl, rfl⟩ : state = next ∧ left' = n := by simpa [ha] using hn
    simp [hs] at hrem

theorem completes_make (left : Nat) (move : Move) (s : Search) :
    scopes.Completes left move s (scopes.make .remembering left move s) := by
  refine make_induction (R := scopes.Completes) ?find ?cut ?skip ?enter ?pass left move s
  case find =>
    intro left segments s
    refine ⟨grows_find s segments, ⟨?_, by simp [Move.arrival?], by simp [Move.arrival?]⟩, ?_⟩
    · intro p hp
      obtain rfl : segments = p := by simpa using hp
      simp
    · exact fun state n hn => .inl (by simpa using hn)
  case cut =>
    intro m path lookup s
    refine ⟨.refl s, ⟨by simp, ?_, ?_⟩, fun _ _ h => .inl h⟩ <;> simp [Move.arrival?]
  case skip =>
    intro left move state left' s ha hs hr
    exact ⟨.refl s, covers_of_knows ha hs (knows_of_not_isNew hr), fun _ _ h => .inl h⟩
  case enter =>
    intro left move state left' s s' ha hs hr hc
    obtain ⟨hg, hcov, hset⟩ := completes_of_chained hc
    have hk := hg.knows state left' (knows_enter s state left')
    refine ⟨(grows_enter hr).trans hg, covers_of_knows ha hs hk, ?_⟩
    intro other n hn
    rcases hset other n hn with ho | ho
    · rw [lookup_seen_enter] at ho
      split at ho
      next heq =>
        obtain rfl : left' = n := by simpa using ho
        exact .inr (heq ▸ hcov)
      next => exact .inl ho
    · exact .inr ho
  case pass =>
    intro left move state left' s s' ha hs hc
    obtain ⟨hg, hcov, hset⟩ := completes_of_chained hc
    refine ⟨hg, ⟨?_, ?_, ?_⟩, hset⟩
    · rintro p rfl
      simp [Move.arrival?] at ha
    · intro next n hn hrem
      obtain ⟨rfl, rfl⟩ : state = next ∧ left' = n := by simpa [ha] using hn
      simp [hs] at hrem
    · intro next n hn _ p hp
      obtain ⟨rfl, rfl⟩ : state = next ∧ left' = n := by simpa [ha] using hn
      exact (hcov _ hp).found p rfl

/-- Where all that was entered is settled, so is a state that a covered move leads to. -/
theorem settled_of_covers {s : Search} {left left' : Nat} {move : Move} {state : LookupState}
    (hall : ∀ state n, s.seen.lookup state = some n → scopes.Settled s state n)
    (hc : scopes.Covers left move s) (ha : move.arrival? left = some (state, left')) :
    scopes.Settled s state left' := by
  intro step hs
  cases hrem : state.isRemembered with
  | true =>
    obtain ⟨n, hn, hle⟩ := hc.known state left' ha hrem
    exact (hall state n hn step hs).mono hle
  | false =>
    obtain ⟨q, rfl⟩ := eq_find_of_mem_movesOf hrem hs
    refine ⟨?_, by simp [Move.arrival?], by simp [Move.arrival?]⟩
    intro p heq
    obtain rfl : q = p := by simpa using heq
    exact hc.passed state left' ha hrem q hs

theorem mem_found_of_reaches {s : Search} {left : Nat} {state : LookupState} {p : List String}
    (hall : ∀ state n, s.seen.lookup state = some n → scopes.Settled s state n)
    (hr : scopes.Reaches left state p) (hset : scopes.Settled s state left) : p ∈ s.found := by
  induction hr with
  | find hm => exact (hset _ hm).found _ rfl
  | visit hm ha _ ih => exact ih (settled_of_covers hall (hset _ hm) ha)

theorem reaches_of_mem_searchBy {m : ModulePath} {path : WrittenPath} {p : List String}
    (hp : p ∈ (scopes.searchBy rule m path).found) :
    scopes.Reaches maxIndirections (.written m path .any) p := by
  have honly : scopes.AddsOnly (maxIndirections + 1) (.follow m path .any) .empty
      (scopes.searchBy rule m path) := addsOnly_make _ _ _
  rcases honly p hp with hp | heq | ⟨state, left, ha, hr⟩
  · simp [Search.empty] at hp
  · simp at heq
  · obtain ⟨rfl, rfl⟩ : .written m path .any = state ∧ maxIndirections = left := by
      simpa [Move.arrival?] using ha
    exact hr

theorem mem_resolve_iff_reaches (scopes : Scopes) (m : ModulePath) (path : WrittenPath)
    (p : List String) :
    p ∈ scopes.resolve m path ↔ scopes.Reaches maxIndirections (.written m path .any) p := by
  refine ⟨reaches_of_mem_searchBy, fun hr => ?_⟩
  have hdone : scopes.Completes (maxIndirections + 1) (.follow m path .any) .empty
      (scopes.search m path) := completes_make _ _ _
  have hall : ∀ state n, (scopes.search m path).seen.lookup state = some n →
      scopes.Settled (scopes.search m path) state n := by
    intro state n hn
    exact (hdone.settled state n hn).resolve_left (by simp [Search.empty])
  exact mem_found_of_reaches hall hr (settled_of_covers hall hdone.covers rfl)

theorem mem_searchBy_always_iff_reaches (scopes : Scopes) (m : ModulePath) (path : WrittenPath)
    (p : List String) :
    p ∈ (scopes.searchBy .always m path).found ↔
      scopes.Reaches maxIndirections (.written m path .any) p := by
  refine ⟨reaches_of_mem_searchBy, fun hr => ?_⟩
  exact (addsAll_make_always (maxIndirections + 1) (.follow m path .any) .empty).2 p
    (.inr ⟨_, _, rfl, hr⟩)

/-- A search that remembers where it was finds exactly what an exhaustive one finds, namely all
that is reached over at most sixteen imports or globs, and lists each path once. -/
theorem resolve_eq_exhaustive (scopes : Scopes) (m : ModulePath) (path : WrittenPath) :
    (∀ p, p ∈ scopes.resolve m path ↔ p ∈ (scopes.searchBy .always m path).found) ∧
      (∀ p, p ∈ scopes.resolve m path ↔ scopes.Reaches 16 (.written m path .any) p) ∧
      (scopes.resolve m path).Nodup := by
  refine ⟨fun p => ?_, mem_resolve_iff_reaches scopes m path, ?_⟩
  · rw [mem_resolve_iff_reaches, mem_searchBy_always_iff_reaches]
  · exact nodup_make (maxIndirections + 1) (.follow m path .any) .empty (by simp [Search.empty])

end Scopes

end RowFactory
