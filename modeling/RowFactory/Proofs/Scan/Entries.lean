import Mathlib.Data.List.Perm.Basic
import Mathlib.Order.Bounds.Basic
import RowFactory.Proofs.Scan.Remembering

namespace RowFactory

/-- States in the order in which they are entered, each with the imports or globs that may still be
followed from there. -/
abbrev EntryLog := List (LookupState × Nat)

namespace Scopes

/-- What is entered by moves made one after another, each in the search that the moves before it
leave behind. -/
def entriesAll (scopes : Scopes) (rule : EntryRule) (left : Nat)
    (entries : Move → Search → EntryLog) : List Move → Search → EntryLog
  | [], _ => []
  | move :: rest, s =>
    entries move s ++ scopes.entriesAll rule left entries rest (scopes.make rule left move s)

/-- What is entered on a visit of a state: the state itself, if the search goes in, and what its
moves enter. -/
def visitEntries (scopes : Scopes) (rule : EntryRule) (left : Nat)
    (entries : Move → Search → EntryLog) (state : LookupState) (s : Search) : EntryLog :=
  let moves := scopes.movesOf state
  if state.isRemembered then
    if rule s state left then
      (state, left) :: scopes.entriesAll rule left entries moves (s.enter state left)
    else []
  else scopes.entriesAll rule left entries moves s

/-- A path from the root leads to no other path from the root, so its moves find or follow. -/
def moveEntries (scopes : Scopes) (rule : EntryRule) (left : Nat)
    (follow : ModulePath → WrittenPath → Lookup → Search → EntryLog) : Move → Search → EntryLog
  | .find _, _ => []
  | .follow m path lookup, s => follow m path lookup s
  | .canonical segments, s =>
    scopes.visitEntries rule left
      (fun | .follow m path lookup => follow m path lookup | _ => fun _ => [])
      (.canonical segments) s

def followEntries (scopes : Scopes) (rule : EntryRule) :
    Nat → ModulePath → WrittenPath → Lookup → Search → EntryLog
  | 0, _, _, _, _ => []
  | left + 1, m, path, lookup, s =>
    scopes.visitEntries rule left (scopes.moveEntries rule left (scopes.followEntries rule left))
      (.written m path lookup) s

/-- What a move enters. -/
def entries (scopes : Scopes) (rule : EntryRule) (left : Nat) : Move → Search → EntryLog :=
  scopes.moveEntries rule left (scopes.followEntries rule left)

section

variable {scopes : Scopes} {rule : EntryRule} {left : Nat}

theorem entriesAll_congr {log log' : Move → Search → EntryLog} {moves : List Move}
    (h : ∀ move ∈ moves, log move = log' move) (s : Search) :
    scopes.entriesAll rule left log moves s = scopes.entriesAll rule left log' moves s := by
  induction moves generalizing s with
  | nil => rfl
  | cons move rest ih =>
    rw [entriesAll, entriesAll, h move (by simp), ih fun other ho => h other (by simp [ho])]

theorem visitEntries_congr {log log' : Move → Search → EntryLog} {state : LookupState}
    (h : ∀ move ∈ scopes.movesOf state, log move = log' move) (s : Search) :
    scopes.visitEntries rule left log state s = scopes.visitEntries rule left log' state s := by
  simp only [visitEntries, entriesAll_congr h]

theorem entries_of_arrival {left' : Nat} {move : Move} {state : LookupState}
    (h : move.arrival? left = some (state, left')) (s : Search) :
    scopes.entries rule left move s =
      scopes.visitEntries rule left' (scopes.entries rule left') state s := by
  cases move with
  | find p => simp [Move.arrival?] at h
  | canonical segments =>
    obtain ⟨rfl, rfl⟩ : .canonical segments = state ∧ left = left' := by
      simpa [Move.arrival?] using h
    simp only [entries, moveEntries]
    refine visitEntries_congr (fun move hm => ?_) s
    cases move with
    | find p => rfl
    | canonical p => exact absurd hm canonical_not_mem_movesOf_canonical
    | follow m path lookup => rfl
  | follow m path lookup =>
    cases left with
    | zero => simp [Move.arrival?] at h
    | succ left =>
      obtain ⟨rfl, rfl⟩ : .written m path lookup = state ∧ left = left' := by
        simpa [Move.arrival?] using h
      rfl

end

end Scopes

namespace Search

def enterAll (s : Search) (log : EntryLog) : Search :=
  log.foldl (fun s entry => s.enter entry.1 entry.2) s

/-- Between the two searches the states of the log are entered, in order, and each is new when its
turn comes. -/
inductive Records : Search → EntryLog → Search → Prop
  | stay {s s' : Search} : s'.seen = s.seen → Records s [] s'
  | enter {s s' : Search} {state : LookupState} {left : Nat} {log : EntryLog} :
      s.isNew state left = true → Records (s.enter state left) log s' →
      Records s ((state, left) :: log) s'

theorem Records.of_seen {s t u : Search} {log : EntryLog} (h : Records s log u)
    (heq : s.seen = t.seen) : Records t log u := by
  induction h generalizing t with
  | stay hs => exact .stay (hs.trans heq)
  | enter hnew _ ih =>
    refine .enter (by simpa only [isNew, heq] using hnew) (ih ?_)
    simp only [Search.enter, heq]

theorem Records.append {s t u : Search} {log rest : EntryLog} (h : Records s log t)
    (hrest : Records t rest u) : Records s (log ++ rest) u := by
  induction h with
  | stay hs => exact hrest.of_seen hs
  | enter hnew _ ih => exact .enter hnew (ih hrest)

/-- The log is all that there is to the table of states. -/
theorem Records.seen_eq {s t : Search} {log : EntryLog} (h : Records s log t) :
    t.seen = (s.enterAll log).seen := by
  induction h with
  | stay hs => exact hs
  | enter _ _ ih => exact ih

theorem Records.lookup_seen {s t : Search} {log : EntryLog} (h : Records s log t)
    {state : LookupState} {left : Nat} (hl : t.seen.lookup state = some left) :
    s.seen.lookup state = some left ∨ (state, left) ∈ log := by
  induction h with
  | stay hs => exact .inl (hs ▸ hl)
  | @enter s t entered n log hnew _ ih =>
    rcases ih hl with hl | hmem
    · rw [lookup_seen_enter] at hl
      split at hl
      next heq =>
        obtain rfl : n = left := by simpa using hl
        exact .inr (by simp [heq])
      next => exact .inl hl
    · exact .inr (by simp [hmem])

/-- Each state is remembered once. -/
theorem Records.nodup_seen {s t : Search} {log : EntryLog} (h : Records s log t)
    (hs : (s.seen.map (·.1)).Nodup) : (t.seen.map (·.1)).Nodup := by
  induction h with
  | stay heq => exact heq ▸ hs
  | @enter s t state left log _ _ ih =>
    refine ih (List.nodup_cons.mpr ⟨?_, hs.sublist (List.filter_sublist.map _)⟩)
    intro hmem
    obtain ⟨entry, he, heq⟩ := List.mem_map.mp hmem
    simp [heq] at he

/-- How many imports or globs may still be followed at each entry of the state. -/
def leftAt (log : EntryLog) (state : LookupState) : List Nat :=
  (log.filter (·.1 = state)).map (·.2)

/-- Every entry of a state leaves more to be followed than what the state was known with before. -/
theorem Records.increasing {s t : Search} {log : EntryLog} (h : Records s log t)
    (state : LookupState) :
    (leftAt log state).Pairwise (· < ·) ∧
      ∀ n, s.Knows state n → ∀ left ∈ leftAt log state, n < left := by
  induction h with
  | stay => exact ⟨.nil, fun _ _ left hl => by simp [leftAt] at hl⟩
  | @enter s t entered left log hnew _ ih =>
    have hgrows := grows_enter hnew
    by_cases heq : entered = state
    · subst heq
      have hcons : leftAt ((entered, left) :: log) entered = left :: leftAt log entered := by
        simp [leftAt]
      have hmore := ih.2 left (knows_enter s entered left)
      rw [hcons]
      refine ⟨List.pairwise_cons.mpr ⟨hmore, ih.1⟩, fun n hn other ho => ?_⟩
      have hlow : n < left := by
        obtain ⟨before, hb, hle⟩ := hn
        have hlt : before < left := by simpa [isNew, hb] using hnew
        omega
      rcases List.mem_cons.mp ho with rfl | ho
      · exact hlow
      · exact Nat.lt_trans hlow (hmore other ho)
    · have hskip : leftAt ((entered, left) :: log) state = leftAt log state := by
        simp [leftAt, heq]
      rw [hskip]
      exact ⟨ih.1, fun n hn => ih.2 n (hgrows.knows state n hn)⟩

end Search

namespace Scopes

variable {scopes : Scopes}

open Search

theorem records_entriesAll {left : Nat} {moves : List Move}
    (h : ∀ move ∈ moves, ∀ s,
      Records s (scopes.entries .remembering left move s) (scopes.make .remembering left move s))
    (s : Search) :
    Records s (scopes.entriesAll .remembering left (scopes.entries .remembering left) moves s)
      (scopes.makeAll .remembering left moves s) := by
  induction moves generalizing s with
  | nil => exact .stay rfl
  | cons move rest ih =>
    exact (h move (by simp) s).append (ih (fun other ho => h other (by simp [ho])) _)

theorem records_entries (left : Nat) (move : Move) (s : Search) :
    Records s (scopes.entries .remembering left move s)
      (scopes.make .remembering left move s) := by
  revert s
  refine scopes.visit_induction (Q := fun left move => ∀ s, Records s _ _) ?_ ?_ ?_ left move
  · exact fun left segments s => .stay (seen_find s segments)
  · exact fun m path lookup s => .stay rfl
  · intro left move state left' ha moves s
    rw [entries_of_arrival ha, make_of_arrival ha, visitEntries]
    cases hs : state.isRemembered with
    | false => exact records_entriesAll moves s
    | true =>
      cases hr : EntryRule.remembering s state left' with
      | false => exact .stay rfl
      | true => exact .enter hr (records_entriesAll moves _)

/-- The state is reached from another one over so many imports or globs; that a path leads to a path
from the root costs nothing. -/
inductive ReachedIn (scopes : Scopes) (start : LookupState) : LookupState → Nat → Prop
  | start : ReachedIn scopes start start 0
  | canonical {state : LookupState} {segments : List String} {depth : Nat} :
      ReachedIn scopes start state depth → .canonical segments ∈ scopes.movesOf state →
      ReachedIn scopes start (.canonical segments) depth
  | follow {state : LookupState} {m : ModulePath} {path : WrittenPath} {lookup : Lookup}
      {depth : Nat} :
      ReachedIn scopes start state depth → .follow m path lookup ∈ scopes.movesOf state →
      ReachedIn scopes start (.written m path lookup) (depth + 1)

/-- Of `limit` imports or globs so many are left that the state is reached over the others. -/
def ReachedWith (scopes : Scopes) (start : LookupState) (limit : Nat) (state : LookupState)
    (left : Nat) : Prop :=
  left ≤ limit ∧ scopes.ReachedIn start state (limit - left)

variable {rule : EntryRule} {start : LookupState} {limit : Nat}

theorem ReachedWith.arrival {state next : LookupState} {left left' : Nat} {move : Move}
    (h : scopes.ReachedWith start limit state left) (hm : move ∈ scopes.movesOf state)
    (ha : move.arrival? left = some (next, left')) :
    scopes.ReachedWith start limit next left' := by
  obtain ⟨hle, hr⟩ := h
  cases move with
  | find p => simp [Move.arrival?] at ha
  | canonical segments =>
    obtain ⟨rfl, rfl⟩ : .canonical segments = next ∧ left = left' := by
      simpa [Move.arrival?] using ha
    exact ⟨hle, hr.canonical hm⟩
  | follow m path lookup =>
    cases left with
    | zero => simp [Move.arrival?] at ha
    | succ left =>
      obtain ⟨rfl, rfl⟩ : .written m path lookup = next ∧ left = left' := by
        simpa [Move.arrival?] using ha
      have hcost : limit - left = limit - (left + 1) + 1 := by omega
      exact ⟨by omega, hcost ▸ hr.follow hm⟩

theorem exists_of_mem_entriesAll {left : Nat} {entries : Move → Search → EntryLog}
    {moves : List Move} {s : Search} {entry : LookupState × Nat}
    (h : entry ∈ scopes.entriesAll rule left entries moves s) :
    ∃ move ∈ moves, ∃ s', entry ∈ entries move s' := by
  induction moves generalizing s with
  | nil => simp [entriesAll] at h
  | cons move rest ih =>
    rcases List.mem_append.mp h with h | h
    · exact ⟨move, by simp, s, h⟩
    · obtain ⟨other, ho, hs⟩ := ih h
      exact ⟨other, by simp [ho], hs⟩

/-- Only what is reached is entered, under any rule. -/
theorem reached_of_mem_entries (left : Nat) (move : Move)
    (h : ∀ state left', move.arrival? left = some (state, left') →
      scopes.ReachedWith start limit state left') (s : Search) :
    ∀ entry ∈ scopes.entries rule left move s,
      entry.1.isRemembered ∧ scopes.ReachedWith start limit entry.1 entry.2 := by
  revert h s
  refine scopes.visit_induction (Q := fun left move =>
    (∀ state left', move.arrival? left = some (state, left') →
      scopes.ReachedWith start limit state left') → ∀ s, ∀ entry ∈ scopes.entries rule left move s,
      entry.1.isRemembered ∧ scopes.ReachedWith start limit entry.1 entry.2) ?_ ?_ ?_ left move
  · exact fun _ _ _ _ entry he => absurd he List.not_mem_nil
  · exact fun _ _ _ _ _ entry he => absurd he List.not_mem_nil
  · intro left move state left' ha moves h s entry he
    have hstate := h state left' ha
    have below : ∀ {s : Search},
        entry ∈ scopes.entriesAll rule left' (scopes.entries rule left') (scopes.movesOf state) s →
        entry.1.isRemembered ∧ scopes.ReachedWith start limit entry.1 entry.2 := by
      intro s he
      obtain ⟨next, hm, s', he⟩ := exists_of_mem_entriesAll he
      exact moves next hm (fun _ _ ha' => hstate.arrival hm ha') s' entry he
    rw [entries_of_arrival ha, visitEntries] at he
    split at he
    next hs =>
      split at he
      next =>
        rcases List.mem_cons.mp he with rfl | he
        · exact ⟨hs, hstate⟩
        · exact below he
      next => exact absurd he List.not_mem_nil
    next => exact below he

/-- A search in which at most so many imports or globs are followed in a row. -/
def searchWithin (scopes : Scopes) (limit : Nat) (m : ModulePath) (path : WrittenPath) : Search :=
  scopes.make .remembering (limit + 1) (.follow m path .any) .empty

/-- The states that the search enters. -/
def searchEntries (scopes : Scopes) (limit : Nat) (m : ModulePath) (path : WrittenPath) :
    EntryLog :=
  scopes.entries .remembering (limit + 1) (.follow m path .any) .empty

section

variable {m : ModulePath} {path : WrittenPath}

theorem records_search : Records .empty (scopes.searchEntries limit m path)
    (scopes.searchWithin limit m path) :=
  records_entries _ _ _

theorem reached_of_mem_searchEntries {entry : LookupState × Nat}
    (h : entry ∈ scopes.searchEntries limit m path) :
    entry.1.isRemembered ∧
      scopes.ReachedWith (.written m path .any) limit entry.1 entry.2 := by
  refine reached_of_mem_entries _ _ (fun state left ha => ?_) _ entry h
  obtain ⟨rfl, rfl⟩ : .written m path .any = state ∧ limit = left := by
    simpa [Move.arrival?] using ha
  exact ⟨Nat.le_refl limit, (Nat.sub_self limit).symm ▸ .start⟩

theorem reached_of_lookup_seen {state : LookupState} {left : Nat}
    (h : (scopes.searchWithin limit m path).seen.lookup state = some left) :
    state.isRemembered ∧ scopes.ReachedWith (.written m path .any) limit state left := by
  rcases records_search.lookup_seen h with h | h
  · simp [Search.empty] at h
  · exact reached_of_mem_searchEntries h

/-- What is reached is known at the end with at least as much left to be followed. -/
theorem knows_of_reachedIn {state : LookupState} {depth : Nat}
    (h : scopes.ReachedIn (.written m path .any) state depth) (hd : depth ≤ limit)
    (hs : state.isRemembered) : (scopes.searchWithin limit m path).Knows state (limit - depth) := by
  have hdone : scopes.Completes (limit + 1) (.follow m path .any) .empty
      (scopes.searchWithin limit m path) := completes_make _ _ _
  have hall : ∀ state n, (scopes.searchWithin limit m path).seen.lookup state = some n →
      scopes.Settled (scopes.searchWithin limit m path) state n := by
    intro state n hn
    exact (hdone.settled state n hn).resolve_left (by simp [Search.empty])
  suffices hmove : ∃ move left, move.arrival? left = some (state, limit - depth) ∧
      scopes.Covers left move (scopes.searchWithin limit m path) by
    obtain ⟨move, left, ha, hc⟩ := hmove
    exact hc.known state _ ha hs
  clear hs
  induction h with
  | start => exact ⟨_, _, rfl, hdone.covers⟩
  | canonical _ hm ih =>
    obtain ⟨move, left, ha, hc⟩ := ih hd
    exact ⟨_, _, rfl, settled_of_covers hall hc ha _ hm⟩
  | @follow state m path lookup depth _ hm ih =>
    obtain ⟨move, left, ha, hc⟩ := ih (by omega)
    refine ⟨_, _, ?_, settled_of_covers hall hc ha _ hm⟩
    have hcost : limit - depth = limit - (depth + 1) + 1 := by omega
    rw [hcost]
    rfl

/-- A state is remembered with the most that can be left when it is reached. -/
theorem lookup_seen_iff {state : LookupState} {left : Nat} :
    (scopes.searchWithin limit m path).seen.lookup state = some left ↔
      left ≤ limit ∧ state.isRemembered ∧
        IsLeast {depth | scopes.ReachedIn (.written m path .any) state depth} (limit - left) := by
  have least {n : Nat} (h : (scopes.searchWithin limit m path).seen.lookup state = some n) :
      IsLeast {depth | scopes.ReachedIn (.written m path .any) state depth} (limit - n) := by
    obtain ⟨hs, hle, hr⟩ := reached_of_lookup_seen h
    refine ⟨hr, fun depth hd => ?_⟩
    by_cases hdepth : depth ≤ limit
    · obtain ⟨before, hb, hleft⟩ := knows_of_reachedIn hd hdepth hs
      obtain rfl : n = before := Option.some.inj (h.symm.trans hb)
      omega
    · omega
  constructor
  · intro h
    obtain ⟨hs, hle, -⟩ := reached_of_lookup_seen h
    exact ⟨hle, hs, least h⟩
  · rintro ⟨hle, hs, hleast⟩
    obtain ⟨n, hn, -⟩ := knows_of_reachedIn hleast.1 (Nat.sub_le limit left) hs
    have heq := (least hn).unique hleast
    have hnle := (reached_of_lookup_seen hn).2.1
    obtain rfl : n = left := by omega
    exact hn

theorem nodup_seen : ((scopes.searchWithin limit m path).seen.map (·.1)).Nodup :=
  records_search.nodup_seen (by simp [Search.empty])

end

/-- How many imports or globs have been followed at each entry of the state, in order. -/
def entryDepths (scopes : Scopes) (limit : Nat) (m : ModulePath) (path : WrittenPath)
    (state : LookupState) : List Nat :=
  (leftAt (scopes.searchEntries limit m path) state).map (limit - ·)

theorem entryDepths_le (scopes : Scopes) (limit : Nat) (m : ModulePath) (path : WrittenPath)
    (state : LookupState) :
    ∀ depth ∈ scopes.entryDepths limit m path state, depth ≤ limit := by
  intro depth hd
  obtain ⟨left, -, rfl⟩ := List.mem_map.mp hd
  exact Nat.sub_le limit left

theorem entryDepths_decreasing (scopes : Scopes) (limit : Nat) (m : ModulePath)
    (path : WrittenPath) (state : LookupState) :
    (scopes.entryDepths limit m path state).Pairwise (· > ·) := by
  have hleft : (leftAt (scopes.searchEntries limit m path) state).Pairwise (· < ·) :=
    (records_search.increasing state).1
  refine List.pairwise_map.mpr (hleft.imp_of_mem fun _ hb hlt => ?_)
  obtain ⟨entry, he, rfl⟩ := List.mem_map.mp hb
  have hle := (reached_of_mem_searchEntries (List.mem_filter.mp he).1).2.1
  omega

/-- Decreasing numbers up to `n` are at most `n + 1` many. -/
theorem length_le_of_decreasing {depths : List Nat} {n : Nat} (h : depths.Pairwise (· > ·))
    (hle : ∀ depth ∈ depths, depth ≤ n) : depths.length ≤ n + 1 := by
  have hnodup : depths.Nodup := h.imp fun hlt => Nat.ne_of_gt hlt
  have hsub : depths ⊆ List.range (n + 1) := fun depth hd =>
    List.mem_range.mpr (Nat.lt_succ_of_le (hle depth hd))
  exact (List.subperm_of_subset hnodup hsub).length_le.trans_eq List.length_range

/-- A state is entered again only on a shorter way, and so at most seventeen times in all. What has
been entered is all that the table of a search holds at its end: each state that is reached over at
most sixteen imports or globs once, with those that are left on the shortest way. -/
theorem entered_again_on_shorter_ways (scopes : Scopes) (m : ModulePath) (path : WrittenPath) :
    (∀ state,
      (scopes.entryDepths 16 m path state).Pairwise (· > ·) ∧
      (∀ depth ∈ scopes.entryDepths 16 m path state, depth ≤ 16) ∧
      (scopes.entryDepths 16 m path state).length ≤ 17) ∧
    (∀ entry ∈ scopes.searchEntries 16 m path,
      entry.2 ≤ 16 ∧ scopes.ReachedIn (.written m path .any) entry.1 (16 - entry.2)) ∧
    (scopes.search m path).seen = (Search.empty.enterAll (scopes.searchEntries 16 m path)).seen ∧
    ((scopes.search m path).seen.map (·.1)).Nodup ∧
    ∀ state left, (scopes.search m path).seen.lookup state = some left ↔
      left ≤ 16 ∧ state.isRemembered ∧
        IsLeast {depth | scopes.ReachedIn (.written m path .any) state depth} (16 - left) := by
  refine ⟨fun state => ?_, fun _ he => (reached_of_mem_searchEntries he).2,
    records_search.seen_eq, nodup_seen, fun _ _ => lookup_seen_iff⟩
  have hdecreasing := scopes.entryDepths_decreasing 16 m path state
  have hle := scopes.entryDepths_le 16 m path state
  exact ⟨hdecreasing, hle, length_le_of_decreasing hdecreasing hle⟩

end Scopes

end RowFactory
