import RowFactory.Proofs.Source.Gives
import RowFactory.Proofs.Source.Separated

namespace RowFactory

/-- What is written for an item is smaller than what the list is smaller than. -/
theorem Token.sizeAll_lt_of_mem {α : Type} {separator : String} {trailing : Bool} {as : List α}
    {form : α → List Token} {n : Nat} {a : α}
    (h : Token.sizeAll (joinTokens separator trailing (as.map form)) < n) (ha : a ∈ as) :
    Token.sizeAll (form a) < n :=
  Nat.lt_of_le_of_lt (Token.sizeAll_le_joinTokens separator trailing (List.mem_map_of_mem ha)) h

theorem Token.sizeAll_le_flatMap {α : Type} {as : List α} {a : α} (h : a ∈ as)
    (form : α → List Token) : Token.sizeAll (form a) ≤ Token.sizeAll (as.flatMap form) := by
  obtain ⟨before, after, rfl⟩ := List.append_of_mem h
  simp only [List.flatMap_append, List.flatMap_cons, Token.sizeAll_append]
  omega

/-- Where no separator trails, there is one in front of each item but the first. -/
theorem joinTokens_false (separator : String) (ts : List Token) (items : List (List Token)) :
    joinTokens separator false (ts :: items) =
      ts ++ items.flatMap (Token.operator separator ++ ·) := by
  induction items generalizing ts with
  | nil => simp [joinTokens]
  | cons us items ih => simp [joinTokens, ih us]

namespace Parser

variable {α β : Type} {i o rest : List Token} {p q : Parser α} {as : List α}
  {form : α → List Token} {ordered : α → α} {Follow : List Token → List Token → Prop}

/-- What is read takes tokens, so there are some. -/
theorem Reads.ne_nil {Q : α → Prop} {ts : List Token} (h : p.Reads (ts ++ rest) rest Q)
    (htakes : p.Takes) : ts ≠ [] := by
  rintro rfl
  obtain ⟨a, c', hrun, -, hahead, -⟩ := h (.start rest) rfl
  have hless := htakes _ a c' hrun
  rw [hahead] at hless
  exact Nat.lt_irrefl _ hless

/-- A parser that reads something does not fail. -/
theorem Reads.not_fails {Q : α → Prop} (h : p.Reads i o Q) : ¬ p.Fails i := by
  intro hfails
  obtain ⟨a, c', hrun, -⟩ := h (.start i) rfl
  simp [hfails (.start i) rfl] at hrun

/-- What is left is determined by what is in front. -/
theorem Reads.left_eq {Q R : α → Prop} {o' : List Token} (h : p.Reads i o Q) (h' : p.Reads i o' R) :
    o = o' := by
  obtain ⟨a, c, hrun, -, rfl, -⟩ := h (.start i) rfl
  obtain ⟨b, d, hrun', -, rfl, -⟩ := h' (.start i) rfl
  obtain ⟨-, rfl⟩ := Prod.mk.inj (Option.some.inj (hrun.symm.trans hrun'))
  rfl

theorem Fails.withWritten (h : p.Fails i) : (withWritten p).Fails i := by
  intro c hc
  change Option.bind (p.run { c with written := [] }) _ = none
  rw [h { c with written := [] } hc]
  rfl

theorem Fails.unwritten (h : p.Fails i) : (unwritten p).Fails i := by
  intro c hc
  change Option.bind (p.run c) _ = none
  rw [h c hc]
  rfl

/-- A parser that is known to write `ts`. -/
theorem reads_withWritten_of_run {Q : α → Prop} (ts : List Token)
    (h : ∀ altered unread, ∃ a altered',
      p.run ⟨i, [], altered, unread⟩ = some (a, ⟨o, ts.reverse, altered', unread⟩) ∧ Q a) :
    (withWritten p).Reads i o fun x => Q x.1 ∧ x.2 = ts := by
  refine reads_of_run fun written altered unread => ?_
  obtain ⟨a, altered', hrun, ha⟩ := h altered unread
  refine ⟨(a, ts), ts.reverse ++ written, altered', ?_, ha, rfl⟩
  change Option.bind (p.run ⟨i, [], altered, unread⟩) _ = _
  rw [hrun]
  simp only [Option.bind_some]
  exact congrArg (fun us => some ((a, us), (⟨o, ts.reverse ++ written, altered', unread⟩ : Cursor)))
    ts.reverse_reverse

/-- No separator trails where there are no items. -/
theorem joinTokens_nonempty (separator : String) (trailing : Bool) (items : List (List Token)) :
    joinTokens separator (trailing && !items.isEmpty) items = joinTokens separator trailing items := by
  cases items with
  | nil => rfl
  | cons ts items => simp

/-- A list is read back up to where it stops, if what each item is read as is known. -/
theorem reads_closedList_map {item : Parser β} {stop : List Token → Bool}
    {Ends : List Token → Prop} {ordered : α → β} (separator : String) (trailing : Bool)
    (hitems : ∀ a ∈ as, ReadsItem item stop Ends (form a) (· = ordered a))
    (hseparator : ∀ rest, Ends (Token.operator separator ++ rest) ∧
      stop (Token.operator separator ++ rest) = false)
    (hrest : Ends rest) (hstop : stop rest = true) :
    (closedList stop separator item).Reads
      (joinTokens separator trailing (as.map form) ++ rest) rest
      (· = (as.map ordered, trailing && !as.isEmpty)) := by
  have hread := reads_closedList_join (R := fun a b => b = ordered a) separator trailing as hitems
    hseparator hrest hstop
  refine hread.mono ?_
  rintro ⟨bs, last⟩ ⟨hbs, rfl⟩
  have hmap : as.map ordered = bs := by
    rw [← List.forall₂_eq_eq_eq, List.forall₂_map_left_iff]
    exact hbs.imp fun _ _ h => h.symm
  rw [hmap]

section

variable {stop stop' : List Token → Bool} {separator : String} {trailing : Bool}

theorem OpenItems.joins (h : OpenItems stop separator p i as trailing o) :
    (trailing || !as.isEmpty) = true := by
  cases h with
  | none => rfl
  | last => rfl
  | more => simp

/-- Where a separator stands last, the list stops. -/
theorem OpenItems.stops (h : OpenItems stop separator p i as trailing o) (htrailing : trailing = true) :
    stop o = true := by
  induction h with
  | none hstop => exact hstop
  | last => cases htrailing
  | more _ _ _ _ ih => exact ih htrailing

/-- Where none stands last, none follows. -/
theorem OpenItems.ends (h : OpenItems stop separator p i as trailing o) (htrailing : trailing = false) :
    isOperator separator o = false := by
  induction h with
  | none => cases htrailing
  | last _ _ hseparator => exact hseparator
  | more _ _ _ _ ih => exact ih htrailing

/-- An open list that has been read is read back, whatever ends it. -/
theorem OpenItems.reads (h : OpenItems stop separator p i as trailing o) (htakes : q.Takes)
    (hitem : ∀ i a m, a ∈ as → p.Gives i a m → ∀ ts, Follow m ts →
      q.Reads (form a ++ ts) ts (· = ordered a) ∧ stop' (form a ++ ts) = false)
    (hseparator : ∀ m ts, isOperator separator m = true → Follow m (Token.operator separator ++ ts))
    (hrest : Follow o rest) (hstop : trailing = true → stop' rest = true)
    (hend : trailing = false → isOperator separator rest = false) :
    (openList stop' separator q).Reads
      (joinTokens separator trailing (as.map form) ++ rest) rest
      (· = (as.map ordered, trailing && !as.isEmpty)) := by
  have hfrom : as.length ≤ (joinTokens separator trailing (as.map form)).length ∧
      ∀ fuel, as.length < fuel → (openListFrom stop' separator q fuel).Reads
        (joinTokens separator trailing (as.map form) ++ rest) rest
        (· = (as.map ordered, trailing)) := by
    induction h with
    | none _ =>
      refine ⟨Nat.zero_le _, fun fuel hfuel => ?_⟩
      obtain ⟨fuel, rfl⟩ := Nat.exists_eq_add_one.mpr hfuel
      exact (reads_sees (hstop rfl)).bind_eq (reads_if_true rfl (reads_pure rfl))
    | @last i o a _ ha _ =>
      obtain ⟨hread, hgoes⟩ := hitem i a o List.mem_cons_self ha rest hrest
      have hlength := List.length_pos_iff.mpr (hread.ne_nil htakes)
      simp only [List.map_cons, List.map_nil, joinTokens, List.length_singleton, Bool.false_eq_true,
        if_false, List.append_nil]
      refine ⟨hlength, fun fuel hfuel => ?_⟩
      obtain ⟨fuel, rfl⟩ := Nat.exists_eq_add_one.mpr (Nat.zero_lt_of_lt hfuel)
      refine (reads_sees hgoes).bind_eq (reads_if_false rfl (hread.bind_eq ?_))
      exact (reads_operator?_false (hend rfl)).bind_eq (reads_if_false rfl (reads_pure rfl))
    | @more i m o a as trailing _ ha hm later ih =>
      obtain ⟨hlength, hlater⟩ := ih (fun i b m hb => hitem i b m (List.mem_cons_of_mem _ hb)) hrest
        hstop hend
      have hmore : (trailing || !(as.map form).isEmpty) = true := by
        rw [List.isEmpty_map]
        exact later.joins
      have htokens := joinTokens_cons separator trailing (form a) (as.map form)
      rw [hmore, operatorIf_true] at htokens
      obtain ⟨hread, hgoes⟩ := hitem i a m List.mem_cons_self ha _
        (hseparator m (joinTokens separator trailing (as.map form) ++ rest) hm)
      have hpos := List.length_pos_iff.mpr (hread.ne_nil htakes)
      have hjoin := congrArg List.length (htokens [])
      simp only [List.length_append, List.length_nil] at hjoin
      refine ⟨by simp only [List.map_cons, List.length_cons]; omega, fun fuel hfuel => ?_⟩
      obtain ⟨fuel, rfl⟩ := Nat.exists_eq_add_one.mpr (Nat.zero_lt_of_lt hfuel)
      rw [List.map_cons, htokens]
      refine (reads_sees hgoes).bind_eq (reads_if_false rfl (hread.bind_eq ?_))
      refine (reads_operator?_written _ _).bind_eq (reads_if_true rfl ?_)
      refine (hlater fuel (Nat.lt_of_succ_lt_succ hfuel)).bind_eq (reads_pure ?_)
      simp
  refine reads_ahead.bind_eq ((hfrom.2 _ ?_).bind_eq (reads_pure ?_))
  · rw [List.length_append]
    have hlength := hfrom.1
    omega
  · rw [List.isEmpty_map]

/-- Items of a closed list have been read one by one. -/
theorem ClosedItems.exists_gives (h : ClosedItems stop separator p i as trailing o) {a : α}
    (ha : a ∈ as) : ∃ i' m, stop i' = false ∧ p.Gives i' a m := by
  induction h with
  | none => cases ha
  | last hi hgives =>
    obtain rfl := List.mem_singleton.mp ha
    exact ⟨_, _, hi, hgives⟩
  | more hi hgives _ _ ih =>
    rcases List.mem_cons.mp ha with rfl | ha
    · exact ⟨_, _, hi, hgives⟩
    · exact ih ha

theorem OpenItems.exists_gives (h : OpenItems stop separator p i as trailing o) {a : α}
    (ha : a ∈ as) : ∃ i' m, stop i' = false ∧ p.Gives i' a m := by
  induction h with
  | none => cases ha
  | last hi hgives =>
    obtain rfl := List.mem_singleton.mp ha
    exact ⟨_, _, hi, hgives⟩
  | more hi hgives _ _ ih =>
    rcases List.mem_cons.mp ha with rfl | ha
    · exact ⟨_, _, hi, hgives⟩
    · exact ih ha

end

section

variable {more more' : List Token → Bool}

theorem Rounds.exists_gives (h : Rounds more p i as o) {a : α} (ha : a ∈ as) :
    ∃ i' m, more i' = true ∧ p.Gives i' a m := by
  induction h with
  | none => cases ha
  | more hmore hgives _ ih =>
    rcases List.mem_cons.mp ha with rfl | ha
    · exact ⟨_, _, hmore, hgives⟩
    · exact ih ha

/-- A loop reads back what it reads item by item, where the next item may follow each. -/
theorem reads_whileSees_map {Ends : List Token → Prop} (htakes : q.Takes)
    (hitem : ∀ a ∈ as, ∀ ts, Ends ts →
      q.Reads (form a ++ ts) ts (· = ordered a) ∧ more' (form a ++ ts) = true)
    (hnext : ∀ a ∈ as, ∀ ts, Ends (form a ++ ts)) (hrest : Ends rest)
    (hend : more' rest = false) :
    (whileSees more' q).Reads (as.flatMap form ++ rest) rest (· = as.map ordered) := by
  have hfrom : as.length ≤ (as.flatMap form).length ∧
      ∀ fuel, as.length ≤ fuel → (whileSeesFrom more' q fuel).Reads
        (as.flatMap form ++ rest) rest (· = as.map ordered) := by
    induction as with
    | nil => exact ⟨Nat.zero_le _, fun fuel _ => reads_whileSeesFrom_none hend fuel⟩
    | cons a as ih =>
      obtain ⟨hlength, hlater⟩ := ih (fun b hb => hitem b (List.mem_cons_of_mem _ hb))
        fun b hb => hnext b (List.mem_cons_of_mem _ hb)
      have hfollow : Ends (as.flatMap form ++ rest) := by
        cases as with
        | nil => exact hrest
        | cons b as =>
          rw [List.flatMap_cons, List.append_assoc]
          exact hnext b (by simp) _
      obtain ⟨hread, hgoes⟩ := hitem a List.mem_cons_self _ hfollow
      have hpos := List.length_pos_iff.mpr (hread.ne_nil htakes)
      rw [List.flatMap_cons, List.append_assoc]
      refine ⟨?_, fun fuel hfuel => ?_⟩
      · simp only [List.length_append, List.length_cons]
        omega
      · obtain ⟨fuel, rfl⟩ := Nat.exists_eq_add_one.mpr (Nat.zero_lt_of_lt hfuel)
        refine (reads_sees hgoes).bind_eq (reads_if_true rfl (hread.bind_eq ?_))
        exact (hlater fuel (Nat.le_of_succ_le_succ hfuel)).bind_eq (reads_pure rfl)
  refine reads_ahead.bind_eq (hfrom.2 _ ?_)
  rw [List.length_append]
  have hlength := hfrom.1
  omega

/-- What a loop has read is read back by a loop. -/
theorem Rounds.reads (h : Rounds more p i as o) (htakes : q.Takes)
    (hitem : ∀ i a m, a ∈ as → more i = true → p.Gives i a m → ∀ ts, Follow m ts →
      q.Reads (form a ++ ts) ts (· = ordered a) ∧ more' (form a ++ ts) = true)
    (hnext : ∀ i a m ts, more i = true → p.Gives i a m → Follow i (form a ++ ts))
    (hrest : Follow o rest) (hend : more' rest = false) :
    (whileSees more' q).Reads (as.flatMap form ++ rest) rest (· = as.map ordered) := by
  have hfrom : as.length ≤ (as.flatMap form).length ∧
      ∀ fuel, as.length ≤ fuel → (whileSeesFrom more' q fuel).Reads
        (as.flatMap form ++ rest) rest (· = as.map ordered) := by
    induction h with
    | none _ => exact ⟨Nat.zero_le _, fun fuel _ => reads_whileSeesFrom_none hend fuel⟩
    | @more i m o a as hmore ha later ih =>
      obtain ⟨hlength, hlater⟩ :=
        ih (fun i b m hb => hitem i b m (List.mem_cons_of_mem _ hb)) hrest
      have hfollow : Follow m (as.flatMap form ++ rest) := by
        cases later with
        | none => exact hrest
        | more hm hb later =>
          rw [List.flatMap_cons, List.append_assoc]
          exact hnext _ _ _ _ hm hb
      obtain ⟨hread, hgoes⟩ := hitem i a m List.mem_cons_self hmore ha _ hfollow
      have hpos := List.length_pos_iff.mpr (hread.ne_nil htakes)
      rw [List.flatMap_cons, List.append_assoc]
      refine ⟨?_, fun fuel hfuel => ?_⟩
      · simp only [List.length_append, List.length_cons]
        omega
      · obtain ⟨fuel, rfl⟩ := Nat.exists_eq_add_one.mpr (Nat.zero_lt_of_lt hfuel)
        refine (reads_sees hgoes).bind_eq (reads_if_true rfl (hread.bind_eq ?_))
        exact (hlater fuel (Nat.le_of_succ_le_succ hfuel)).bind_eq (reads_pure rfl)
  refine reads_ahead.bind_eq (hfrom.2 _ ?_)
  rw [List.length_append]
  have hlength := hfrom.1
  omega

end

end Parser

end RowFactory
