import RowFactory.Proofs.Source.Takes

namespace RowFactory

namespace Parser

variable {α β : Type} {i o : List Token} {p q : Parser α} {f : α → Parser β} {a : α} {b : β}

/-- Standing in front of `i`, the parser may return `a` and stand in front of `o`. -/
def Gives (p : Parser α) (i : List Token) (a : α) (o : List Token) : Prop :=
  ∃ c c', c.ahead = i ∧ p.run c = some (a, c') ∧ c'.ahead = o

theorem gives_of_run {c c' : Cursor} (h : p.run c = some (a, c')) : p.Gives c.ahead a c'.ahead :=
  ⟨c, c', rfl, h, rfl⟩

theorem Gives.bind (h : (p >>= f).Gives i b o) : ∃ a m, p.Gives i a m ∧ (f a).Gives m b o := by
  obtain ⟨c, c'', rfl, hrun, rfl⟩ := h
  obtain ⟨⟨a, c'⟩, ha, hb⟩ := Option.bind_eq_some_iff.mp hrun
  exact ⟨a, c'.ahead, gives_of_run ha, gives_of_run hb⟩

theorem Gives.pure (h : (pure a : Parser α).Gives i b' o) : b' = a ∧ o = i := by
  obtain ⟨c, c', rfl, hrun, rfl⟩ := h
  cases hrun
  exact ⟨rfl, rfl⟩

/-- What has been read is handed on in another form. -/
theorem Gives.returns {f : α → β} (h : (p >>= fun a => Pure.pure (f a)).Gives i b o) :
    ∃ a, p.Gives i a o ∧ b = f a := by
  obtain ⟨a, m, ha, hb⟩ := h.bind
  obtain ⟨rfl, rfl⟩ := hb.pure
  exact ⟨a, ha, rfl⟩

theorem Gives.map {f : α → β} (h : (f <$> p).Gives i b o) : ∃ a, p.Gives i a o ∧ b = f a :=
  Gives.returns h

theorem not_gives_failure : ¬ (failure : Parser α).Gives i a o := by
  rintro ⟨c, c', -, hrun, -⟩
  cases hrun

theorem Gives.guard_bind {t : Prop} [Decidable t] {f : Unit → Parser β}
    (h : (guard t >>= f).Gives i b o) : t ∧ (f ()).Gives i b o := by
  by_cases ht : t
  · obtain ⟨_, m, hguard, hf⟩ := h.bind
    rw [guard_eq_ite, if_pos ht] at hguard
    obtain ⟨rfl, rfl⟩ := hguard.pure
    exact ⟨ht, hf⟩
  · obtain ⟨_, _, hguard, -⟩ := h.bind
    rw [guard_eq_ite, if_neg ht] at hguard
    exact absurd hguard not_gives_failure

theorem Gives.cursor_bind {f : Cursor → Parser β} (h : (cursor >>= f).Gives i b o) :
    ∃ c, c.ahead = i ∧ (f c).Gives i b o := by
  obtain ⟨c, c', rfl, hrun, rfl⟩ := h
  exact ⟨c, rfl, gives_of_run hrun⟩

theorem Gives.ahead_bind {f : List Token → Parser β} (h : (ahead >>= f).Gives i b o) :
    (f i).Gives i b o := by
  obtain ⟨c, c', rfl, hrun, rfl⟩ := h
  exact ⟨c, c', rfl, hrun, rfl⟩

theorem Gives.sees_bind {test : List Token → Bool} {f : Bool → Parser β}
    (h : (sees test >>= f).Gives i b o) : (f (test i)).Gives i b o := by
  obtain ⟨c, c', rfl, hrun, rfl⟩ := h
  exact ⟨c, c', rfl, hrun, rfl⟩

theorem Gives.branch {test : List Token → Bool} {p q : Parser β}
    (h : (sees test >>= fun seen => if seen then p else q).Gives i b o) :
    (test i = true ∧ p.Gives i b o) ∨ (test i = false ∧ q.Gives i b o) := by
  have h := h.sees_bind
  cases htest : test i with
  | true => exact .inl ⟨rfl, by simpa [htest] using h⟩
  | false => exact .inr ⟨rfl, by simpa [htest] using h⟩

theorem Gives.ite {t : Prop} [Decidable t] (h : (if t then p else q).Gives i a o) :
    (t ∧ p.Gives i a o) ∨ (¬ t ∧ q.Gives i a o) := by
  split at h
  case isTrue ht => exact .inl ⟨ht, h⟩
  case isFalse ht => exact .inr ⟨ht, h⟩

theorem Gives.rewrite_bind {g : Cursor → Cursor} {f : Unit → Parser β}
    (h : (rewrite g >>= f).Gives i b o) : (f ()).Gives i b o := by
  obtain ⟨c, c', rfl, hrun, rfl⟩ := h
  exact ⟨{ g c with ahead := c.ahead }, c', rfl, hrun, rfl⟩

theorem Gives.require_bind {test : List Token → Bool} {f : Unit → Parser β}
    (h : (require test >>= f).Gives i b o) : test i = true ∧ (f ()).Gives i b o := by
  obtain ⟨c, c', rfl, hrun, rfl⟩ := h
  rw [run_require_bind] at hrun
  split at hrun
  case isTrue htest => exact ⟨htest, c, c', rfl, hrun, rfl⟩
  case isFalse => cases hrun

theorem Gives.operator {op : String} {u : Unit} (h : (operator op).Gives i u o) :
    isOperator op i = true ∧ o = i.drop op.length := by
  obtain ⟨c, c', rfl, hrun, rfl⟩ := h
  exact ahead_of_run_operator hrun

theorem Gives.operator_bind {op : String} {f : Unit → Parser β}
    (h : (Parser.operator op >>= f).Gives i b o) :
    isOperator op i = true ∧ (f ()).Gives (i.drop op.length) b o := by
  obtain ⟨_, m, hop, hf⟩ := h.bind
  obtain ⟨htest, rfl⟩ := hop.operator
  exact ⟨htest, hf⟩

theorem eq_word_of_isWord {w : String} (h : isWord w i = true) : i = Token.word w :: i.drop 1 := by
  match i with
  | .ident name :: rest =>
    obtain rfl : name = .plain w := by simpa [isWord] using h
    rfl
  | [] | .punct .. :: _ | .lifetime _ :: _ | .literal _ :: _ | .group .. :: _ => cases h

theorem Gives.word {w : String} {u : Unit} (h : (word w).Gives i u o) : i = Token.word w :: o := by
  obtain ⟨c, c', rfl, hrun, rfl⟩ := h
  obtain ⟨htest, hahead⟩ := ahead_of_run_word hrun
  rw [hahead]
  exact eq_word_of_isWord htest

theorem Gives.word_bind {w : String} {f : Unit → Parser β}
    (h : (Parser.word w >>= f).Gives i b o) :
    ∃ rest, i = Token.word w :: rest ∧ (f ()).Gives rest b o := by
  obtain ⟨_, m, hword, hf⟩ := h.bind
  exact ⟨m, hword.word, hf⟩

/-- An operator that may stand there. -/
theorem Gives.operator?_bind {op : String} {f : Bool → Parser β}
    (h : (operator? op >>= f).Gives i b o) :
    (isOperator op i = true ∧ (f true).Gives (i.drop op.length) b o) ∨
      (isOperator op i = false ∧ (f false).Gives i b o) := by
  obtain ⟨seen, m, hseen, hf⟩ := h.bind
  rcases hseen.branch with ⟨htest, htaken⟩ | ⟨htest, hnone⟩
  · obtain ⟨_, hop, rfl⟩ := htaken.returns
    obtain ⟨-, rfl⟩ := hop.operator
    exact .inl ⟨htest, hf⟩
  · obtain ⟨rfl, rfl⟩ := hnone.pure
    exact .inr ⟨htest, hf⟩

/-- A word that may stand there. -/
theorem Gives.word?_bind {w : String} {f : Bool → Parser β} (h : (word? w >>= f).Gives i b o) :
    (∃ rest, i = Token.word w :: rest ∧ (f true).Gives rest b o) ∨
      (isWord w i = false ∧ (f false).Gives i b o) := by
  obtain ⟨seen, m, hseen, hf⟩ := h.bind
  rcases hseen.branch with ⟨-, htaken⟩ | ⟨htest, hnone⟩
  · obtain ⟨_, hword, rfl⟩ := htaken.returns
    exact .inl ⟨m, hword.word, hf⟩
  · obtain ⟨rfl, rfl⟩ := hnone.pure
    exact .inr ⟨htest, hf⟩

theorem Gives.ifSees {test : List Token → Bool} {x : Option α} (h : (ifSees test p).Gives i x o) :
    (test i = true ∧ ∃ a, p.Gives i a o ∧ x = some a) ∨ (test i = false ∧ x = none ∧ o = i) := by
  rcases h.branch with ⟨htest, h⟩ | ⟨htest, h⟩
  · obtain ⟨a, ha, hx⟩ := h.map
    exact .inl ⟨htest, a, ha, hx⟩
  · exact .inr ⟨htest, h.pure⟩

theorem Gives.anyIdent {name : Ident} (h : anyIdent.Gives i name o) : i = .ident name :: o := by
  obtain ⟨⟨ahead, written, altered, unread⟩, c', rfl, hrun, rfl⟩ := h
  match ahead with
  | .ident _ :: _ =>
    cases hrun
    rfl
  | [] | .punct .. :: _ | .lifetime _ :: _ | .literal _ :: _ | .group .. :: _ => cases hrun

theorem Gives.ident {name : Ident} (h : ident.Gives i name o) :
    i = .ident name :: o ∧ name.isKeyword = false := by
  obtain ⟨name', m, hname, h⟩ := h.bind
  obtain ⟨hkeyword, h⟩ := h.guard_bind
  obtain ⟨rfl, rfl⟩ := h.pure
  exact ⟨hname.anyIdent, by simpa using hkeyword⟩

theorem Gives.lifetime {name : Ident} (h : lifetime.Gives i name o) : i = .lifetime name :: o := by
  obtain ⟨⟨ahead, written, altered, unread⟩, c', rfl, hrun, rfl⟩ := h
  match ahead with
  | .lifetime _ :: _ =>
    cases hrun
    rfl
  | [] | .punct .. :: _ | .ident _ :: _ | .literal _ :: _ | .group .. :: _ => cases hrun

theorem Gives.anyGroup {x : Delimiter × List Token} (h : anyGroup.Gives i x o) :
    i = .group x.1 x.2 :: o := by
  obtain ⟨⟨ahead, written, altered, unread⟩, c', rfl, hrun, rfl⟩ := h
  match ahead with
  | .group .. :: _ =>
    cases hrun
    rfl
  | [] | .punct .. :: _ | .ident _ :: _ | .literal _ :: _ | .lifetime _ :: _ => cases hrun

/-- What stands in the group is read by itself, not always to its end. -/
theorem Gives.group {d : Delimiter} (h : (group d p).Gives i a o) :
    ∃ body left, i = .group d body :: o ∧ p.Gives body a left := by
  obtain ⟨⟨ahead, written, altered, unread⟩, c', rfl, hrun, rfl⟩ := h
  match ahead with
  | .group d' body :: rest =>
    by_cases hd : d = d'
    · subst hd
      simp only [Parser.group, if_true] at hrun
      obtain ⟨⟨a', inner⟩, hinner, heq⟩ := Option.map_eq_some_iff.mp hrun
      cases heq
      exact ⟨body, inner.ahead, rfl, gives_of_run hinner⟩
    · simp [Parser.group, hd] at hrun
  | [] | .punct .. :: _ | .ident _ :: _ | .literal _ :: _ | .lifetime _ :: _ => cases hrun

theorem Gives.withWritten {x : α × List Token} (h : (withWritten p).Gives i x o) :
    p.Gives i x.1 o := by
  obtain ⟨_, -, h⟩ := h.cursor_bind
  obtain ⟨a, m, ha, h⟩ := h.rewrite_bind.bind
  obtain ⟨_, -, h⟩ := h.cursor_bind
  obtain ⟨rfl, rfl⟩ := h.rewrite_bind.pure
  exact ha

/-- What has been written in the meantime is handed on. -/
theorem Gives.withWritten_run {x : α × List Token} (h : (Parser.withWritten p).Gives i x o) :
    ∃ c c', c.ahead = i ∧ c.written = [] ∧ p.run c = some (x.1, c') ∧ c'.ahead = o ∧
      x.2 = c'.written.reverse := by
  obtain ⟨c, c', rfl, hrun, rfl⟩ := h
  obtain ⟨⟨a, c₁⟩, ha, hrun⟩ := Option.bind_eq_some_iff.mp hrun
  cases hrun
  exact ⟨{ c with written := [] }, c₁, rfl, rfl, ha, rfl, rfl⟩

theorem Gives.writtenAs {form : α → List Token} (h : (writtenAs form p).Gives i a o) :
    p.Gives i a o := by
  obtain ⟨_, -, h⟩ := h.cursor_bind
  obtain ⟨a', m, ha, h⟩ := h.rewrite_bind.bind
  obtain ⟨rfl, rfl⟩ := h.rewrite_bind.pure
  exact ha

theorem Gives.unwritten (h : (unwritten p).Gives i a o) : p.Gives i a o := by
  obtain ⟨_, -, h⟩ := h.cursor_bind
  obtain ⟨a', m, ha, h⟩ := h.bind
  obtain ⟨rfl, rfl⟩ := h.rewrite_bind.pure
  exact ha

theorem Gives.write_bind {ts : List Token} {f : Unit → Parser β}
    (h : (write ts >>= f).Gives i b o) : (f ()).Gives i b o :=
  h.rewrite_bind

/-- What has been taken stood in front of what is left. -/
theorem Gives.suffix (h : p.Gives i a o) : o <:+ i := by
  obtain ⟨c, c', rfl, hrun, rfl⟩ := h
  exact p.takesFront hrun

/-- All tokens are restored that have been taken. -/
theorem Gives.restoreSince {before : Cursor} {ts : List Token}
    (h : (restoreSince before).Gives i ts o) (hi : i <:+ before.ahead) :
    before.ahead = ts ++ o := by
  obtain ⟨c, c', rfl, hrun, rfl⟩ := h
  cases hrun
  exact (List.suffix_iff_eq_append.mp hi).symm

/-- Rounds of a loop that goes on as long as `more` holds. -/
inductive Rounds (more : List Token → Bool) (p : Parser α) :
    List Token → List α → List Token → Prop
  | none (i : List Token) : Rounds more p i [] i
  | more {i m o : List Token} {a : α} {as : List α} (hmore : more i = true) (h : p.Gives i a m)
    (later : Rounds more p m as o) : Rounds more p i (a :: as) o

theorem Gives.whileSees {more : List Token → Bool} {as : List α}
    (h : (whileSees more p).Gives i as o) : Rounds more p i as o := by
  have hfrom : ∀ (fuel : Nat) (i : List Token) (as : List α),
      (whileSeesFrom more p fuel).Gives i as o → Rounds more p i as o := by
    intro fuel
    induction fuel with
    | zero =>
      intro i as h
      obtain ⟨rfl, rfl⟩ := h.pure
      exact .none _
    | succ fuel ih =>
      intro i as h
      rcases h.branch with ⟨hmore, h⟩ | ⟨-, h⟩
      · obtain ⟨a, m, ha, h⟩ := h.bind
        obtain ⟨as', has, rfl⟩ := h.returns
        exact .more hmore ha (ih _ _ has)
      · obtain ⟨rfl, rfl⟩ := h.pure
        exact .none _
  exact hfrom _ i as h.ahead_bind

/-- Where each round takes a token, the loop ends because no more can be read. -/
theorem Gives.whileSees_ends {more : List Token → Bool} {as : List α} (htakes : p.Takes)
    (hend : more [] = false) (h : (Parser.whileSees more p).Gives i as o) : more o = false := by
  have hfrom : ∀ (fuel : Nat) (i : List Token) (as : List α), i.length ≤ fuel →
      (whileSeesFrom more p fuel).Gives i as o → more o = false := by
    intro fuel
    induction fuel with
    | zero =>
      intro i as hlength h
      obtain ⟨rfl, rfl⟩ := h.pure
      rwa [List.eq_nil_of_length_eq_zero (Nat.le_zero.mp hlength)]
    | succ fuel ih =>
      intro i as hlength h
      rcases h.branch with ⟨-, h⟩ | ⟨hmore, h⟩
      · obtain ⟨a, m, ⟨c, c', rfl, ha, rfl⟩, h⟩ := h.bind
        obtain ⟨as', has, rfl⟩ := h.returns
        have hless := htakes c a c' ha
        exact ih _ _ (by omega) has
      · obtain ⟨rfl, rfl⟩ := h.pure
        exact hmore
  exact hfrom _ i as (Nat.le_refl _) h.ahead_bind

/-- Items of a list that ends where `stop` holds; the flag says that a separator stands last. -/
inductive ClosedItems (stop : List Token → Bool) (separator : String) (p : Parser α) :
    List Token → List α → Bool → List Token → Prop
  | none {i : List Token} (hstop : stop i = true) : ClosedItems stop separator p i [] true i
  | last {i m : List Token} {a : α} (hi : stop i = false) (h : p.Gives i a m)
    (hstop : stop m = true) : ClosedItems stop separator p i [a] false m
  | more {i m o : List Token} {a : α} {as : List α} {trailing : Bool} (hi : stop i = false)
    (h : p.Gives i a m) (hseparator : isOperator separator m = true)
    (later : ClosedItems stop separator p (m.drop separator.length) as trailing o) :
    ClosedItems stop separator p i (a :: as) trailing o

theorem Gives.closedList {stop : List Token → Bool} {separator : String} {x : List α × Bool}
    (h : (closedList stop separator p).Gives i x o) :
    ∃ trailing, ClosedItems stop separator p i x.1 trailing o ∧
      x.2 = (trailing && !x.1.isEmpty) := by
  have hfrom : ∀ (fuel : Nat) (i : List Token) (x : List α × Bool),
      (closedListFrom stop separator p fuel).Gives i x o →
      ClosedItems stop separator p i x.1 x.2 o := by
    intro fuel
    induction fuel with
    | zero => exact fun i x h => absurd h not_gives_failure
    | succ fuel ih =>
      intro i x h
      rcases h.branch with ⟨hstop, h⟩ | ⟨hi, h⟩
      · obtain ⟨rfl, rfl⟩ := h.pure
        exact .none hstop
      · obtain ⟨a, m, ha, h⟩ := h.bind
        rcases h.branch with ⟨hstop, h⟩ | ⟨-, h⟩
        · obtain ⟨rfl, rfl⟩ := h.pure
          exact .last hi ha hstop
        · obtain ⟨hseparator, h⟩ := h.operator_bind
          obtain ⟨y, hy, rfl⟩ := h.returns
          exact .more hi ha hseparator (ih _ _ hy)
  obtain ⟨y, hy, rfl⟩ := h.ahead_bind.returns
  exact ⟨y.2, hfrom _ _ _ hy, rfl⟩

/-- Items of a list that ends where `stop` holds or no separator follows; the flag says that a
separator stands last. -/
inductive OpenItems (stop : List Token → Bool) (separator : String) (p : Parser α) :
    List Token → List α → Bool → List Token → Prop
  | none {i : List Token} (hstop : stop i = true) : OpenItems stop separator p i [] true i
  | last {i o : List Token} {a : α} (hi : stop i = false) (h : p.Gives i a o)
    (hseparator : isOperator separator o = false) : OpenItems stop separator p i [a] false o
  | more {i m o : List Token} {a : α} {as : List α} {trailing : Bool} (hi : stop i = false)
    (h : p.Gives i a m) (hseparator : isOperator separator m = true)
    (later : OpenItems stop separator p (m.drop separator.length) as trailing o) :
    OpenItems stop separator p i (a :: as) trailing o

theorem Gives.openList {stop : List Token → Bool} {separator : String} {x : List α × Bool}
    (h : (openList stop separator p).Gives i x o) :
    ∃ trailing, OpenItems stop separator p i x.1 trailing o ∧
      x.2 = (trailing && !x.1.isEmpty) := by
  have hfrom : ∀ (fuel : Nat) (i : List Token) (x : List α × Bool),
      (openListFrom stop separator p fuel).Gives i x o →
      OpenItems stop separator p i x.1 x.2 o := by
    intro fuel
    induction fuel with
    | zero => exact fun i x h => absurd h not_gives_failure
    | succ fuel ih =>
      intro i x h
      rcases h.branch with ⟨hstop, h⟩ | ⟨hi, h⟩
      · obtain ⟨rfl, rfl⟩ := h.pure
        exact .none hstop
      · obtain ⟨a, m, ha, h⟩ := h.bind
        rcases h.operator?_bind with ⟨hseparator, h⟩ | ⟨hseparator, h⟩
        · obtain ⟨y, hy, rfl⟩ := h.returns
          exact .more hi ha hseparator (ih _ _ hy)
        · obtain ⟨rfl, rfl⟩ := h.pure
          exact .last hi ha hseparator
  obtain ⟨y, hy, rfl⟩ := h.ahead_bind.returns
  exact ⟨y.2, hfrom _ _ _ hy, rfl⟩

/-- A separator trails only where there are items. -/
theorem Gives.openList_trailing {stop : List Token → Bool} {separator : String}
    {x : List α × Bool} (h : (Parser.openList stop separator p).Gives i x o) :
    (x.2 && !x.1.isEmpty) = x.2 := by
  obtain ⟨trailing, -, htrailing⟩ := h.openList
  rw [htrailing, Bool.and_assoc, Bool.and_self]

end Parser

end RowFactory
