import RowFactory.Source.Parser

namespace RowFactory

namespace Parser

variable {α β : Type} {i o : List Token} {Q : α → Prop} {R : β → Prop} {p : Parser α}

/-- Parsers that run alike are the same. -/
theorem ext_run {p q : Parser α} (h : ∀ c, p.run c = q.run c) : p = q := by
  obtain ⟨run, takesFront⟩ := p
  obtain ⟨run', takesFront'⟩ := q
  obtain rfl : run = run' := funext h
  rfl

protected theorem bind_assoc {γ : Type} (p : Parser α) (f : α → Parser β) (h : β → Parser γ) :
    p >>= f >>= h = p >>= fun a => f a >>= h :=
  ext_run fun c => Option.bind_assoc (p.run c) _ _

/-- Standing in front of `i`, the parser returns something that satisfies `Q` and stands in front of
`o`. It leaves no group unread. -/
def Reads (p : Parser α) (i o : List Token) (Q : α → Prop) : Prop :=
  ∀ c, c.ahead = i → ∃ a c', p.run c = some (a, c') ∧ Q a ∧ c'.ahead = o ∧ c'.unread = c.unread

/-- The parser is run on the tokens in front, whatever has been written. -/
theorem reads_of_run
    (h : ∀ written altered unread, ∃ a written' altered',
      p.run ⟨i, written, altered, unread⟩ = some (a, ⟨o, written', altered', unread⟩) ∧ Q a) :
    p.Reads i o Q := by
  rintro ⟨ahead, written, altered, unread⟩ rfl
  obtain ⟨a, written', altered', hrun, ha⟩ := h written altered unread
  exact ⟨a, _, hrun, ha, rfl, rfl⟩

theorem Reads.mono {Q' : α → Prop} (hp : p.Reads i o Q) (h : ∀ a, Q a → Q' a) :
    p.Reads i o Q' := by
  intro c hc
  obtain ⟨a, c', hrun, ha, hahead⟩ := hp c hc
  exact ⟨a, c', hrun, h a ha, hahead⟩

theorem reads_pure {a : α} (h : Q a) : (pure a : Parser α).Reads i i Q :=
  fun c hc => ⟨a, c, rfl, h, hc, rfl⟩

theorem Reads.bind {m : List Token} {f : α → Parser β} (hp : p.Reads i m Q)
    (hf : ∀ a, Q a → (f a).Reads m o R) : (p >>= f).Reads i o R := by
  intro c hc
  obtain ⟨a, c', hrun, ha, hahead, hunread⟩ := hp c hc
  obtain ⟨b, c'', hrun', hb, hahead', hunread'⟩ := hf a ha c' hahead
  refine ⟨b, c'', ?_, hb, hahead', hunread'.trans hunread⟩
  exact Option.bind_eq_some_iff.mpr ⟨(a, c'), hrun, hrun'⟩

/-- What is returned is known. -/
theorem Reads.bind_eq {m : List Token} {a : α} {f : α → Parser β} (hp : p.Reads i m (· = a))
    (hf : (f a).Reads m o R) : (p >>= f).Reads i o R :=
  hp.bind fun _ h => h ▸ hf

theorem reads_pure_bind {a : α} {f : α → Parser β} (h : (f a).Reads i o R) :
    (pure a >>= f).Reads i o R :=
  (reads_pure (Q := (· = a)) rfl).bind_eq h

theorem reads_ite {b : Prop} [Decidable b] {p q : Parser α} (hp : b → p.Reads i o Q)
    (hq : ¬ b → q.Reads i o Q) : (if b then p else q).Reads i o Q := by
  split
  case isTrue h => exact hp h
  case isFalse h => exact hq h

theorem reads_if_true {b : Bool} {p q : Parser α} (h : b = true) (hp : p.Reads i o Q) :
    (if b then p else q).Reads i o Q := by
  rw [if_pos h]
  exact hp

theorem reads_if_false {b : Bool} {p q : Parser α} (h : b = false) (hq : q.Reads i o Q) :
    (if b then p else q).Reads i o Q := by
  rw [if_neg (by simp [h])]
  exact hq

theorem reads_cursor : cursor.Reads i i (·.ahead = i) :=
  fun c hc => ⟨c, c, rfl, hc, hc, rfl⟩

theorem reads_ahead : ahead.Reads i i (· = i) :=
  fun c hc => ⟨c.ahead, c, rfl, hc, hc, rfl⟩

theorem reads_sees {test : List Token → Bool} {b : Bool} (h : test i = b) :
    (sees test).Reads i i (· = b) := by
  rintro c rfl
  exact ⟨test c.ahead, c, rfl, h, rfl, rfl⟩

theorem reads_guard {b : Prop} [Decidable b] (h : b) :
    (guard b : Parser Unit).Reads i i fun _ => True := by
  have hguard : (guard b : Parser Unit) = pure () := if_pos h
  rw [hguard]
  exact reads_pure trivial

theorem reads_require {test : List Token → Bool} (h : test i) :
    (require test).Reads i i fun _ => True :=
  reads_ahead.bind_eq (reads_guard h)

/-- What has been written does not matter to what is read. -/
theorem reads_rewrite {f : Cursor → Cursor} (h : ∀ c, (f c).unread = c.unread) :
    (rewrite f).Reads i i fun _ => True :=
  fun c hc => ⟨(), _, rfl, trivial, hc, h c⟩

theorem reads_rewrite_bind {f : Cursor → Cursor} {next : Unit → Parser β}
    (h : ∀ c, (f c).unread = c.unread) (hnext : (next ()).Reads i o R) :
    (rewrite f >>= next).Reads i o R :=
  (reads_rewrite h).bind fun _ _ => hnext

theorem reads_write (ts : List Token) : (write ts).Reads i i fun _ => True :=
  reads_rewrite fun _ => rfl

theorem reads_skip (n : Nat) : (skip n).Reads i (i.drop n) fun _ => True := by
  rintro c rfl
  exact ⟨(), _, rfl, trivial, rfl, rfl⟩

theorem reads_copy_one (t : Token) (rest : List Token) :
    (copy 1).Reads (t :: rest) rest fun _ => True :=
  reads_ahead.bind_eq ((reads_skip 1).bind fun _ _ => reads_write _)

theorem reads_operator {op : String} (h : isOperator op i) :
    (operator op).Reads i (i.drop op.length) fun _ => True :=
  (reads_require h).bind fun _ _ => (reads_skip _).bind fun _ _ => reads_write _

theorem reads_word (w : String) : (word w).Reads (Token.word w :: o) o fun _ => True := by
  exact (reads_require (by simp [isWord, Token.word])).bind fun _ _ => reads_copy_one _ _

theorem reads_operator?_false {op : String} (h : isOperator op i = false) :
    (operator? op).Reads i i (· = false) :=
  (reads_sees h).bind_eq (reads_if_false rfl (reads_pure rfl))

theorem reads_operator?_true {op : String} (h : isOperator op i = true) :
    (operator? op).Reads i (i.drop op.length) (· = true) :=
  (reads_sees h).bind_eq (reads_if_true rfl ((reads_operator h).bind fun _ _ => reads_pure rfl))

theorem reads_word?_false {w : String} (h : isWord w i = false) :
    (word? w).Reads i i (· = false) :=
  (reads_sees h).bind_eq (reads_if_false rfl (reads_pure rfl))

theorem reads_word?_true (w : String) : (word? w).Reads (Token.word w :: o) o (· = true) := by
  have hw : isWord w (Token.word w :: o) = true := by simp [isWord, Token.word]
  exact (reads_sees hw).bind_eq (reads_if_true rfl ((reads_word w).bind fun _ _ => reads_pure rfl))

theorem reads_ifSees_false {test : List Token → Bool} (h : test i = false) :
    (ifSees test p).Reads i i (· = none) :=
  (reads_sees h).bind_eq (reads_if_false rfl (reads_pure rfl))

theorem reads_anyIdent (name : Ident) :
    anyIdent.Reads (.ident name :: o) o (· = name) :=
  reads_of_run fun _ _ _ => ⟨_, _, _, rfl, rfl⟩

theorem reads_ident {name : Ident} (h : name.isKeyword = false) :
    ident.Reads (.ident name :: o) o (· = name) := by
  refine (reads_anyIdent name).bind_eq ?_
  exact (reads_guard (by simp [h])).bind fun _ _ => reads_pure rfl

/-- Reserved words are no identifiers. -/
theorem isWord_of_isKeyword_eq_false {w : String} {name : Ident} (h : name.isKeyword = false)
    (hw : keywords.contains w) : isWord w (.ident name :: o) = false := by
  simp only [isWord, decide_eq_false_iff_not]
  rintro rfl
  simp only [Ident.isKeyword, Ident.plain, hw] at h
  cases h

theorem Reads.peek (hp : p.Reads i o Q) :
    (peek p).Reads i i fun a => ∃ b, a = some b ∧ Q b := by
  intro c hc
  obtain ⟨a, c', hrun, ha, -, -⟩ := hp c hc
  exact ⟨_, c, by simp only [Parser.peek, hrun]; rfl, ⟨a, rfl, ha⟩, hc, rfl⟩

theorem Reads.attempt {i o : List Token} {Q : α → Prop} (hp : p.Reads i o Q) :
    (attempt p).Reads i o fun a => ∃ b, a = some b ∧ Q b := by
  intro c hc
  obtain ⟨a, c', hrun, ha, hc'⟩ := hp c hc
  exact ⟨some a, c', by simp only [Parser.attempt, hrun], ⟨a, rfl, ha⟩, hc'⟩

/-- A group is read if all that stands in it is. -/
theorem Reads.group {body : List Token} (d : Delimiter) (hp : p.Reads body [] Q) :
    (group d p).Reads (.group d body :: o) o Q := by
  rintro ⟨ahead, written, altered, unread⟩ rfl
  obtain ⟨a, c', hrun, ha, hahead, hunread⟩ := hp (.start body) rfl
  have hdone : c'.isDone := by simp [Cursor.isDone, hahead, hunread, Cursor.start]
  exact ⟨a, _, by simp [Parser.group, hrun]; rfl, ha, rfl, by simp [hdone]⟩

theorem Reads.withWritten (hp : p.Reads i o Q) :
    (withWritten p).Reads i o fun (a, _) => Q a := by
  refine reads_cursor.bind fun _ _ => reads_rewrite_bind (fun _ => rfl) ?_
  refine hp.bind fun _ ha => reads_cursor.bind fun _ _ => ?_
  exact reads_rewrite_bind (fun _ => rfl) (reads_pure ha)

theorem Reads.writtenAs (form : α → List Token) (hp : p.Reads i o Q) :
    (writtenAs form p).Reads i o Q := by
  refine reads_cursor.bind fun _ _ => reads_rewrite_bind (fun _ => rfl) ?_
  exact hp.bind fun _ ha => reads_rewrite_bind (fun _ => rfl) (reads_pure ha)

theorem Reads.unwritten (hp : p.Reads i o Q) : (unwritten p).Reads i o Q := by
  refine reads_cursor.bind fun _ _ => hp.bind fun _ ha => ?_
  exact reads_rewrite_bind (fun _ => rfl) (reads_pure ha)

theorem Reads.withAltered (hp : p.Reads i o Q) :
    (withAltered p).Reads i o fun (a, _) => Q a := by
  refine reads_cursor.bind fun _ _ => reads_rewrite_bind (fun _ => rfl) ?_
  refine hp.bind fun _ ha => reads_cursor.bind fun _ _ => ?_
  exact reads_rewrite_bind (fun _ => rfl) (reads_pure ha)

theorem reads_whileSeesFrom_none {more : List Token → Bool} (h : more i = false) (fuel : Nat) :
    (whileSeesFrom more p fuel).Reads i i (· = []) := by
  cases fuel with
  | zero => exact reads_pure rfl
  | succ fuel => exact (reads_sees h).bind_eq (reads_if_false rfl (reads_pure rfl))

theorem reads_whileSees_none {more : List Token → Bool} (h : more i = false) :
    (whileSees more p).Reads i i (· = []) :=
  reads_ahead.bind_eq (reads_whileSeesFrom_none h _)

theorem Reads.whileSees_once {more : List Token → Bool} {t : Token} {ts : List Token}
    (hp : p.Reads (t :: ts) o Q) (hi : more (t :: ts) = true) (ho : more o = false) :
    (whileSees more p).Reads (t :: ts) o fun as => ∃ a, as = [a] ∧ Q a := by
  refine reads_ahead.bind_eq ((reads_sees hi).bind_eq (reads_if_true rfl ?_))
  refine hp.bind fun a ha => (reads_whileSeesFrom_none ho _).bind_eq ?_
  exact reads_pure ⟨a, rfl, ha⟩

/-- One item and no separator. -/
theorem Reads.closedList_once (stop : List Token → Bool) (separator : String)
    (hp : p.Reads i o Q) (hi : stop i = false) (ho : stop o = true) :
    (closedList stop separator p).Reads i o fun (as, _) => ∃ a, as = [a] ∧ Q a := by
  have hitems (n : Nat) : (closedListFrom stop separator p (n + 1)).Reads i o
      fun (as, _) => ∃ a, as = [a] ∧ Q a := by
    refine (reads_sees hi).bind_eq (reads_if_false rfl (hp.bind fun a ha => ?_))
    exact (reads_sees ho).bind_eq (reads_if_true rfl (reads_pure ⟨a, rfl, ha⟩))
  exact reads_ahead.bind_eq ((hitems _).bind fun _ ha => reads_pure ha)

/-- One item and no separator. -/
theorem Reads.openList_once {stop : List Token → Bool} {separator : String}
    (hp : p.Reads i o Q) (hi : stop i = false) (ho : isOperator separator o = false) :
    (openList stop separator p).Reads i o fun x => ∃ a, x = ([a], false) ∧ Q a := by
  have hitems (n : Nat) : (openListFrom stop separator p (n + 1)).Reads i o
      fun x => ∃ a, x = ([a], false) ∧ Q a := by
    refine (reads_sees hi).bind_eq (reads_if_false rfl (hp.bind fun a ha => ?_))
    exact (reads_operator?_false ho).bind_eq (reads_if_false rfl (reads_pure ⟨a, rfl, ha⟩))
  refine reads_ahead.bind_eq ((hitems _).bind fun x hx => reads_pure ?_)
  obtain ⟨a, rfl, ha⟩ := hx
  exact ⟨a, rfl, ha⟩

/-- What is read from the first token to the last is all that there is. -/
theorem Reads.exists_all (hp : p.Reads i [] Q) : ∃ a, all p i = some a ∧ Q a := by
  obtain ⟨a, c', hrun, ha, hahead, hunread⟩ := hp (.start i) rfl
  have hdone : c'.isDone := by simp [Cursor.isDone, hahead, hunread, Cursor.start]
  have hguard : (guard c'.isDone : Option Unit) = some () := if_pos hdone
  refine ⟨a, ?_, ha⟩
  rw [all, hrun, Option.bind_eq_bind, Option.bind_some]
  exact Option.bind_eq_some_iff.mpr ⟨(), hguard, rfl⟩

end Parser

end RowFactory
