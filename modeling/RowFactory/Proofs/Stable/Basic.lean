import RowFactory.Proofs.Source.Takes
import RowFactory.Source.Grammar

namespace RowFactory

/-- A comma, and whatever stands behind it. -/
structure CommaTail where
  joint : Bool
  rest : List Token

/-- The tokens, with the comma behind them. -/
def CommaTail.behind (tail : CommaTail) (ts : List Token) : List Token :=
  ts ++ .punct ',' tail.joint :: tail.rest

def Cursor.before (c : Cursor) (tail : CommaTail) : Cursor :=
  { c with ahead := tail.behind c.ahead }

namespace Parser

variable {α β : Type} {tail : CommaTail} {ts : List Token}

/-- What a function says of the tokens in front is the same where a comma follows. -/
def Blind (tail : CommaTail) (f : List Token → β) : Prop := ∀ ts, f (tail.behind ts) = f ts

theorem behind_cons (t : Token) (ts : List Token) :
    tail.behind (t :: ts) = t :: tail.behind ts := rfl

theorem drop_behind {n : Nat} (h : n ≤ ts.length) :
    (tail.behind ts).drop n = tail.behind (ts.drop n) :=
  List.drop_append_of_le_length h

theorem startsOperator_behind {cs : List Char} (h : ',' ∉ cs) (ts : List Token) :
    startsOperator cs (tail.behind ts) = startsOperator cs ts := by
  induction cs generalizing ts with
  | nil => simp [startsOperator]
  | cons c cs ih =>
    obtain ⟨hc, hcs⟩ : c ≠ ',' ∧ ',' ∉ cs := by simpa [eq_comm] using h
    cases ts with
    | nil => cases cs <;> cases hj : tail.joint <;> simp [CommaTail.behind, startsOperator, hc, hj]
    | cons t ts =>
      cases cs with
      | nil => cases t <;> simp [behind_cons, startsOperator]
      | cons d cs =>
        cases t with
        | punct e joint => cases joint <;> simp [behind_cons, startsOperator, ih hcs ts]
        | _ => simp [behind_cons, startsOperator]

@[simp] theorem isOperator_behind {op : String} (h : ',' ∉ op.toList) (ts : List Token) :
    isOperator op (tail.behind ts) = isOperator op ts :=
  startsOperator_behind h ts

@[simp] theorem isWord_behind (w : String) (ts : List Token) :
    isWord w (tail.behind ts) = isWord w ts := by
  match ts with
  | [] => rfl
  | t :: _ => cases t <;> rfl

@[simp] theorem isIdent_behind (ts : List Token) : isIdent (tail.behind ts) = isIdent ts := by
  match ts with
  | [] => rfl
  | t :: _ => cases t <;> rfl

@[simp] theorem isAnyIdent_behind (ts : List Token) :
    isAnyIdent (tail.behind ts) = isAnyIdent ts := by
  match ts with
  | [] => rfl
  | t :: _ => cases t <;> rfl

@[simp] theorem isLifetime_behind (ts : List Token) :
    isLifetime (tail.behind ts) = isLifetime ts := by
  match ts with
  | [] => rfl
  | t :: _ => cases t <;> rfl

@[simp] theorem isGroup_behind (d : Delimiter) (ts : List Token) :
    isGroup d (tail.behind ts) = isGroup d ts := by
  match ts with
  | [] => rfl
  | t :: _ => cases t <;> rfl

@[simp] theorem isLiteral_behind (ts : List Token) : isLiteral (tail.behind ts) = isLiteral ts := by
  match ts with
  | [] => rfl
  | [.punct c joint] => by_cases hc : c = '-' <;> simp [CommaTail.behind, isLiteral, hc]
  | .punct c joint :: t :: ts =>
    by_cases hc : c = '-' <;> cases t <;> simp [CommaTail.behind, isLiteral, hc]
  | .ident i :: ts => rfl
  | .lifetime i :: ts => rfl
  | .literal text :: ts => rfl
  | .group d body :: ts => rfl

/-- In front of `ts`, the first parser reads what the second reads where the comma follows. -/
def Mirrors (tail : CommaTail) (ts : List Token) (p q : Parser α) : Prop :=
  ∀ c a c', c.ahead = ts → p.run c = some (a, c') →
    q.run (c.before tail) = some (a, c'.before tail)

/-- Where the parser reads something, it reads the same if the comma follows. -/
def Stable (tail : CommaTail) (p : Parser α) : Prop := ∀ ts, Mirrors tail ts p p

section

variable {p q : Parser α} {f g : α → Parser β}

theorem Fails.mirrors (hp : p.Fails ts) (q : Parser α) : Mirrors tail ts p q := by
  intro c a c' hc hrun
  rw [hp c hc] at hrun
  cases hrun

/-- What is known of the first parser's run may be used for what comes next. -/
theorem Mirrors.bind_run (hp : Mirrors tail ts p q)
    (hf : ∀ c a c', c.ahead = ts → p.run c = some (a, c') →
      Mirrors tail c'.ahead (f a) (g a)) : Mirrors tail ts (p >>= f) (q >>= g) := by
  intro c b c'' hc hrun
  obtain ⟨⟨a, c'⟩, ha, hb⟩ := Option.bind_eq_some_iff.mp hrun
  refine Option.bind_eq_some_iff.mpr ⟨(a, c'.before tail), hp c a c' hc ha, ?_⟩
  exact hf c a c' hc ha c' b c'' rfl hb

theorem Mirrors.bind (hp : Mirrors tail ts p q) (hf : ∀ a us, Mirrors tail us (f a) (g a)) :
    Mirrors tail ts (p >>= f) (q >>= g) :=
  hp.bind_run fun _ a c' _ _ => hf a c'.ahead

theorem Mirrors.bind_le (hp : Mirrors tail ts p q)
    (hf : ∀ a us, us.length ≤ ts.length → Mirrors tail us (f a) (g a)) :
    Mirrors tail ts (p >>= f) (q >>= g) :=
  hp.bind_run fun _ a c' hc hrun => hf a c'.ahead (hc ▸ (p.takesFront hrun).length_le)

/-- What comes next begins with fewer tokens in front. -/
theorem Mirrors.bind_takes (hp : Mirrors tail ts p q) (htakes : p.Takes)
    (hf : ∀ a us, us.length < ts.length → Mirrors tail us (f a) (g a)) :
    Mirrors tail ts (p >>= f) (q >>= g) :=
  hp.bind_run fun c a c' hc hrun => hf a c'.ahead (hc ▸ htakes c a c' hrun)

theorem Mirrors.bind_option {p q : Parser (Option α)} {f g : Option α → Parser β}
    (hp : Mirrors tail ts p q) (hsome : ∀ a us, Mirrors tail us (f (some a)) (g (some a)))
    (hnone : ∀ us, Mirrors tail us (f none) (g none)) : Mirrors tail ts (p >>= f) (q >>= g) := by
  refine hp.bind fun a us => ?_
  cases a with
  | none => exact hnone us
  | some a => exact hsome a us

theorem mirrors_ite {b : Prop} [Decidable b] {p' q' : Parser α} (hp : b → Mirrors tail ts p p')
    (hq : ¬ b → Mirrors tail ts q q') :
    Mirrors tail ts (if b then p else q) (if b then p' else q') := by
  split
  case isTrue h => exact hp h
  case isFalse h => exact hq h

/-- What is read where the tokens end is read before a comma as well. -/
theorem Stable.reads {us : List Token} {Q : α → Prop} (hp : p.Stable tail) (h : p.Reads ts us Q) :
    p.Reads (tail.behind ts) (tail.behind us) Q := by
  rintro ⟨ahead, written, altered, unread⟩ rfl
  obtain ⟨a, c', hrun, ha, hahead, hunread⟩ := h ⟨ts, written, altered, unread⟩ rfl
  refine ⟨a, c'.before tail, hp ts _ a c' rfl hrun, ha, ?_, hunread⟩
  rw [← hahead]
  rfl

theorem Stable.bind (hp : p.Stable tail) (hf : ∀ a, (f a).Stable tail) : (p >>= f).Stable tail :=
  fun ts => (hp ts).bind hf

theorem Stable.map (hp : p.Stable tail) (f : α → β) : (f <$> p).Stable tail :=
  hp.bind fun _ _ c _ _ _ hrun => by cases hrun; rfl

theorem stable_pure (a : α) : (pure a : Parser α).Stable tail := by
  intro ts c b c' _ hrun
  cases hrun
  rfl

/-- What has been read is handed on in another form. -/
theorem Mirrors.returns {f : α → β} (hp : Mirrors tail ts p q) :
    Mirrors tail ts (p >>= fun a => pure (f a)) (q >>= fun a => pure (f a)) :=
  hp.bind fun a => stable_pure (f a)

theorem Stable.returns {f : α → β} (hp : p.Stable tail) :
    (p >>= fun a => pure (f a)).Stable tail :=
  fun ts => (hp ts).returns

theorem stable_failure : (failure : Parser α).Stable tail := fun ts => (fails_failure ts).mirrors _

theorem stable_ite {b : Prop} [Decidable b] (hp : b → p.Stable tail) (hq : ¬ b → q.Stable tail) :
    (if b then p else q).Stable tail := by
  split
  case isTrue h => exact hp h
  case isFalse h => exact hq h

theorem Stable.branch {b : Parser Bool} (hb : b.Stable tail) (hp : p.Stable tail)
    (hq : q.Stable tail) : (b >>= fun sees => if sees then p else q).Stable tail :=
  hb.bind fun _ => stable_ite (fun _ => hp) fun _ => hq

theorem stable_guard (b : Prop) [Decidable b] : (guard b : Parser Unit).Stable tail :=
  stable_ite (fun _ => stable_pure ()) fun _ => stable_failure

/-- What has been written is changed in a way that does not hang on what is in front. -/
theorem stable_rewrite {f : Cursor → Cursor}
    (h : ∀ c : Cursor, { f (c.before tail) with ahead := tail.behind c.ahead } =
      ({ f c with ahead := c.ahead } : Cursor).before tail) : (rewrite f).Stable tail := by
  intro ts c a c' _ hrun
  cases hrun
  exact congrArg (fun c => some ((), c)) (h c)

theorem mirrors_rewrite_bind {f : Cursor → Cursor} {next next' : Unit → Parser β}
    (h : ∀ c : Cursor, { f (c.before tail) with ahead := tail.behind c.ahead } =
      ({ f c with ahead := c.ahead } : Cursor).before tail)
    (hnext : Mirrors tail ts (next ()) (next' ())) :
    Mirrors tail ts (rewrite f >>= next) (rewrite f >>= next') := by
  refine (stable_rewrite h ts).bind_run ?_
  rintro c a c' rfl hrun
  cases hrun
  exact hnext

theorem stable_rewrite_bind {f : Cursor → Cursor} {next : Unit → Parser β}
    (h : ∀ c : Cursor, { f (c.before tail) with ahead := tail.behind c.ahead } =
      ({ f c with ahead := c.ahead } : Cursor).before tail) (hnext : (next ()).Stable tail) :
    (rewrite f >>= next).Stable tail :=
  fun ts => mirrors_rewrite_bind h (hnext ts)

theorem stable_write (us : List Token) : (write us).Stable tail := stable_rewrite fun _ => rfl

theorem mirrors_cursor_bind {f g : Cursor → Parser β}
    (hf : ∀ c : Cursor, Mirrors tail ts (f c) (g (c.before tail))) :
    Mirrors tail ts (cursor >>= f) (cursor >>= g) :=
  fun c a c' hc hrun => hf c c a c' hc hrun

/-- What is done with the cursor does not hang on the tokens in front of it. -/
theorem stable_cursor_bind {f : Cursor → Parser β} (hf : ∀ c : Cursor, f (c.before tail) = f c)
    (h : ∀ c, (f c).Stable tail) : (cursor >>= f).Stable tail :=
  fun ts => mirrors_cursor_bind fun c => (hf c).symm ▸ h c ts

theorem mirrors_ahead_bind {f g : List Token → Parser β}
    (h : Mirrors tail ts (f ts) (g (tail.behind ts))) :
    Mirrors tail ts (ahead >>= f) (ahead >>= g) := by
  rintro c a c' rfl hrun
  exact h c a c' rfl hrun

theorem stable_ahead_bind {f : List Token → Parser β} (hf : Blind tail f)
    (h : ∀ ts, (f ts).Stable tail) : (ahead >>= f).Stable tail :=
  fun ts => mirrors_ahead_bind ((hf ts).symm ▸ h ts ts)

theorem mirrors_sees_bind {test : List Token → Bool} {f g : Bool → Parser β}
    (h : Mirrors tail ts (f (test ts)) (g (test (tail.behind ts)))) :
    Mirrors tail ts (sees test >>= f) (sees test >>= g) := by
  rintro c a c' rfl hrun
  exact h c a c' rfl hrun

theorem stable_sees {test : List Token → Bool} (h : Blind tail test) : (sees test).Stable tail :=
  stable_ahead_bind (fun ts => congrArg pure (h ts)) fun ts => stable_pure (test ts)

theorem stable_require {test : List Token → Bool} (h : Blind tail test) :
    (require test).Stable tail :=
  stable_ahead_bind (fun ts => by rw [h ts]) fun _ => stable_guard _

theorem mirrors_require_bind {test : List Token → Bool} {f : Unit → Parser β}
    (h : test ts → test (tail.behind ts) ∧ Mirrors tail ts (f ()) (f ())) :
    Mirrors tail ts (require test >>= f) (require test >>= f) := by
  rintro c a c' rfl hrun
  rw [run_require_bind] at hrun ⊢
  split at hrun
  case isTrue htest =>
    obtain ⟨hbehind, hf⟩ := h htest
    exact (if_pos hbehind).trans (hf c a c' rfl hrun)
  case isFalse => cases hrun

/-- Tokens are taken only where there are as many. -/
theorem mirrors_skip {n : Nat} (h : n ≤ ts.length) : Mirrors tail ts (skip n) (skip n) := by
  rintro c a c' rfl hrun
  cases hrun
  simp [skip, Cursor.before, drop_behind h]

theorem mirrors_copy {n : Nat} (h : n ≤ ts.length) : Mirrors tail ts (copy n) (copy n) := by
  have htake : (tail.behind ts).take n = ts.take n := List.take_append_of_le_length h
  refine mirrors_ahead_bind ((mirrors_skip h).bind fun _ _ => ?_)
  rw [htake]
  exact stable_write _ _

theorem stable_operator (op : String) : (operator op).Stable tail := by
  refine fun ts => mirrors_require_bind fun h => ⟨isOperator_append h _, ?_⟩
  exact (mirrors_skip (length_le_of_isOperator h)).bind fun _ _ => stable_write _ _

theorem stable_word (w : String) : (word w).Stable tail := by
  refine fun ts => mirrors_require_bind fun h => ⟨(isWord_behind w ts).trans h, ?_⟩
  exact mirrors_copy (length_pos_of_sees rfl h)

theorem stable_operator? {op : String} (h : ',' ∉ op.toList) : (operator? op).Stable tail :=
  (stable_sees (isOperator_behind h)).branch (stable_operator op).returns (stable_pure false)

theorem stable_word? (w : String) : (word? w).Stable tail :=
  (stable_sees (isWord_behind w)).branch (stable_word w).returns (stable_pure false)

theorem Stable.ifSees {test : List Token → Bool} (htest : Blind tail test) (hp : p.Stable tail) :
    (ifSees test p).Stable tail :=
  (stable_sees htest).branch (hp.map some) (stable_pure none)

theorem stable_next : next.Stable tail := by
  rintro ts c t c' rfl hrun
  obtain ⟨ahead, written, altered, unread⟩ := c
  cases ahead with
  | nil => cases hrun
  | cons u us =>
    cases hrun
    rfl

theorem stable_anyIdent : anyIdent.Stable tail := by
  refine stable_next.bind fun t => ?_
  cases t with
  | ident i => exact (stable_write _).returns
  | _ => exact stable_failure

theorem stable_ident : ident.Stable tail :=
  stable_anyIdent.bind fun _ => (stable_guard _).returns

theorem stable_lifetime : lifetime.Stable tail := by
  refine stable_next.bind fun t => ?_
  cases t with
  | lifetime i => exact (stable_write _).returns
  | _ => exact stable_failure

theorem stable_anyGroup : anyGroup.Stable tail := by
  refine stable_next.bind fun t => ?_
  cases t with
  | group d body => exact (stable_write _).returns
  | _ => exact stable_failure

/-- What stands in a group is read in any case to its end. -/
theorem stable_group (d : Delimiter) (p : Parser α) : (group d p).Stable tail := by
  rintro ts ⟨ahead, written, altered, unread⟩ a c' rfl hrun
  cases ahead with
  | nil => cases hrun
  | cons t ts =>
    cases t with
    | group d' body =>
      by_cases hd : d = d'
      · simp only [group, if_pos hd, Option.map_eq_some_iff] at hrun
        obtain ⟨⟨b, inner⟩, hinner, heq⟩ := hrun
        cases heq
        simp [group, Cursor.before, behind_cons, hd, hinner]
      · simp [group, hd] at hrun
    | _ => cases hrun

theorem Mirrors.withWritten (hp : Mirrors tail ts p q) :
    Mirrors tail ts (withWritten p) (withWritten q) := by
  refine mirrors_cursor_bind fun _ => mirrors_rewrite_bind (fun _ => rfl) ?_
  refine hp.bind fun a => stable_cursor_bind (fun _ => rfl) fun _ => ?_
  exact stable_rewrite_bind (fun _ => rfl) (stable_pure _)

theorem Stable.withWritten (hp : p.Stable tail) : (withWritten p).Stable tail :=
  fun ts => (hp ts).withWritten

theorem Stable.writtenAs (form : α → List Token) (hp : p.Stable tail) :
    (writtenAs form p).Stable tail := by
  refine stable_cursor_bind (fun _ => rfl) fun _ => stable_rewrite_bind (fun _ => rfl) ?_
  exact hp.bind fun a => stable_rewrite_bind (fun _ => rfl) (stable_pure a)

theorem Stable.unwritten (hp : p.Stable tail) : (unwritten p).Stable tail := by
  refine stable_cursor_bind (fun _ => rfl) fun _ => hp.bind fun a => ?_
  exact stable_rewrite_bind (fun _ => rfl) (stable_pure a)

theorem length_behind (ts : List Token) :
    (tail.behind ts).length = ts.length + (tail.rest.length + 1) := by
  simp [CommaTail.behind]

/-- The same tokens have been taken where the comma follows. -/
theorem mirrors_restoreSince (before : Cursor) :
    Mirrors tail ts (restoreSince before) (restoreSince (before.before tail)) := by
  have htaken (us : List Token) : (before.before tail).ahead.take
        ((before.before tail).ahead.length - (tail.behind us).length) =
      before.ahead.take (before.ahead.length - us.length) := by
    simp only [Cursor.before, length_behind, Nat.add_sub_add_right]
    exact List.take_append_of_le_length (Nat.sub_le _ _)
  refine mirrors_ahead_bind ?_
  rw [htaken]
  exact mirrors_rewrite_bind (fun _ => rfl) (stable_pure _ ts)

theorem Stable.verbatim (hp : p.Stable tail) : (verbatim p).Stable tail :=
  fun ts => mirrors_cursor_bind fun before =>
    (hp ts).bind fun _ _ => mirrors_restoreSince before

section

variable {more : List Token → Bool}

theorem run_whileSeesFrom_none {c : Cursor} (h : more c.ahead = false) (fuel : Nat) :
    (whileSeesFrom more p fuel).run c = some ([], c) := by
  cases fuel with
  | zero => rfl
  | succ fuel =>
    change (if more c.ahead = true then _ else pure [] : Parser (List α)).run c = _
    rw [h]
    rfl

/-- Each round takes a token, so the bounds do not matter. -/
theorem mirrors_whileSeesFrom (hmore : Blind tail more) (hend : more [] = false)
    (hp : p.Stable tail) (htakes : p.Takes) {fuel fuel' : Nat} (hfuel : ts.length ≤ fuel)
    (hfuel' : ts.length ≤ fuel') :
    Mirrors tail ts (whileSeesFrom more p fuel) (whileSeesFrom more p fuel') := by
  induction fuel generalizing fuel' ts with
  | zero =>
    rintro c as c' rfl hrun
    cases hrun
    refine run_whileSeesFrom_none ?_ fuel'
    rw [← hend, ← List.eq_nil_of_length_eq_zero (Nat.le_zero.mp hfuel)]
    exact hmore _
  | succ fuel ih =>
    cases h : more ts with
    | false =>
      rintro c as c' rfl hrun
      rw [run_whileSeesFrom_none h] at hrun
      cases hrun
      exact run_whileSeesFrom_none ((hmore _).trans h) fuel'
    | true =>
      cases fuel' with
      | zero =>
        rw [List.eq_nil_of_length_eq_zero (Nat.le_zero.mp hfuel'), hend] at h
        cases h
      | succ fuel' =>
        refine mirrors_sees_bind ?_
        rw [hmore ts]
        refine mirrors_ite (fun _ => ?_) fun _ => stable_pure [] ts
        refine (hp ts).bind_takes htakes fun a us hus => ?_
        exact (ih (by omega) (by omega)).returns

theorem Stable.whileSees (hmore : Blind tail more) (hend : more [] = false) (hp : p.Stable tail)
    (htakes : p.Takes) : (whileSees more p).Stable tail := by
  refine fun ts => mirrors_ahead_bind ?_
  refine mirrors_whileSeesFrom hmore hend hp htakes (Nat.le_refl _) ?_
  rw [length_behind]
  exact Nat.le_add_right _ _

end

section

variable {stop : List Token → Bool}

theorem mirrors_closedListFrom (hstop : Blind tail stop) (separator : String) (hp : p.Stable tail)
    {fuel fuel' : Nat} (hfuel : fuel ≤ fuel') :
    Mirrors tail ts (closedListFrom stop separator p fuel)
      (closedListFrom stop separator p fuel') := by
  induction fuel generalizing fuel' ts with
  | zero => exact (fails_failure ts).mirrors _
  | succ fuel ih =>
    cases fuel' with
    | zero => cases hfuel
    | succ fuel' =>
      refine (stable_sees hstop ts).bind fun _ us => ?_
      refine mirrors_ite (fun _ => stable_pure _ us) fun _ => (hp us).bind fun a us => ?_
      refine (stable_sees hstop us).bind fun _ us => ?_
      refine mirrors_ite (fun _ => stable_pure _ us) fun _ => ?_
      refine (stable_operator separator us).bind fun _ us => ?_
      exact (ih (Nat.le_of_succ_le_succ hfuel)).returns

theorem Stable.closedList (hstop : Blind tail stop) (separator : String) (hp : p.Stable tail) :
    (closedList stop separator p).Stable tail := by
  refine fun ts => mirrors_ahead_bind ?_
  refine (mirrors_closedListFrom hstop separator hp ?_).returns
  rw [length_behind]
  omega

/-- Where nothing is in front the list may end only with the comma: no item stands there. -/
theorem mirrors_openListFrom (hstop : ∀ t ts, stop (tail.behind (t :: ts)) = stop (t :: ts))
    (hend : stop (tail.behind []) = true) {separator : String} (hseparator : ',' ∉ separator.toList)
    (hp : p.Stable tail) (htakes : p.Takes) {fuel fuel' : Nat} (hfuel : fuel ≤ fuel') :
    Mirrors tail ts (openListFrom stop separator p fuel) (openListFrom stop separator p fuel') := by
  induction fuel generalizing fuel' ts with
  | zero => exact (fails_failure ts).mirrors _
  | succ fuel ih =>
    cases fuel' with
    | zero => cases hfuel
    | succ fuel' =>
      cases ts with
      | cons t ts =>
        refine mirrors_sees_bind ?_
        rw [hstop t ts]
        refine mirrors_ite (fun _ => stable_pure _ _) fun _ => (hp (t :: ts)).bind fun a us => ?_
        refine (stable_operator? hseparator us).bind fun _ us => ?_
        refine mirrors_ite (fun _ => ?_) fun _ => stable_pure _ us
        exact (ih (Nat.le_of_succ_le_succ hfuel)).returns
      | nil =>
        refine mirrors_sees_bind ?_
        rw [hend]
        cases stop [] with
        | true => exact stable_pure _ []
        | false => exact (htakes.bind_left _).fails_nil.mirrors _

theorem Stable.openList (hstop : ∀ t ts, stop (tail.behind (t :: ts)) = stop (t :: ts))
    (hend : stop (tail.behind []) = true) {separator : String} (hseparator : ',' ∉ separator.toList)
    (hp : p.Stable tail) (htakes : p.Takes) : (openList stop separator p).Stable tail := by
  refine fun ts => mirrors_ahead_bind ?_
  refine (mirrors_openListFrom hstop hend hseparator hp htakes ?_).returns
  rw [length_behind]
  omega

end

end

end Parser

end RowFactory
