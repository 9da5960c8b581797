import RowFactory.Proofs.Source.Reads

namespace RowFactory

namespace Parser

variable {α β : Type} {ts : List Token}

/-- The tokens of an operator make it, whatever stands behind them. -/
theorem exists_of_startsOperator {cs : List Char} (h : startsOperator cs ts) :
    ∃ us vs, ts = us ++ vs ∧ us.length = cs.length ∧ ∀ ws, startsOperator cs (us ++ ws) := by
  induction cs generalizing ts with
  | nil => exact ⟨[], ts, rfl, rfl, fun ws => by simp [startsOperator]⟩
  | cons c cs ih =>
    match cs, ts with
    | [], [] => cases h
    | [], t :: ts =>
      refine ⟨[t], ts, rfl, rfl, fun ws => ?_⟩
      cases t with
      | punct d joint => exact h
      | _ => cases h
    | _ :: _, [] => cases h
    | d :: cs, .punct e true :: ts =>
      simp only [startsOperator, Bool.and_eq_true, decide_eq_true_eq] at h
      obtain ⟨us, vs, rfl, hlength, hstarts⟩ := ih h.2
      refine ⟨.punct e true :: us, vs, rfl, congrArg (· + 1) hlength, fun ws => ?_⟩
      simp [startsOperator, h.1, hstarts ws]
    | _ :: _, .punct e false :: ts => cases h
    | _ :: _, .ident i :: ts | _ :: _, .lifetime i :: ts | _ :: _, .literal i :: ts
    | _ :: _, .group i body :: ts => cases h

theorem length_le_of_isOperator {op : String} (h : isOperator op ts) : op.length ≤ ts.length := by
  obtain ⟨us, vs, rfl, hlength, -⟩ := exists_of_startsOperator h
  rw [← String.length_toList, ← hlength, List.length_append]
  exact Nat.le_add_right _ _

/-- An operator stands in front whatever is added at the end. -/
theorem isOperator_append {op : String} (h : isOperator op ts) (ws : List Token) :
    isOperator op (ts ++ ws) := by
  obtain ⟨us, vs, rfl, -, hstarts⟩ := exists_of_startsOperator h
  rw [List.append_assoc]
  exact hstarts _

/-- What a test sees needs a token. -/
theorem length_pos_of_sees {test : List Token → Bool} (hend : test [] = false) (h : test ts) :
    1 ≤ ts.length := by
  cases ts with
  | nil => simp [hend] at h
  | cons t ts => exact Nat.le_add_left 1 _

/-- In front of these tokens the parser reads nothing. -/
def Fails (p : Parser α) (ts : List Token) : Prop := ∀ c, c.ahead = ts → p.run c = none

/-- The parser takes at least one token. -/
def Takes (p : Parser α) : Prop :=
  ∀ c a c', p.run c = some (a, c') → c'.ahead.length < c.ahead.length

section

variable {p q : Parser α} {f : α → Parser β}

theorem Takes.bind_left (hp : p.Takes) (f : α → Parser β) : (p >>= f).Takes := by
  intro c b c'' hrun
  obtain ⟨⟨a, c'⟩, ha, hb⟩ := Option.bind_eq_some_iff.mp hrun
  exact Nat.lt_of_le_of_lt ((f a).takesFront hb).length_le (hp c a c' ha)

theorem Takes.bind_right (p : Parser α) (hf : ∀ a, (f a).Takes) : (p >>= f).Takes := by
  intro c b c'' hrun
  obtain ⟨⟨a, c'⟩, ha, hb⟩ := Option.bind_eq_some_iff.mp hrun
  exact Nat.lt_of_lt_of_le (hf a c' b c'' hb) (p.takesFront ha).length_le

theorem takes_failure : (failure : Parser α).Takes := nofun

theorem takes_ite {b : Prop} [Decidable b] (hp : b → p.Takes) (hq : ¬ b → q.Takes) :
    (if b then p else q).Takes := by
  split
  case isTrue h => exact hp h
  case isFalse h => exact hq h

/-- There is nothing to take where no token is in front. -/
theorem Takes.fails_nil (hp : p.Takes) : p.Fails [] := by
  intro c hc
  cases h : p.run c with
  | none => rfl
  | some r => simpa [hc] using hp c r.1 r.2 h

theorem fails_failure (ts : List Token) : (failure : Parser α).Fails ts := fun _ _ => rfl

theorem fails_if_false {b : Bool} {p q : Parser α} (h : b = false) (hq : q.Fails ts) :
    (if b then p else q).Fails ts := by
  rwa [if_neg (by simp [h])]

theorem Fails.bind_left (hp : p.Fails ts) (f : α → Parser β) : (p >>= f).Fails ts :=
  fun c hc => Option.bind_eq_none_iff.mpr fun r hr => by simp [hp c hc] at hr

/-- Whatever is read, what comes next fails behind it. -/
theorem Reads.fails_bind {us : List Token} {Q : α → Prop} (hp : p.Reads ts us Q)
    (hf : ∀ a, Q a → (f a).Fails us) : (p >>= f).Fails ts := by
  intro c hc
  obtain ⟨a, c', hrun, ha, hahead, -⟩ := hp c hc
  exact Option.bind_eq_none_iff.mpr fun r hr => by
    rw [← Option.some.inj (hrun.symm.trans hr)]
    exact hf a ha c' hahead

theorem Reads.bind_fails {us : List Token} {a : α} (hp : p.Reads ts us (· = a))
    (hf : (f a).Fails us) : (p >>= f).Fails ts :=
  hp.fails_bind fun _ h => h ▸ hf

theorem reads_attempt_none (hp : p.Fails ts) : (attempt p).Reads ts ts (· = none) :=
  fun c hc => ⟨none, c, by simp only [attempt, hp c hc], rfl, hc, rfl⟩

/-- Where it is known what the first parser reads, the run goes on behind it. -/
theorem Reads.run_of_bind {us : List Token} {a : α} (hp : p.Reads ts us (· = a)) {c : Cursor}
    {r : β × Cursor} (hc : c.ahead = ts) (hrun : (p >>= f).run c = some r) :
    ∃ c', c'.ahead = us ∧ (f a).run c' = some r := by
  obtain ⟨b, c', hread, rfl, hahead, -⟩ := hp c hc
  obtain ⟨r', hr', hf⟩ := Option.bind_eq_some_iff.mp hrun
  obtain rfl := Option.some.inj (hread.symm.trans hr')
  exact ⟨c', hahead, hf⟩

theorem Fails.writtenAs (form : α → List Token) (hp : p.Fails ts) :
    (Parser.writtenAs form p).Fails ts := by
  intro c hc
  change Option.bind (p.run { c with written := [] }) _ = none
  rw [hp { c with written := [] } hc]
  rfl

theorem guard_eq_ite (b : Prop) [Decidable b] :
    (guard b : Parser Unit) = if b then pure () else failure := rfl

theorem fails_require {test : List Token → Bool} (h : test ts = false) :
    (require test).Fails ts := by
  refine Reads.bind_fails (a := ts) reads_ahead ?_
  rw [guard_eq_ite, if_neg (by simp [h])]
  exact fails_failure ts

theorem run_require_bind (test : List Token → Bool) (f : Unit → Parser β) (c : Cursor) :
    (require test >>= f).run c = if test c.ahead then (f ()).run c else none := by
  change (((guard (test c.ahead) : Parser Unit) >>= f).run c) = _
  by_cases h : test c.ahead = true
  · rw [if_pos h, guard_eq_ite, if_pos h]
    rfl
  · rw [if_neg h, guard_eq_ite, if_neg h]
    rfl

theorem ahead_of_run_operator {op : String} {c c' : Cursor} {u : Unit}
    (h : (operator op).run c = some (u, c')) :
    isOperator op c.ahead ∧ c'.ahead = c.ahead.drop op.length := by
  rw [operator, run_require_bind] at h
  split at h
  case isTrue htest =>
    cases h
    exact ⟨htest, rfl⟩
  case isFalse => cases h

theorem takes_operator {op : String} (h : 0 < op.length) : (operator op).Takes := by
  intro c u c' hrun
  obtain ⟨htest, hahead⟩ := ahead_of_run_operator hrun
  have hlength := length_le_of_isOperator htest
  rw [hahead, List.length_drop]
  omega

theorem ahead_of_run_word {w : String} {c c' : Cursor} {u : Unit}
    (h : (word w).run c = some (u, c')) : isWord w c.ahead ∧ c'.ahead = c.ahead.drop 1 := by
  rw [word, run_require_bind] at h
  split at h
  case isTrue htest =>
    cases h
    exact ⟨htest, rfl⟩
  case isFalse => cases h

theorem takes_word (w : String) : (word w).Takes := by
  intro c u c' hrun
  obtain ⟨htest, hahead⟩ := ahead_of_run_word hrun
  have hlength := length_pos_of_sees rfl htest
  rw [hahead, List.length_drop]
  omega

theorem takes_operator?_bind {op : String} {f : Bool → Parser β} (h : 0 < op.length)
    (hf : (f false).Takes) : (operator? op >>= f).Takes := by
  intro c b c' hrun
  change (((if isOperator op c.ahead then operator op >>= fun _ => pure true else pure false) >>=
    f : Parser β).run c) = _ at hrun
  split at hrun
  case isTrue => exact ((takes_operator h).bind_left _).bind_left f c b c' hrun
  case isFalse => exact hf c b c' hrun

theorem takes_next : next.Takes := by
  intro c t c' hrun
  obtain ⟨ahead, written, altered, unread⟩ := c
  cases ahead with
  | nil => cases hrun
  | cons u us =>
    cases hrun
    exact Nat.lt_succ_self _

theorem takes_anyIdent : anyIdent.Takes := takes_next.bind_left _

theorem takes_ident : ident.Takes := takes_anyIdent.bind_left _

theorem takes_lifetime : lifetime.Takes := takes_next.bind_left _

theorem fails_anyIdent (h : isAnyIdent ts = false) : anyIdent.Fails ts := by
  rintro ⟨ahead, written, altered, unread⟩ rfl
  cases ahead with
  | nil => rfl
  | cons t ts =>
    cases t with
    | ident i => cases h
    | _ => rfl

theorem takes_group (d : Delimiter) (p : Parser α) : (group d p).Takes := by
  rintro ⟨ahead, written, altered, unread⟩ a c' hrun
  cases ahead with
  | nil => cases hrun
  | cons t ts =>
    cases t with
    | group d' body =>
      by_cases hd : d = d'
      · simp only [group, if_pos hd, Option.map_eq_some_iff] at hrun
        obtain ⟨⟨b, inner⟩, -, heq⟩ := hrun
        cases heq
        exact Nat.lt_succ_self _
      · simp [group, hd] at hrun
    | _ => cases hrun

theorem ahead_of_run_group {d : Delimiter} {body rest : List Token} {c c' : Cursor} {a : α}
    (hc : c.ahead = .group d body :: rest) (hrun : (group d p).run c = some (a, c')) :
    c'.ahead = rest := by
  obtain ⟨ahead, written, altered, unread⟩ := c
  obtain rfl : ahead = .group d body :: rest := hc
  simp only [Parser.group, if_true] at hrun
  obtain ⟨r, -, heq⟩ := Option.map_eq_some_iff.mp hrun
  cases heq
  rfl

theorem ahead_of_run_guard {b : Prop} [Decidable b] {c c' : Cursor} {u : Unit}
    (hrun : (guard b : Parser Unit).run c = some (u, c')) : c'.ahead = c.ahead := by
  by_cases h : b
  · rw [guard_eq_ite, if_pos h] at hrun
    cases hrun
    rfl
  · rw [guard_eq_ite, if_neg h] at hrun
    cases hrun

theorem Fails.group {body : List Token} (d : Delimiter) (hp : p.Fails body) (rest : List Token) :
    (Parser.group d p).Fails (.group d body :: rest) := by
  rintro ⟨ahead, written, altered, unread⟩ rfl
  simp [Parser.group, hp (.start body) rfl]

theorem Takes.withWritten (hp : p.Takes) : (Parser.withWritten p).Takes :=
  Takes.bind_right _ fun _ => Takes.bind_right _ fun _ => hp.bind_left _

theorem Takes.writtenAs (form : α → List Token) (hp : p.Takes) : (Parser.writtenAs form p).Takes :=
  Takes.bind_right _ fun _ => Takes.bind_right _ fun _ => hp.bind_left _

theorem Takes.unwritten (hp : p.Takes) : (Parser.unwritten p).Takes :=
  Takes.bind_right _ fun _ => hp.bind_left _

end

end Parser

end RowFactory
