import RowFactory.Proofs.Stable.Types
import RowFactory.Source.PatternGrammar

namespace RowFactory

open RowFactory.Parser

section

variable {tail : CommaTail}

theorem beforeAlternative_behind : Blind tail beforeAlternative := fun ts => by
  simp [beforeAlternative]

theorem startsPathPattern_behind : Blind tail startsPathPattern := by
  intro ts
  have hname := and_drop_behind tail ts isIdent_behind (g := fun after =>
    isOperator "::" after || isOperator "!" after || isGroup .brace after ||
      isGroup .paren after || isOperator ".." after) (fun ts => by simp) (length_pos_of_sees rfl)
  have hself := and_drop_behind tail ts (isWord_behind "self") (g := isOperator "::")
    (isOperator_behind (by decide)) (length_pos_of_sees rfl)
  unfold startsPathPattern
  dsimp only
  rw [hname, hself, isOperator_behind (by decide), isOperator_behind (by decide)]
  simp only [isWord_behind]

/-- At the end of the tokens there is no end of a range, and there is none before a comma. -/
theorem endsPatternRange_behind : Blind tail endsPatternRange := by
  intro ts
  cases ts with
  | nil => rfl
  | cons t ts =>
    have hcomma : isOperator "," (tail.behind (t :: ts)) = isOperator "," (t :: ts) := by
      cases t <;> rfl
    simp (disch := decide) only [endsPatternRange, isOperator_behind, isWord_behind, hcomma]
    rfl

end

namespace Parser

variable {tail : CommaTail}

theorem stable_patternDots : patternDots.Stable tail := by
  refine fun ts => mirrors_sees_bind ?_
  rw [isOperator_behind (by decide)]
  refine mirrors_ite (fun h => ?_) fun _ => ?_
  · refine (mirrors_skip (length_le_of_isOperator h)).bind fun _ us => ?_
    exact (stable_write _ us).returns
  · refine (stable_operator? (by decide) ts).bind fun _ us => ?_
    refine mirrors_ite (fun _ => stable_pure _ us) fun _ => ?_
    exact (stable_operator _ us).returns

theorem stable_position : position.Stable tail := by
  refine stable_next.bind fun t => ?_
  cases t with
  | literal text =>
    dsimp only
    split
    · exact stable_write _
    · exact stable_failure
  | _ => exact stable_failure

theorem stable_fieldName : fieldName.Stable tail := by
  refine (stable_sees isAnyIdent_behind).branch ?_ ?_
  · exact stable_ident.returns
  · exact stable_position.returns

end Parser

namespace Grammar

variable {g : Grammar} {tail : CommaTail}

theorem stable_valuePath (hg : g.StableBefore tail) : g.valuePath.Stable tail :=
  (stable_anyPath hg true).writtenAs _

theorem stable_alternatives (hg : g.StableBefore tail) : g.alternatives.Stable tail := by
  refine (stable_operator? (by decide)).bind fun _ => hg.pattern.bind fun _ => ?_
  refine Stable.returns (Stable.whileSees beforeAlternative_behind rfl ?_ ?_)
  · exact (stable_operator _).bind fun _ => hg.pattern
  · exact (takes_operator (by decide)).bind_left _

theorem stable_patternEnd (hg : g.StableBefore tail) : g.patternEnd.Stable tail := by
  unfold patternEnd
  refine stable_ahead_bind (fun ts => ?_) fun ts => stable_ite (fun _ => stable_pure _) fun _ => ?_
  · simp only [endsPatternRange_behind ts, isLiteral_behind, isWord_behind]
  have hend : Stable tail (pure true) := stable_pure true
  refine stable_ite (fun _ => stable_literalValue.bind fun _ => hend) fun _ => ?_
  refine stable_ite (fun _ => (stable_word _).bind fun _ => ?_) fun _ => ?_
  · exact (stable_group _ _).bind fun _ => hend
  · refine (stable_require fun ts => ?_).bind fun _ => (stable_valuePath hg).bind fun _ => hend
    simp (disch := decide) only [startsPath_behind ts, isOperator_behind]

theorem stable_patternRest (hg : g.StableBefore tail) : g.patternRest.Stable tail := by
  refine (stable_sees (isOperator_behind (by decide))).branch ?_ (stable_pure _)
  refine stable_patternDots.bind fun _ => (stable_patternEnd hg).bind fun _ => ?_
  exact (stable_guard _).returns

theorem stable_patternTail (hg : g.StableBefore tail) : g.patternTail.Stable tail := by
  refine (stable_require fun ts => ?_).bind fun _ => stable_patternDots.bind fun _ => ?_
  · exact congrArg (! ·) (isOperator_behind (by decide) ts)
  · exact (stable_patternEnd hg).bind fun _ => (stable_guard _).returns

theorem stable_pathPattern (hg : g.StableBefore tail) : g.pathPattern.Stable tail := by
  refine (stable_valuePath hg).bind fun path => stable_ahead_bind (fun ts => ?_) fun ts => ?_
  · simp (disch := decide) only [isOperator_behind, isGroup_behind]
  refine stable_ite (fun _ => stable_callArguments.returns) fun _ => ?_
  refine stable_ite (fun _ => (stable_group _ _).returns) fun _ => ?_
  refine stable_ite (fun _ => (stable_group _ _).returns) fun _ => ?_
  exact stable_patternRest hg

theorem stable_namePattern (hg : g.StableBefore tail) : g.namePattern.Stable tail := by
  refine (stable_word? _).bind fun _ => (stable_word? _).bind fun _ => ?_
  have hend : Stable tail (do if ← operator? "@" then let _ ← g.pattern) := by
    refine (stable_operator? (by decide)).branch ?_ ?_
    · exact hg.pattern.returns
    · exact stable_pure _
  refine (stable_sees (isWord_behind _)).branch ?_ ?_
  · exact (stable_word _).bind fun _ => hend
  · exact stable_ident.bind fun _ => hend

theorem stable_onePattern (hg : g.StableBefore tail) : g.onePattern.Stable tail := by
  refine stable_ahead_bind (fun ts => ?_) fun ts => ?_
  · dsimp only
    rw [startsPathPattern_behind ts, isLiteral_behind, isOperator_behind (by decide),
      isWord_behind, isOperator_behind (by decide), isWord_behind, isWord_behind,
      isOperator_behind (by decide), isGroup_behind, isGroup_behind]
  refine stable_ite (fun _ => stable_pathPattern hg) fun _ => ?_
  refine stable_ite (fun _ => stable_literalValue.bind fun _ => stable_patternRest hg) fun _ => ?_
  refine stable_ite (fun _ => (stable_word _).bind fun _ => ?_) fun _ => ?_
  · exact (stable_group _ _).bind fun _ => stable_patternRest hg
  refine stable_ite (fun _ => stable_patternTail hg) fun _ => ?_
  have hend : Stable tail (pure false) := stable_pure false
  refine stable_ite (fun _ => (stable_word _).bind fun _ => hend) fun _ => ?_
  refine stable_ite (fun _ => Stable.bind (Stable.verbatim ?_) fun _ => hend) fun _ => ?_
  · exact (stable_word _).bind fun _ => hg.pattern
  refine stable_ite (fun _ => (stable_operator _).bind fun _ => ?_) fun _ => ?_
  · exact (stable_word? _).bind fun _ => hg.pattern.bind fun _ => hend
  refine stable_ite (fun _ => (stable_group _ _).bind fun _ => hend) fun _ => ?_
  refine stable_ite (fun _ => (stable_group _ _).bind fun _ => hend) fun _ => ?_
  exact (stable_namePattern hg).bind fun _ => hend

end Grammar

end RowFactory
