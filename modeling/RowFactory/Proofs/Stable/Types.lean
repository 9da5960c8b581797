import RowFactory.Proofs.Stable.Basic
import RowFactory.Source.GenericsGrammar

namespace RowFactory

open RowFactory.Parser

namespace Parser

variable {α β : Type} {tail : CommaTail} {ts : List Token}

/-- A second test looks behind tokens that a first one has seen. -/
theorem and_drop_behind (tail : CommaTail) (ts : List Token) {f g : List Token → Bool} {n : Nat}
    (hf : Blind tail f) (hg : Blind tail g) (hlength : f ts → n ≤ ts.length) :
    (f (tail.behind ts) && g ((tail.behind ts).drop n)) = (f ts && g (ts.drop n)) := by
  rw [hf ts]
  cases h : f ts with
  | false => rfl
  | true => rw [drop_behind (hlength h), hg]

/-- Something is left behind the minus of a literal. -/
theorem length_pos_of_isLiteral {c c' : Cursor} {minus : Bool} (h : isLiteral c.ahead)
    (hrun : (operator? "-").run c = some (minus, c')) : 1 ≤ c'.ahead.length := by
  obtain ⟨ahead, written, altered, unread⟩ := c
  match ahead with
  | [] => cases h
  | .ident i :: ts | .lifetime i :: ts | .group d body :: ts | .literal text :: ts =>
    cases hrun
    exact Nat.le_add_left 1 _
  | .punct c joint :: ts =>
    by_cases hc : c = '-'
    · subst hc
      match ts with
      | [] => cases h
      | t :: ts =>
        cases hrun
        exact Nat.le_add_left 1 _
    · simp [isLiteral, hc] at h

theorem stable_literalValue : literalValue.Stable tail := by
  refine fun ts => mirrors_require_bind fun h => ⟨(isLiteral_behind ts).trans h, ?_⟩
  refine Mirrors.returns (Mirrors.withWritten ?_)
  refine (stable_operator? (by decide) ts).bind_run fun c minus c' hc hrun => ?_
  exact mirrors_copy (length_pos_of_isLiteral (hc ▸ h) hrun)

theorem stable_abi : abi.Stable tail := by
  refine (stable_word _).bind fun _ ts => mirrors_ahead_bind ?_
  match ts with
  | [] => exact stable_pure none []
  | t :: ts =>
    cases t with
    | literal text =>
      refine mirrors_ite (fun _ => ?_) fun _ => stable_pure none _
      exact (mirrors_copy (by simp)).returns
    | _ => exact stable_pure none _

theorem stable_abi? : abi?.Stable tail := Stable.ifSees (isWord_behind _) stable_abi

theorem stable_callArguments : callArguments.Stable tail :=
  (stable_operator _).bind fun _ => stable_anyGroup

end Parser

section

variable {tail : CommaTail}

theorem isBareSegment_behind : Blind tail isBareSegment := fun ts => by simp [isBareSegment]

theorem beforeRound_behind : Blind tail beforeRound := by
  intro ts
  have hcolons := and_drop_behind tail ts (f := isOperator "::") (isOperator_behind (by decide))
    (isGroup_behind .paren) length_le_of_isOperator
  simp only [beforeRound, isGroup_behind]
  exact congrArg (isGroup .paren ts || ·) hcolons

theorem beforeAngle_behind (inExpr : Bool) : Blind tail (beforeAngle inExpr) := by
  intro ts
  have hcolons := and_drop_behind tail ts (f := isOperator "::") (g := isOperator "<")
    (isOperator_behind (by decide)) (isOperator_behind (by decide)) length_le_of_isOperator
  simp only [beforeAngle]
  rw [isOperator_behind (by decide), isOperator_behind (by decide), isOperator_behind (by decide)]
  exact congrArg (_ || ·) hcolons

theorem beforeSegment_behind : Blind tail beforeSegment := fun ts =>
  and_drop_behind tail ts (g := fun ts => !isGroup .paren ts) (isOperator_behind (by decide))
    (fun ts => congrArg (! ·) (isGroup_behind .paren ts)) length_le_of_isOperator

theorem startsBound_behind : Blind tail startsBound := fun ts => by simp [startsBound]

theorem startsConstant_behind : Blind tail startsConstant := fun ts => by simp [startsConstant]

theorem startsPath_behind : Blind tail startsPath := fun ts => by simp [startsPath]

theorem startsFunction_behind : Blind tail startsFunction := fun ts => by simp [startsFunction]

theorem startsBuiltin_behind : Blind tail startsBuiltin := fun ts =>
  and_drop_behind tail ts (isWord_behind _) (isOperator_behind (by decide)) (length_pos_of_sees rfl)

theorem startsOpaqueBound_behind : Blind tail Grammar.startsOpaqueBound := fun ts => by
  simp [Grammar.startsOpaqueBound, startsBound_behind ts]

end

/-- An angle bracket and one name behind it. -/
def IsLoneParam (ts : List Token) : Prop :=
  ∃ joint x, ts = [.punct '<' joint, x] ∧ (isLifetime [x] ∨ isIdent [x])

/-- The readers of nested forms read the same where a comma follows. -/
structure Grammar.StableBefore (tail : CommaTail) (g : Grammar) : Prop where
  type : ∀ plus, (g.type plus).Stable tail
  bound : g.bound.Stable tail
  bound_takes : g.bound.Takes
  param : g.param.Stable tail
  pattern : g.pattern.Stable tail
  pattern_fails : ∀ ts, IsLoneParam ts → g.pattern.Fails ts
  expr : ∀ structs level, (g.expr structs level).Stable tail

namespace Grammar

variable {g : Grammar} {tail : CommaTail}

theorem stable_outerAttribute (g : Grammar) : g.outerAttribute.Stable tail :=
  (stable_operator _).bind fun _ => (stable_group _ _).returns

theorem takes_outerAttribute (g : Grammar) : g.outerAttribute.Takes :=
  (takes_operator (by decide)).bind_left _

theorem stable_outerAttributes (g : Grammar) : g.outerAttributes.Stable tail :=
  g.stable_outerAttribute.whileSees (isOperator_behind (by decide)) rfl g.takes_outerAttribute

theorem stable_constant (g : Grammar) : g.constant.Stable tail := by
  refine Stable.returns (Stable.withWritten ?_)
  refine (stable_sees isLiteral_behind).branch ?_ ?_
  · exact stable_literalValue.returns
  · refine (stable_sees isIdent_behind).branch ?_ ?_
    · exact stable_ident.returns
    · exact (stable_group _ _).returns

theorem stable_lifetimeParam (g : Grammar) : g.lifetimeParam.Stable tail := by
  refine Stable.writtenAs _ (g.stable_outerAttributes.bind fun attrs => ?_)
  refine stable_lifetime.bind fun name => (stable_operator? (by decide)).bind fun _ => ?_
  refine stable_ite (fun _ => ?_) fun _ => stable_pure _
  refine Stable.returns (Stable.openList ?_ ?_ ?_ stable_lifetime takes_lifetime)
  · intro t ts
    cases t <;> rfl
  · cases tail; rfl
  · decide

theorem stable_binderParam (hg : g.StableBefore tail) : g.binderParam.Stable tail := by
  refine hg.param.withWritten.bind fun p => ?_
  split
  · exact stable_pure _
  · exact stable_pure _

theorem stable_binder? (hg : g.StableBefore tail) : g.binder?.Stable tail := by
  refine Stable.ifSees (isWord_behind _) ((stable_word _).bind fun _ => ?_)
  refine (stable_operator _).bind fun _ => Stable.bind ?_ fun _ => ?_
  · exact (stable_binderParam hg).closedList (isOperator_behind (by decide)) _
  · exact (stable_operator _).returns

theorem stable_output? (hg : g.StableBefore tail) (plus : Bool) : (g.output? plus).Stable tail :=
  Stable.ifSees (isOperator_behind (by decide)) ((stable_operator _).bind fun _ => hg.type plus)

theorem stable_roundArguments (hg : g.StableBefore tail) : g.roundArguments.Stable tail :=
  (stable_group _ _).bind fun _ => (stable_output? hg false).returns

theorem stable_argument (hg : g.StableBefore tail) : g.argument.Stable tail := by
  refine (stable_sees ?_).branch ?_ ?_
  · refine fun ts => and_drop_behind tail ts (g := fun ts => !isOperator "+" ts) isLifetime_behind
      (fun ts => ?_) (length_pos_of_sees rfl)
    exact congrArg (! ·) (isOperator_behind (by decide) ts)
  · exact stable_lifetime.returns
  refine (stable_sees startsConstant_behind).branch ?_ ?_
  · exact g.stable_constant.returns
  refine (hg.type true).bind fun type => ?_
  split
  case h_1 =>
    refine (stable_operator? (by decide)).branch ?_ ?_
    · refine (stable_sees startsConstant_behind).branch ?_ ?_
      · exact g.stable_constant.returns
      · exact (hg.type true).returns
    · refine (stable_operator? (by decide)).branch ?_ ?_
      · refine Stable.bind (Stable.openList ?_ rfl (by decide) hg.bound hg.bound_takes) fun _ =>
          stable_pure _
        intro t ts
        cases t <;> rfl
      · exact stable_pure _
  case h_2 => exact stable_pure _

theorem stable_angleArguments (hg : g.StableBefore tail) : g.angleArguments.Stable tail := by
  refine (stable_operator _).bind fun _ => Stable.bind ?_ fun _ => ?_
  · exact (stable_argument hg).closedList (isOperator_behind (by decide)) _
  · exact (stable_operator _).returns

theorem stable_segment (hg : g.StableBefore tail) (inExpr : Bool) :
    (g.segment inExpr).Stable tail := by
  unfold segment
  refine (stable_sees isBareSegment_behind).branch ?_ ?_
  · exact stable_anyIdent.returns
  refine (stable_sees (isWord_behind _)).bind fun _ => ?_
  extract_lets segmentEnd
  have hend (name : Ident) : (segmentEnd name).Stable tail := by
    refine (stable_sees (beforeAngle_behind _)).branch ?_ ?_
    · refine (stable_operator? (by decide)).bind fun _ => ?_
      exact (stable_angleArguments hg).returns
    · exact stable_pure _
  exact stable_ite (fun _ => stable_anyIdent.bind hend) fun _ => stable_ident.bind hend

theorem takes_segment (g : Grammar) (inExpr : Bool) : (g.segment inExpr).Takes := by
  refine Takes.bind_right _ fun _ => takes_ite (fun _ => takes_anyIdent.bind_left _) fun _ => ?_
  refine Takes.bind_right _ fun _ => takes_ite (fun _ => ?_) fun _ => ?_
  · exact takes_anyIdent.bind_left _
  · exact takes_ident.bind_left _

theorem stable_path (hg : g.StableBefore tail) (inExpr : Bool) : (g.path inExpr).Stable tail := by
  refine (stable_operator? (by decide)).bind fun _ => (stable_segment hg inExpr).bind fun _ => ?_
  refine Stable.returns (Stable.whileSees beforeSegment_behind rfl ?_ ?_)
  · exact (stable_operator _).bind fun _ => stable_segment hg inExpr
  · exact (takes_operator (by decide)).bind_left _

theorem takes_path (g : Grammar) (inExpr : Bool) : (g.path inExpr).Takes :=
  Takes.bind_right _ fun _ => (g.takes_segment inExpr).bind_left _

theorem stable_qualifiedPath (hg : g.StableBefore tail) (inExpr : Bool) :
    (g.qualifiedPath inExpr).Stable tail := by
  refine (stable_operator _).bind fun _ => (hg.type true).bind fun _ => ?_
  refine Stable.bind (Stable.ifSees (isWord_behind _) ?_) fun trait => ?_
  · exact (stable_word _).bind fun _ => stable_path hg false
  refine (stable_operator _).bind fun _ => (stable_operator _).bind fun _ => ?_
  refine (stable_segment hg inExpr).bind fun _ => Stable.bind ?_ fun _ => ?_
  · refine Stable.whileSees (isOperator_behind (by decide)) rfl ?_ ?_
    · exact (stable_operator _).bind fun _ => stable_segment hg inExpr
    · exact (takes_operator (by decide)).bind_left _
  · cases trait <;> exact stable_pure _

theorem stable_anyPath (hg : g.StableBefore tail) (inExpr : Bool) :
    (g.anyPath inExpr).Stable tail := by
  refine (stable_sees (isOperator_behind (by decide))).bind fun _ => ?_
  refine stable_ite (fun _ => stable_qualifiedPath hg inExpr) fun _ => ?_
  exact (stable_path hg inExpr).returns

theorem stable_boundPath (hg : g.StableBefore tail) : g.boundPath.Stable tail := by
  refine (stable_path hg false).withWritten.unwritten.bind fun (p, written) => ?_
  refine stable_ahead_bind (fun ts => by simp only [beforeRound_behind ts]) fun ts => ?_
  refine stable_ite (fun _ => (stable_write _).bind fun _ => ?_) fun _ => ?_
  · refine (stable_operator? (by decide)).unwritten.bind fun _ => ?_
    exact (stable_roundArguments hg).returns
  · exact (stable_write _).returns

theorem takes_boundPath (g : Grammar) : g.boundPath.Takes :=
  (g.takes_path false).withWritten.unwritten.bind_left _

theorem stable_traitBound? (hg : g.StableBefore tail) (paren const : Bool) :
    (g.traitBound? paren const).Stable tail := by
  unfold traitBound?
  refine (stable_binder? hg).bind fun binder => (stable_sees (isGroup_behind _)).bind fun _ => ?_
  extract_lets rest
  have hrest (marked : Bool) : (rest marked).Stable tail := by
    refine (stable_guard _).bind fun _ => (stable_operator? (by decide)).bind fun optional => ?_
    extract_lets named
    have hnamed (binder : Option Binder) : (named binder).Stable tail :=
      (stable_boundPath hg).bind fun _ => (stable_guard _).returns
    refine stable_ite (fun _ => (stable_binder? hg).bind hnamed) fun _ => ?_
    exact (stable_pure binder).bind hnamed
  refine stable_ite (fun _ => ?_) fun _ => (stable_word? _).bind hrest
  exact (stable_group _ _).bind fun _ => (stable_pure true).bind hrest

theorem takes_traitBound? (g : Grammar) (paren const : Bool) :
    (g.traitBound? paren const).Takes := by
  unfold traitBound?
  refine Takes.bind_right _ fun _ => Takes.bind_right _ fun _ => ?_
  extract_lets rest
  have hrest (marked : Bool) : (rest marked).Takes := by
    refine Takes.bind_right _ fun _ => Takes.bind_right _ fun optional => ?_
    extract_lets named
    have hnamed (binder : Option Binder) : (named binder).Takes :=
      g.takes_boundPath.bind_left _
    exact takes_ite (fun _ => Takes.bind_right _ hnamed) fun _ => Takes.bind_right _ hnamed
  refine takes_ite (fun _ => ?_) fun _ => Takes.bind_right _ hrest
  exact (takes_group _ _).bind_left _

theorem stable_oneBound (hg : g.StableBefore tail) (const : Bool) :
    (g.oneBound const).Stable tail := by
  unfold oneBound
  refine (stable_sees isLifetime_behind).branch ?_ ?_
  · exact stable_lifetime.returns
  intro ts
  refine mirrors_cursor_bind fun before => (stable_sees (isGroup_behind _) ts).bind fun _ us => ?_
  refine mirrors_ite (fun _ => (stable_group _ _ us).bind_option (fun b => stable_pure b) ?_)
    fun _ => (stable_traitBound? hg false const us).bind_option (fun b => stable_pure b) ?_
  all_goals exact fun _ => (mirrors_restoreSince before).returns

theorem takes_oneBound (g : Grammar) (const : Bool) : (g.oneBound const).Takes := by
  refine Takes.bind_right _ fun _ => takes_ite (fun _ => takes_lifetime.bind_left _) fun _ => ?_
  refine Takes.bind_right _ fun _ => Takes.bind_right _ fun _ => takes_ite (fun _ => ?_) fun _ => ?_
  · exact (takes_group _ _).bind_left _
  · exact (g.takes_traitBound? false const).bind_left _

theorem stable_capture : capture.Stable tail := by
  refine (stable_word _).bind fun _ => (stable_operator _).bind fun _ => Stable.bind ?_ fun _ => ?_
  · refine Stable.closedList (isOperator_behind (by decide)) _ (stable_next.bind fun t => ?_)
    cases t with
    | lifetime i => exact stable_pure _
    | ident i => exact (stable_guard _).returns
    | _ => exact stable_failure
  · exact (stable_operator _).returns

theorem stable_opaqueBound (hg : g.StableBefore tail) : g.opaqueBound.Stable tail := by
  refine (stable_sees (isWord_behind _)).branch stable_capture ?_
  exact stable_oneBound hg true

theorem takes_opaqueBound (g : Grammar) : g.opaqueBound.Takes := by
  refine Takes.bind_right _ fun _ => takes_ite (fun _ => ?_) fun _ => g.takes_oneBound true
  exact (takes_word _).bind_left _

theorem stable_boundsOf {starts : List Token → Bool} {bound : Parser Bound}
    (hstarts : Blind tail starts) (hend : starts [] = false) (hbound : bound.Stable tail)
    (htakes : bound.Takes) (plus : Bool) : (boundsOf starts bound plus).Stable tail := by
  unfold boundsOf
  refine hbound.bind fun first => stable_ahead_bind (fun ts => ?_) fun ts => ?_
  · dsimp only
    rw [isOperator_behind (by decide)]
  extract_lets rest
  have hrest (more : List Bound × Bool) : (rest more).Stable tail :=
    (stable_guard _).returns
  refine stable_ite (fun _ => (stable_operator _).bind fun _ => ?_) fun _ => ?_
  · refine Stable.bind (Stable.openList ?_ ?_ (by decide) hbound htakes) fun more => ?_
    · exact fun t ts => congrArg (! ·) (hstarts (t :: ts))
    · rw [hstarts, hend]
      rfl
    · exact (stable_pure _).bind hrest
  · exact (stable_pure _).bind hrest

theorem stable_typeBounds (hg : g.StableBefore tail) (plus : Bool) :
    (g.typeBounds plus).Stable tail :=
  stable_boundsOf startsBound_behind rfl (stable_oneBound hg false) (g.takes_oneBound false) plus

theorem stable_moreBounds (hg : g.StableBefore tail) : g.moreBounds.Stable tail := by
  refine Stable.whileSees (isOperator_behind (by decide)) rfl ?_ ?_
  · exact (stable_operator _).bind fun _ => stable_oneBound hg false
  · exact (takes_operator (by decide)).bind_left _

theorem stable_parenType (hg : g.StableBefore tail) (plus : Bool) :
    (g.parenType plus).Stable tail := by
  refine (stable_group _ _).bind fun content => ?_
  split
  case h_1 => exact (stable_moreBounds hg).returns
  case h_2 first =>
    refine stable_ahead_bind (fun ts => ?_) fun ts => stable_ite (fun _ => ?_) fun _ => ?_
    · simp (disch := decide) only [isOperator_behind]
    · split
      · exact (stable_moreBounds hg).returns
      · exact stable_pure _
    · exact stable_pure _
  case h_3 => exact stable_pure _

theorem stable_functionType (hg : g.StableBefore tail) (binder : Option Binder) :
    (g.functionType binder).Stable tail := by
  refine (stable_word? _).bind fun _ => stable_abi?.bind fun _ => (stable_word _).bind fun _ => ?_
  refine (stable_group _ _).bind fun _ => (stable_output? hg false).returns

theorem stable_pathType (hg : g.StableBefore tail) (plus : Bool) (binder : Option Binder) :
    (g.pathType plus binder).Stable tail := by
  refine (stable_anyPath hg false).bind fun type => ?_
  split
  case h_2 => exact stable_pure _
  case h_1 =>
    refine stable_ahead_bind (fun ts => ?_) fun ts => stable_ite (fun _ => ?_) fun _ => ?_
    · simp (disch := decide) only [isOperator_behind]
    · exact stable_callArguments.returns
    · refine stable_ite (fun _ => (stable_operator _).bind fun _ => ?_) fun _ => ?_
      · refine Stable.bind (Stable.openList ?_ ?_ (by decide) (stable_oneBound hg false)
          (g.takes_oneBound false)) fun _ => stable_pure _
        · exact fun t ts => congrArg (! ·) (startsBound_behind (t :: ts))
        · rw [startsBound_behind]
          rfl
      · exact stable_ite (fun _ => stable_pure _) fun _ => stable_pure _

theorem stable_markedType (hg : g.StableBefore tail) (plus : Bool) :
    (g.markedType plus).Stable tail := by
  refine fun ts => mirrors_cursor_bind fun before => (stable_word? _ ts).bind fun _ ts => ?_
  refine mirrors_ite (fun _ => ?_) fun _ => Stable.bind (stable_sees (isGroup_behind _))
    (fun _ => stable_ite (fun _ => ?_) fun _ => ?_) ts
  · refine (stable_operator? (by decide) ts).bind fun starred ts => ?_
    refine (stable_typeBounds hg plus ts).bind fun bounds ts => ?_
    refine mirrors_ite (fun _ => ?_) fun _ => ?_
    · exact (mirrors_restoreSince before).returns
    · exact stable_pure _ ts
  · exact stable_group _ _
  refine (stable_operator? (by decide)).branch ?_ ?_
  · refine (stable_word? _).bind fun mutable => ?_
    have htype : Stable tail (do return Ty.pointer mutable (← g.type false)) :=
      (hg.type false).returns
    exact stable_ite (fun _ => (stable_word _).bind fun _ => htype) fun _ => htype
  refine (stable_operator? (by decide)).branch ?_ ?_
  · refine Stable.bind (Stable.ifSees isLifetime_behind stable_lifetime) fun _ => ?_
    exact (stable_word? _).bind fun _ => (hg.type false).returns
  refine (stable_operator? (by decide)).branch (stable_pure _) ?_
  refine (stable_word? _).branch ?_ ?_
  · exact (stable_boundsOf startsOpaqueBound_behind rfl (stable_opaqueBound hg) g.takes_opaqueBound
      plus).returns
  refine (stable_word? _).branch (stable_pure _) ?_
  refine (stable_require isLifetime_behind).bind fun _ => ?_
  exact (stable_typeBounds hg true).returns

theorem stable_builtin : builtin.Stable tail := by
  refine (stable_word _).bind fun _ => (stable_operator _).bind fun _ => ?_
  refine stable_ident.bind fun _ => ?_
  refine fun ts => mirrors_require_bind fun h => ⟨(isGroup_behind _ ts).trans h, ?_⟩
  exact mirrors_copy (length_pos_of_sees rfl h)

theorem stable_oneType (hg : g.StableBefore tail) (plus : Bool) : (g.oneType plus).Stable tail := by
  refine fun ts => mirrors_cursor_bind fun before => (stable_binder? hg ts).bind fun binder ts => ?_
  refine mirrors_ahead_bind ?_
  simp (disch := decide) only [startsFunction_behind ts, startsBuiltin_behind ts, isGroup_behind,
    startsPath_behind ts, isOperator_behind]
  refine mirrors_ite (fun _ => stable_functionType hg binder ts) fun _ => mirrors_ite (fun _ => ?_)
    fun _ => mirrors_ite (fun _ => ?_) fun _ => ?_
  · refine (stable_builtin ts).bind fun _ ts => ?_
    exact (mirrors_restoreSince before).returns
  · refine (stable_require startsPath_behind ts).bind fun _ ts => ?_
    exact stable_pathType hg plus binder ts
  · refine mirrors_ite (fun _ => stable_parenType hg plus ts) fun _ => ?_
    refine mirrors_ite (fun _ => stable_pathType hg plus none ts) fun _ => ?_
    exact stable_markedType hg plus ts

theorem stable_typeParam (hg : g.StableBefore tail) (attrs : List Attribute) (name : Ident) :
    (g.typeParam attrs name).Stable tail := by
  unfold typeParam
  refine Stable.bind (Stable.branch (stable_sees (isOperator_behind (by decide)))
    (Stable.writtenAs _ ?_) (stable_pure _)) fun bounds => ?_
  · refine (stable_operator _).bind fun _ => ?_
    refine Stable.openList ?_ rfl (by decide) hg.bound hg.bound_takes
    intro t ts
    cases t <;> rfl
  · have hend : Stable tail (pure (GenericParam.type attrs name bounds.1 bounds.2)) := stable_pure _
    refine (stable_operator? (by decide)).branch ?_ hend
    exact (hg.type true).bind fun _ => hend

theorem stable_genericParam (hg : g.StableBefore tail) : g.genericParam.Stable tail := by
  refine g.stable_outerAttributes.bind fun attrs => ?_
  refine (stable_sees isLifetime_behind).branch ?_ ?_
  · exact g.stable_lifetimeParam.returns
  refine (stable_word? _).branch ?_ ?_
  · refine stable_ident.bind fun name => (stable_operator _).bind fun _ => ?_
    refine (hg.type true).bind fun type => ?_
    have hend : Stable tail (pure (GenericParam.const attrs name type)) := stable_pure _
    refine (stable_operator? (by decide)).branch ?_ hend
    exact g.stable_constant.bind fun _ => hend
  · exact stable_ident.bind fun name => stable_typeParam hg attrs name

end Grammar

end RowFactory
