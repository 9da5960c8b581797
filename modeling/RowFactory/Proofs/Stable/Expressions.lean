import RowFactory.Proofs.Stable.Patterns
import RowFactory.Source.StatementGrammar

namespace RowFactory

open RowFactory.Parser

section

variable {tail : CommaTail}

theorem isDot_behind : Blind tail isDot := fun ts => by simp [isDot]

theorem isAssign_behind : Blind tail isAssign := fun ts => by simp [isAssign]

theorem startsExpr_behind : Blind tail startsExpr := fun ts => by simp [startsExpr]

theorem afterCast_behind : Blind tail afterCast := fun ts => by simp [afterCast, isDot_behind ts]

theorem beforeTrailer_behind : Blind tail beforeTrailer := fun ts => by
  simp [beforeTrailer, isDot_behind ts]

theorem beforeOperand_behind : Blind tail beforeOperand := fun ts => by simp [beforeOperand]

theorem binaryOperator?_behind : Blind tail binaryOperator? := by
  intro ts
  have hops : ∀ op ∈ binaryOperators, ',' ∉ op.1.toList := by decide
  unfold binaryOperator?
  generalize binaryOperators = ops at hops
  induction ops with
  | nil => rfl
  | cons op ops ih =>
    have hrest := ih fun op' hop' => hops op' (List.mem_cons_of_mem _ hop')
    simp only [List.find?_cons, isOperator_behind (hops op List.mem_cons_self), hrest]

theorem length_pos_of_binaryOperator? {ts : List Token} {op : String} {binary : BinaryKind}
    (h : binaryOperator? ts = some (op, binary)) : 0 < op.length := by
  have hops : ∀ op ∈ binaryOperators, 0 < op.1.length := by decide
  exact hops _ (List.mem_of_find?_eq_some h)

/-- A range has no end at the end of the tokens, and none before a comma. -/
theorem endsRange_behind (structs : Bool) : Blind tail (endsRange structs) := by
  intro ts
  cases ts with
  | nil => simp [endsRange, afterRange, CommaTail.behind, isOperator, startsOperator]
  | cons t ts =>
    have hcomma : isOperator "," (tail.behind (t :: ts)) = isOperator "," (t :: ts) := by
      cases t <;> rfl
    have hempty : (tail.behind (t :: ts)).isEmpty = (t :: ts).isEmpty := rfl
    simp (disch := decide) only [endsRange, afterRange, List.any_cons, List.any_nil, hempty, hcomma,
      isOperator_behind, isDot_behind (t :: ts), isGroup_behind, isWord_behind]

theorem startsAsyncBlock_behind : Blind tail startsAsyncBlock := by
  intro ts
  have hmove (us : List Token) := and_drop_behind tail us (isWord_behind "move")
    (isGroup_behind .brace) (length_pos_of_sees rfl)
  have hasync := and_drop_behind tail ts (isWord_behind "async")
    (g := fun after => isGroup .brace after ||
      (isWord "move" after && isGroup .brace (after.drop 1)))
    (fun us => by simp only [hmove us, isGroup_behind]) (length_pos_of_sees rfl)
  simp only [List.drop_drop] at hasync
  exact hasync

theorem startsGenerics_behind (tail : CommaTail) (ts : List Token) :
    startsGenerics (tail.behind ts) = startsGenerics ts ∨ IsLoneParam ts := by
  match ts with
  | [] => exact .inl rfl
  | [t] =>
    left
    simp [startsGenerics, CommaTail.behind, isOperator, startsOperator, isWord, isLifetime, isIdent]
  | [t, x] =>
    have hafter : (tail.behind [t, x]).drop 1 = tail.behind [x] := rfl
    by_cases hx : isLifetime [x] ∨ isIdent [x]
    · by_cases hopen : isOperator "<" [t, x]
      · cases t with
        | punct c joint =>
          obtain rfl : '<' = c := by simpa [isOperator, startsOperator] using hopen
          exact .inr ⟨joint, x, rfl, hx⟩
        | _ => cases hopen
      · left
        simp (disch := decide) [startsGenerics, hopen]
    · left
      obtain ⟨hlifetime, hident⟩ := not_or.mp hx
      simp (disch := decide) only [startsGenerics, hafter, isOperator_behind, isWord_behind,
        isLifetime_behind, isIdent_behind]
      simp [hlifetime, hident]
  | t :: x :: y :: ts =>
    left
    have hafter : (tail.behind (t :: x :: y :: ts)).drop 1 = tail.behind (x :: y :: ts) := rfl
    have hthird : (tail.behind (t :: x :: y :: ts)).drop 2 = tail.behind (y :: ts) := rfl
    have hcomma : isOperator "," (tail.behind (y :: ts)) = isOperator "," (y :: ts) := by
      cases y <;> rfl
    simp (disch := decide) only [startsGenerics, hafter, hthird, hcomma, isOperator_behind,
      isWord_behind, isLifetime_behind, isIdent_behind]
    rfl

/-- Only where the tokens end behind a parameter does a comma make a binder of them. -/
theorem startsBinder_behind (tail : CommaTail) (ts : List Token) :
    startsBinder (tail.behind ts) = startsBinder ts ∨
      ∃ us, ts = Token.word "for" :: us ∧ IsLoneParam us := by
  by_cases hword : isWord "for" ts
  · cases ts with
    | nil => cases hword
    | cons t us =>
      rcases startsGenerics_behind tail us with hsame | hlone
      · left
        have hafter : (tail.behind (t :: us)).drop 1 = tail.behind us := rfl
        rw [startsBinder, startsBinder, isWord_behind, hafter, hsame]
        rfl
      · cases t with
        | ident i =>
          obtain rfl : i = .plain "for" := by simpa [isWord] using hword
          exact .inr ⟨us, rfl, hlone⟩
        | _ => cases hword
  · left
    simp [startsBinder, hword]

theorem startsClosure_behind {ts : List Token}
    (h : startsBinder (tail.behind ts) = startsBinder ts) :
    startsClosure (tail.behind ts) = startsClosure ts := by
  have hconst := and_drop_behind tail ts (isWord_behind "const")
    (g := fun after => !isGroup .brace after) (fun us => by simp only [isGroup_behind])
    (length_pos_of_sees rfl)
  have hasync := and_drop_behind tail ts (isWord_behind "async")
    (g := fun after => isOperator "|" after || isWord "move" after)
    (fun us => by simp (disch := decide) only [isOperator_behind, isWord_behind])
    (length_pos_of_sees rfl)
  unfold startsClosure
  dsimp only
  rw [hconst, hasync, h, isOperator_behind (by decide)]
  simp only [isWord_behind]

/-- The words after `&` that make a raw address of it. -/
theorem startsRaw_behind (ts : List Token) :
    (isWord "raw" (tail.behind ts) &&
        ["mut", "const"].any (isWord · ((tail.behind ts).drop 1))) =
      (isWord "raw" ts && ["mut", "const"].any (isWord · (ts.drop 1))) :=
  and_drop_behind tail ts (g := fun after => ["mut", "const"].any (isWord · after))
    (isWord_behind _)
    (fun ts => by simp only [isWord_behind]) (length_pos_of_sees rfl)

end

namespace Parser

variable {tail : CommaTail}

theorem stable_rangeDots : rangeDots.Stable tail := by
  refine (stable_require fun ts => ?_).bind fun _ => (stable_operator? (by decide)).bind fun _ => ?_
  · exact congrArg (! ·) (isOperator_behind (by decide) ts)
  · refine stable_ite (fun _ => stable_pure _) fun _ => ?_
    exact (stable_operator _).returns

end Parser

namespace Grammar

variable {g : Grammar} {tail : CommaTail}

theorem stable_anyExpr (hg : g.StableBefore tail) : g.anyExpr.Stable tail := hg.expr true 0

theorem stable_closureParam (hg : g.StableBefore tail) : g.closureParam.Stable tail := by
  refine g.stable_outerAttributes.bind fun _ => hg.pattern.bind fun _ => ?_
  refine (stable_operator? (by decide)).branch ?_ ?_
  · exact (hg.type true).returns
  · exact stable_pure _

theorem stable_closure (hg : g.StableBefore tail) (structs : Bool) :
    (g.closure structs).Stable tail := by
  refine ((stable_binder? hg).writtenAs _).bind fun _ => (stable_word? _).bind fun _ => ?_
  refine (stable_word? _).bind fun _ => (stable_word? _).bind fun _ => ?_
  refine (stable_word? _).bind fun _ => (stable_operator _).bind fun _ => Stable.bind ?_ fun _ => ?_
  · exact (stable_closureParam hg).closedList (isOperator_behind (by decide)) _
  refine (stable_operator _).bind fun _ => (stable_operator? (by decide)).bind fun _ => ?_
  refine stable_ite (fun _ => (hg.type true).bind fun _ => stable_group _ _) fun _ => ?_
  exact (hg.expr structs 0).returns

theorem stable_pathExpr (hg : g.StableBefore tail) (structs : Bool) :
    (g.pathExpr structs).Stable tail := by
  refine (stable_valuePath hg).bind fun path => stable_ahead_bind (fun ts => ?_) fun ts => ?_
  · simp (disch := decide) only [isOperator_behind, isGroup_behind]
  refine stable_ite (fun _ => stable_callArguments.returns) fun _ => ?_
  refine stable_ite (fun _ => (stable_group _ _).returns) fun _ => ?_
  exact stable_pure _

theorem mirrors_conditional (hg : g.StableBefore tail) {fuel fuel' : Nat} (h : fuel ≤ fuel')
    (ts : List Token) : Mirrors tail ts (g.conditional fuel) (g.conditional fuel') := by
  induction fuel generalizing fuel' ts with
  | zero => exact (fails_failure ts).mirrors _
  | succ fuel ih =>
    cases fuel' with
    | zero => cases h
    | succ fuel' =>
      refine (stable_word _ ts).bind fun _ ts => (hg.expr false 0 ts).bind fun _ ts => ?_
      refine (stable_group _ _ ts).bind fun _ ts => (stable_word? _ ts).bind fun _ ts => ?_
      refine mirrors_ite (fun _ => ?_) fun _ => stable_pure _ ts
      refine (stable_sees (isWord_behind _) ts).bind fun _ ts => ?_
      exact mirrors_ite (fun _ => ih (Nat.le_of_succ_le_succ h) ts) fun _ => stable_group _ _ ts

theorem stable_loopOrBlock (hg : g.StableBefore tail) : g.loopOrBlock.Stable tail := by
  refine (stable_word? _).branch ((hg.expr false 0).bind fun _ => ?_) ?_
  · exact (stable_group _ _).returns
  refine (stable_word? _).branch ((stable_alternatives hg).bind fun _ => ?_) ?_
  · refine (stable_word _).bind fun _ => (hg.expr false 0).bind fun _ => ?_
    exact (stable_group _ _).returns
  refine (stable_word? _).branch ?_ ?_
  · exact (stable_group _ _).returns
  · exact (stable_group _ _).returns

theorem stable_bindingExpr (hg : g.StableBefore tail) (structs : Bool) :
    (g.bindingExpr structs).Stable tail := by
  refine (stable_word _).bind fun _ => (stable_alternatives hg).bind fun _ => ?_
  refine (stable_operator _).bind fun _ => (hg.expr structs comparisonLevel).bind fun _ => ?_
  exact stable_pure _

theorem stable_exitExpr (hg : g.StableBefore tail) (structs : Bool) :
    (g.exitExpr structs).Stable tail := by
  refine (stable_word _).bind fun _ => ?_
  refine Stable.bind (Stable.ifSees isLifetime_behind stable_lifetime) fun label => ?_
  refine (stable_require fun ts => ?_).bind fun _ => (stable_sees fun ts => ?_).bind fun _ => ?_
  · simp (disch := decide) only [isOperator_behind]
  · simp only [startsExpr_behind ts, isGroup_behind]
  · exact stable_ite (fun _ => (stable_anyExpr hg).returns) fun _ => stable_pure _

theorem stable_wordValue (hg : g.StableBefore tail) (w : String) : (g.wordValue w).Stable tail := by
  refine (stable_word _).bind fun _ => (stable_sees startsExpr_behind).bind fun _ => ?_
  exact stable_ite (fun _ => (stable_anyExpr hg).returns) fun _ => stable_pure _

theorem stable_matchExpr (hg : g.StableBefore tail) : g.matchExpr.Stable tail :=
  (stable_word _).bind fun _ => (hg.expr false 0).bind fun _ => stable_group _ _

theorem stable_rangeTail (hg : g.StableBefore tail) (structs : Bool) :
    (g.rangeTail structs).Stable tail := by
  refine stable_rangeDots.bind fun closed => stable_ahead_bind (fun ts => ?_) fun ts => ?_
  · simp only [endsRange_behind structs ts]
  · refine stable_ite (fun _ => ?_) fun _ => stable_pure _
    exact (hg.expr structs _).returns

theorem stable_wordExpr (hg : g.StableBefore tail) (structs : Bool) :
    (g.wordExpr structs).Stable tail := by
  refine fun ts => mirrors_ahead_bind ?_
  simp only [isWord_behind]
  refine mirrors_ite (fun _ => (stable_exitExpr hg structs).returns ts) fun _ => ?_
  refine mirrors_ite (fun _ => ((stable_word _).bind fun _ => ?_) ts) fun _ => ?_
  · exact (Stable.ifSees isLifetime_behind stable_lifetime).returns
  refine mirrors_ite (fun _ => (stable_wordValue hg _).returns ts) fun _ => ?_
  refine mirrors_ite (fun _ => Stable.returns (Stable.verbatim ?_) ts) fun _ => ?_
  · exact (stable_word _).bind fun _ => stable_anyExpr hg
  refine mirrors_ite (fun _ => (stable_bindingExpr hg structs).returns ts) fun _ => ?_
  refine mirrors_ite (fun _ => ?_) fun _ => ?_
  · refine (mirrors_conditional hg ?_ ts).returns
    rw [length_behind]
    exact Nat.le_add_right _ _
  refine mirrors_ite (fun _ => (stable_matchExpr hg).returns ts) fun _ => ?_
  refine mirrors_ite (fun _ => (stable_wordValue hg _).returns ts) fun _ => ?_
  refine Stable.bind (stable_word? _) (fun _ => stable_ite (fun _ => ?_) fun _ => ?_) ts
  · exact (stable_group _ _).returns
  refine (stable_word? _).branch ?_ ?_
  · exact (stable_group _ _).returns
  refine (stable_word? _).branch (stable_pure _) ?_
  exact stable_loopOrBlock hg

theorem stable_turbofish (hg : g.StableBefore tail) : g.turbofish.Stable tail :=
  (stable_operator _).bind fun _ => ((stable_angleArguments hg).writtenAs _).returns

theorem stable_named (hg : g.StableBefore tail) : memberAccess.named g |>.Stable tail := by
  unfold memberAccess.named
  refine (stable_word? _).branch (stable_pure _) ?_
  refine stable_fieldName.bind fun _ => ?_
  extract_lets field
  have hfield : (field ()).Stable tail := stable_pure _
  refine stable_ite (fun _ => ?_) fun _ => hfield
  refine (stable_sees (isOperator_behind (by decide))).bind fun applied => ?_
  extract_lets call
  have hcall : (call ()).Stable tail := by
    refine stable_ahead_bind (fun ts => by simp only [isGroup_behind]) fun ts => ?_
    exact stable_ite (fun _ => (stable_group _ _).returns) fun _ => hfield
  exact stable_ite (fun _ => (stable_turbofish hg).bind fun _ => hcall) fun _ => hcall

theorem stable_memberAccess (hg : g.StableBefore tail) : g.memberAccess.Stable tail := by
  refine (stable_operator _).bind fun _ ts => mirrors_ahead_bind ?_
  match ts with
  | [] => exact stable_named hg []
  | t :: ts =>
    cases t with
    | literal text =>
      refine (mirrors_skip (by simp)).bind fun _ => ?_
      cases positionTokens? text with
      | none => exact stable_failure
      | some p =>
        refine (stable_write _).bind fun _ => ?_
        exact stable_ite (fun _ => stable_named hg) fun _ => stable_pure _
    | _ => exact stable_named hg _

theorem stable_trailer (hg : g.StableBefore tail) : g.trailer.Stable tail := by
  refine stable_ahead_bind (fun ts => by simp only [isGroup_behind]) fun ts => ?_
  refine stable_ite (fun _ => (stable_group _ _).returns) fun _ => ?_
  refine stable_ite (fun _ => (stable_group _ _).returns) fun _ => ?_
  refine (stable_operator? (by decide)).branch (stable_pure _) ?_
  exact stable_memberAccess hg

theorem takes_trailer (g : Grammar) : g.trailer.Takes := by
  refine Takes.bind_right _ fun ts => takes_ite (fun _ => (takes_group _ _).bind_left _) fun _ => ?_
  refine takes_ite (fun _ => (takes_group _ _).bind_left _) fun _ => ?_
  exact takes_operator?_bind (by decide) ((takes_operator (by decide)).bind_left _)

theorem stable_trailers (hg : g.StableBefore tail) (kind : ExprKind) :
    (g.trailers kind).Stable tail := by
  refine stable_ite (fun _ => stable_pure _) fun _ => Stable.returns ?_
  exact (stable_trailer hg).whileSees beforeTrailer_behind rfl g.takes_trailer

theorem stable_operandLead (g : Grammar) : g.operandLead.Stable tail := by
  refine stable_ahead_bind (fun ts => by simp (disch := decide) only [isOperator_behind])
    fun _ => stable_ite (fun _ => g.stable_outerAttribute.returns) fun _ => ?_
  refine (stable_operator? (by decide)).branch ?_ ?_
  · refine fun ts => mirrors_sees_bind ?_
    rw [startsRaw_behind ts]
    refine mirrors_ite (fun h => ?_) fun _ => (stable_word? _).returns ts
    obtain ⟨-, hafter⟩ := Bool.and_eq_true_iff.mp h
    refine (stable_word _ ts).bind_run fun c u c' hc hrun => ?_
    refine (mirrors_copy ?_).returns
    rw [(ahead_of_run_word hrun).2, hc]
    obtain ⟨w, -, hw⟩ := List.any_eq_true.mp hafter
    exact length_pos_of_sees rfl hw
  · refine stable_next.bind fun t => ?_
    cases t with
    | punct c joint => exact (stable_write _).returns
    | _ => exact stable_failure

theorem takes_operandLead (g : Grammar) : g.operandLead.Takes := by
  refine Takes.bind_right _ fun ts => takes_ite (fun _ => ?_) fun _ => ?_
  · exact g.takes_outerAttribute.bind_left _
  · exact takes_operator?_bind (by decide) (takes_next.bind_left _)

/-- A qualified path needs a second bracket. -/
theorem fails_qualifiedPath (g : Grammar) (inExpr : Bool) {ts : List Token} (h : IsLoneParam ts) :
    (g.qualifiedPath inExpr).Fails ts := by
  intro c hc
  cases hrun : (g.qualifiedPath inExpr).run c with
  | none => rfl
  | some r =>
    obtain ⟨⟨_, c₁⟩, hopen, hrun⟩ := Option.bind_eq_some_iff.mp hrun
    obtain ⟨⟨_, c₂⟩, htype, hrun⟩ := Option.bind_eq_some_iff.mp hrun
    obtain ⟨⟨_, c₃⟩, htrait, hrun⟩ := Option.bind_eq_some_iff.mp hrun
    obtain ⟨⟨_, c₄⟩, hclose, -⟩ := Option.bind_eq_some_iff.mp hrun
    obtain ⟨joint, x, rfl, hx⟩ := h
    have hfirst : c₁.ahead = [x] := by rw [(ahead_of_run_operator hopen).2, hc]; rfl
    have hsuffix : c₃.ahead <:+ [x] :=
      hfirst ▸ (Parser.takesFront _ htrait).trans (Parser.takesFront _ htype)
    have hbracket := (ahead_of_run_operator hclose).1
    rcases List.suffix_cons_iff.mp hsuffix with hahead | hahead
    · rw [hahead] at hbracket
      cases x <;> simp_all [isOperator, startsOperator, isLifetime, isIdent]
    · rw [List.suffix_nil.mp hahead] at hbracket
      cases hbracket

theorem fails_onePattern (g : Grammar) {ts : List Token} (h : IsLoneParam ts) :
    g.onePattern.Fails ts := by
  have hpath : g.valuePath.Fails ts := by
    have hopen : isOperator "<" ts = true := by
      obtain ⟨joint, x, rfl, -⟩ := h
      rfl
    refine Fails.writtenAs _ ((reads_sees hopen).bind_fails ?_)
    exact fails_qualifiedPath g true h
  have hstarts : startsPathPattern ts = true := by
    obtain ⟨joint, x, rfl, -⟩ := h
    simp [startsPathPattern, isOperator, startsOperator]
  refine reads_ahead.bind_fails ?_
  rw [if_pos hstarts]
  exact hpath.bind_left _

/-- The words `for<x` begin a loop whose pattern is not complete. -/
theorem fails_loopOrBlock (hg : g.StableBefore tail) {us : List Token} (h : IsLoneParam us) :
    g.loopOrBlock.Fails (Token.word "for" :: us) := by
  refine (reads_word?_false rfl).bind_fails ?_
  rw [if_neg Bool.false_ne_true]
  refine (reads_word?_true "for").bind_fails ?_
  rw [if_pos rfl]
  have hled : isOperator "|" us = false := by
    obtain ⟨joint, x, rfl, -⟩ := h
    rfl
  refine Fails.bind_left ((reads_operator?_false hled).bind_fails ?_) _
  exact (hg.pattern_fails us h).bind_left _

theorem fails_wordExpr (hg : g.StableBefore tail) (structs : Bool) {us : List Token}
    (h : IsLoneParam us) : (g.wordExpr structs).Fails (Token.word "for" :: us) := by
  have hword {w : String} (hw : w ≠ "for") : isWord w (Token.word "for" :: us) = false := by
    simp [isWord, Token.word, Ident.plain, hw.symm]
  refine reads_ahead.bind_fails ?_
  simp (disch := decide) only [hword, Bool.false_eq_true, if_false]
  refine (reads_word?_false rfl).bind_fails ?_
  rw [if_neg Bool.false_ne_true]
  refine (reads_word?_false rfl).bind_fails ?_
  rw [if_neg Bool.false_ne_true]
  refine (reads_word?_false rfl).bind_fails ?_
  rw [if_neg Bool.false_ne_true]
  exact fails_loopOrBlock hg h

theorem not_startsGenerics {us : List Token} (h : IsLoneParam us) : startsGenerics us = false := by
  obtain ⟨joint, x, rfl, hx⟩ := h
  have hconst : isWord "const" [x] = false := by
    cases x with
    | ident i =>
      have hi : i.isKeyword = false := by simpa [isLifetime, isIdent] using hx
      exact isWord_of_isKeyword_eq_false hi rfl
    | _ => rfl
  have hend : isOperator ">" [] = false ∧ isOperator "," [] = false ∧ isOperator "=" [] = false ∧
      isOperator ":" [] = false := ⟨rfl, rfl, rfl, rfl⟩
  have hafter : isOperator ">" [x] = false ∧ isOperator "#" [x] = false := by
    cases x <;> simp_all [isOperator, startsOperator, isLifetime, isIdent]
  simp [startsGenerics, hconst, hend, hafter]

theorem fails_atom (hg : g.StableBefore tail) (structs : Bool) {us : List Token}
    (h : IsLoneParam us) : (g.atom structs).Fails (Token.word "for" :: us) := by
  have hclosure : startsClosure (Token.word "for" :: us) = false := by
    have hbinder : startsBinder (Token.word "for" :: us) = false := by
      simp [startsBinder, not_startsGenerics h]
    unfold startsClosure
    rw [hbinder]
    rfl
  have hpath : startsPath (Token.word "for" :: us) = false := rfl
  refine reads_ahead.bind_fails ?_
  rw [hclosure, hpath]
  exact fails_wordExpr hg structs h

theorem stable_atom (hg : g.StableBefore tail) (structs : Bool) : (g.atom structs).Stable tail := by
  intro ts
  rcases startsBinder_behind tail ts with hbinder | ⟨us, rfl, hlone⟩
  case inr => exact (fails_atom hg structs hlone).mirrors _
  have htry := and_drop_behind tail ts (isWord_behind "try")
    (isGroup_behind .brace) (length_pos_of_sees rfl)
  have hpath := and_drop_behind tail ts (isWord_behind "try")
    (g := fun after => isOperator "!" after || isOperator "::" after)
    (fun us => by simp (disch := decide) only [isOperator_behind]) (length_pos_of_sees rfl)
  refine mirrors_ahead_bind ?_
  rw [isLiteral_behind, startsAsyncBlock_behind ts, htry, startsClosure_behind hbinder,
    startsBuiltin_behind ts, startsPath_behind ts, isOperator_behind (by decide),
    isOperator_behind (by decide), hpath, isGroup_behind, isGroup_behind,
    isOperator_behind (by decide), isLifetime_behind]
  refine mirrors_ite (fun h => ?_) fun _ => mirrors_ite (fun _ => ?_) fun _ => ?_
  · exact (mirrors_copy (length_pos_of_sees rfl h)).returns
  · refine ((stable_word _).bind fun _ => (stable_word? _).bind fun _ => ?_) ts
    exact (stable_group _ _).returns
  refine mirrors_ite (fun _ => ?_) fun _ => mirrors_ite (fun _ => ?_) fun _ => ?_
  · exact ((stable_word _).bind fun _ => (stable_group _ _).returns) ts
  · exact (stable_closure hg structs).returns ts
  refine mirrors_ite (fun _ => ?_) fun _ => mirrors_ite (fun _ => stable_pathExpr hg structs ts)
    fun _ => ?_
  · exact stable_builtin.verbatim.returns ts
  refine mirrors_ite (fun _ => stable_group _ _ ts) fun _ => ?_
  refine mirrors_ite (fun _ => stable_group _ _ ts) fun _ => mirrors_ite (fun _ => ?_) fun _ => ?_
  · exact (stable_rangeTail hg structs).returns ts
  refine mirrors_ite (fun _ => ?_) fun _ => stable_wordExpr hg structs ts
  refine (stable_lifetime.bind fun _ => (stable_operator _).bind fun _ => ?_) ts
  refine (stable_require fun us => ?_).bind fun _ => stable_loopOrBlock hg
  simp only [isWord_behind, isGroup_behind]

theorem stable_operand (hg : g.StableBefore tail) (structs : Bool) :
    (g.operand structs).Stable tail := by
  refine Stable.bind ?_ fun leads => (stable_atom hg structs).bind fun kind => ?_
  · exact g.stable_operandLead.whileSees beforeOperand_behind rfl g.takes_operandLead
  · exact (stable_trailers hg kind).bind fun _ => (stable_guard _).returns

theorem takes_rangeTail (g : Grammar) (structs : Bool) : (g.rangeTail structs).Takes := by
  refine Takes.bind_left (Takes.bind_right _ fun _ => ?_) _
  exact takes_operator?_bind (by decide) ((takes_operator (by decide)).bind_left _)

/-- Nothing follows an operand at the end of the tokens, and nothing before a comma. -/
theorem run_operations_none {structs : Bool} {level : Nat} {kind : ExprKind} {c : Cursor}
    (hbinary : binaryOperator? c.ahead = none) (hassign : isAssign c.ahead = false)
    (hrange : isOperator ".." c.ahead = false) (has : isWord "as" c.ahead = false) (fuel : Nat) :
    (g.operations structs level fuel kind).run c = some (kind, c) := by
  cases fuel with
  | zero => rfl
  | succ fuel =>
    change (if kind = .range then pure kind else _ : Parser ExprKind).run c = _
    by_cases hkind : kind = .range
    · rw [if_pos hkind]
      rfl
    · rw [if_neg hkind, hbinary]
      dsimp only
      simp only [hassign, hrange, has, Bool.and_false, Bool.false_eq_true, if_false]
      rfl

theorem mirrors_operations_nil (structs : Bool) (level fuel fuel' : Nat) (kind : ExprKind) :
    Mirrors tail [] (g.operations structs level fuel kind)
      (g.operations structs level fuel' kind) := by
  rintro c a c' hc hrun
  rw [run_operations_none (by rw [hc]; rfl) (by rw [hc]; rfl) (by rw [hc]; rfl) (by rw [hc]; rfl)]
    at hrun
  cases hrun
  refine run_operations_none ?_ ?_ ?_ ?_ fuel' <;> rw [Cursor.before, hc]
  · exact binaryOperator?_behind []
  · exact isAssign_behind []
  · exact isOperator_behind (by decide) []
  · exact isWord_behind _ []

/-- Each operation takes a token, so the bounds do not matter. -/
theorem mirrors_operations (hg : g.StableBefore tail) (structs : Bool) (level : Nat)
    {fuel fuel' : Nat} {ts : List Token} (hfuel : ts.length ≤ fuel) (hfuel' : ts.length ≤ fuel')
    (kind : ExprKind) : Mirrors tail ts (g.operations structs level fuel kind)
      (g.operations structs level fuel' kind) := by
  induction fuel generalizing fuel' ts kind with
  | zero =>
    rw [List.eq_nil_of_length_eq_zero (Nat.le_zero.mp hfuel)]
    exact mirrors_operations_nil structs level _ _ kind
  | succ fuel ih =>
    cases fuel' with
    | zero =>
      rw [List.eq_nil_of_length_eq_zero (Nat.le_zero.mp hfuel')]
      exact mirrors_operations_nil structs level _ _ kind
    | succ fuel' =>
      have hnext (us : List Token) (hus : us.length < ts.length) (kind : ExprKind) :
          Mirrors tail us (g.operations structs level fuel kind)
            (g.operations structs level fuel' kind) :=
        ih (by omega) (by omega) kind
      refine mirrors_ahead_bind (mirrors_ite (fun _ => stable_pure kind ts) fun _ => ?_)
      rw [binaryOperator?_behind ts, isAssign_behind ts, isOperator_behind (by decide),
        isWord_behind]
      cases hbinary : binaryOperator? ts with
      | some found =>
        obtain ⟨op, binary⟩ := found
        refine mirrors_ite (fun _ => stable_pure kind ts) fun _ => ?_
        refine (stable_guard _ ts).bind_le fun _ us hus => ?_
        refine (stable_operator op us).bind_takes ?_ fun _ us' hus' => ?_
        · exact takes_operator (length_pos_of_binaryOperator? hbinary)
        · exact (hg.expr structs _ us').bind_le fun _ vs hvs => hnext vs (by omega) _
      | none =>
        refine mirrors_ite (fun _ => ?_) fun _ => mirrors_ite (fun _ => ?_) fun _ =>
          mirrors_ite (fun _ => ?_) fun _ => stable_pure kind ts
        · refine (stable_operator _ ts).bind_takes (takes_operator (by decide)) fun _ us hus => ?_
          exact (hg.expr structs _ us).bind_le fun _ vs hvs => hnext vs (by omega) _
        · refine (stable_rangeTail hg structs ts).bind_takes (g.takes_rangeTail structs) ?_
          exact fun _ us hus => hnext us hus _
        · refine (stable_word _ ts).bind_takes (takes_word _) fun _ us hus => ?_
          refine (hg.type false us).bind_le fun _ vs hvs => ?_
          refine (stable_require (fun us => ?_) vs).bind_le fun _ ws hws => ?_
          · exact congrArg (! ·) (afterCast_behind us)
          · exact hnext ws (by omega) _

theorem stable_operatorExpr (hg : g.StableBefore tail) (structs : Bool) (level : Nat) :
    (g.operatorExpr structs level).Stable tail := by
  refine (stable_operand hg structs).bind fun kind ts => mirrors_ahead_bind ?_
  refine mirrors_operations hg structs level (Nat.le_refl _) ?_ kind
  rw [length_behind]
  exact Nat.le_add_right _ _

/-- The grammar of any depth reads the same where a comma follows. -/
theorem stableBefore_atDepth (tail : CommaTail) (depth : Nat) :
    (atDepth depth).StableBefore tail := by
  induction depth with
  | zero =>
    exact {
      type := fun _ => stable_failure
      bound := stable_failure
      bound_takes := takes_failure
      param := stable_failure
      pattern := stable_failure
      pattern_fails := fun ts _ => fails_failure ts
      expr := fun _ _ => stable_failure }
  | succ depth ih =>
    exact {
      type := fun plus => (stable_oneType ih plus).writtenAs _
      bound := (stable_oneBound ih true).writtenAs _
      bound_takes := (takes_oneBound _ true).writtenAs _
      param := stable_genericParam ih
      pattern := stable_onePattern ih
      pattern_fails := fun _ => fails_onePattern _
      expr := stable_operatorExpr ih }

/-- Standing in front of these tokens, an expression is read to their end. -/
def IsExpr (g : Grammar) (ts : List Token) : Prop := g.anyExpr.Reads ts [] fun _ => True

theorem isExpr_literal (depth : Nat) (text : String) :
    (atDepth (depth + 1)).IsExpr [.literal text] :=
  reads_of_run fun _ _ _ => ⟨_, _, _, rfl, trivial⟩

/-- An expression is read alike where it ends and where a comma follows. -/
theorem IsExpr.reads_before_comma {depth : Nat} {value : List Token}
    (h : (atDepth depth).IsExpr value) (joint : Bool) (rest : List Token) :
    (atDepth depth).anyExpr.Reads (value ++ .punct ',' joint :: rest) (.punct ',' joint :: rest)
      fun _ => True :=
  (stable_anyExpr (stableBefore_atDepth ⟨joint, rest⟩ depth)).reads h

end Grammar

end RowFactory
