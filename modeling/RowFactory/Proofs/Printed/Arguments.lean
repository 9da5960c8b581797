import RowFactory.Proofs.Printed.Kept
import RowFactory.Proofs.Stable.Types

namespace RowFactory

open RowFactory.Parser

namespace Grammar

variable {n k : Nat} {i j rest ts : List Token}

theorem takes_bound (n : Nat) : (atDepth n).bound.Takes := by
  cases n with
  | zero => exact takes_failure
  | succ n => exact (takes_oneBound _ true).writtenAs _

theorem fails_type (plus : Bool) (h : OpensNoType ts) : ((atDepth n).type plus).Fails ts := by
  cases n with
  | zero => exact fails_failure ts
  | succ n => exact (fails_oneType _ plus h).writtenAs _

/-- No type begins as a constant does. -/
theorem opensNoType_of_startsConstant (h : startsConstant ts = true) : OpensNoType ts := by
  match ts with
  | .literal _ :: _ =>
    exact ⟨fun _ _ => rfl, rfl, ⟨rfl, rfl⟩, by simp [isOperator, startsOperator], rfl⟩
  | .group d body :: _ =>
    obtain rfl : .brace = d := by simpa [startsConstant, isLiteral, isGroup] using h
    exact ⟨fun _ _ => rfl, rfl, ⟨rfl, rfl⟩, by simp [isOperator, startsOperator], rfl⟩
  | .ident name :: _ =>
    have hname : name = .plain "true" ∨ name = .plain "false" := by
      simpa [startsConstant, isLiteral, isGroup] using h
    have hwords : ∀ w ∈ typeWords, w ≠ "true" ∧ w ≠ "false" := by decide
    rcases hname with rfl | rfl <;>
      exact ⟨fun w hw => by simp [isWord, Ident.plain, (hwords w hw).1.symm, (hwords w hw).2.symm],
        rfl, ⟨rfl, rfl⟩, by simp [isOperator, startsOperator], rfl⟩
  | .punct c joint :: us =>
    obtain rfl : c = '-' := by
      by_contra hc
      simp [startsConstant, isLiteral, isGroup, hc] at h
    cases joint <;>
      exact ⟨fun _ _ => rfl, rfl, ⟨rfl, rfl⟩, by simp [isOperator, startsOperator], rfl⟩
  | .lifetime _ :: _ => cases h

theorem isOperator_eq_false_of_startsConstant (h : startsConstant ts = true) :
    isOperator ">" ts = false := by
  match ts with
  | .literal _ :: _ | .group _ _ :: _ | .ident _ :: _ => rfl
  | .punct c joint :: us =>
    by_cases hc : c = '-'
    · subst hc
      rfl
    · simp [startsConstant, isLiteral, isGroup, hc] at h

/-- Where a type is read, no constant begins. -/
theorem startsConstant_eq_false {plus : Bool} {Q : Ty → Prop}
    (h : ((atDepth n).type plus).Reads ts rest Q) : startsConstant ts = false :=
  Bool.eq_false_iff.mpr fun hconst =>
    h.not_fails (fails_type plus (opensNoType_of_startsConstant hconst))

/-- A type that begins with a lifetime goes on with a `+`. -/
theorem isLoneLifetime_eq_false {plus : Bool} {Q : Ty → Prop}
    (h : ((atDepth n).type plus).Reads ts rest Q) :
    (isLifetime ts && !isOperator "+" (ts.drop 1)) = false := by
  refine Bool.eq_false_iff.mpr fun hlone => h.not_fails ?_
  obtain ⟨hlifetime, hplus⟩ := Bool.and_eq_true_iff.mp hlone
  match ts with
  | .lifetime name :: us =>
    cases n with
    | zero => exact fails_failure _
    | succ n => exact (fails_oneType_lifetime _ plus name (by simpa using hplus)).writtenAs _

theorem opensNoType_punct {c : Char} {joint : Bool} (hc : c ∈ [',', '>', '=', '?', '#', '.']) :
    OpensNoType (.punct c joint :: ts) := by
  refine ⟨fun _ _ => rfl, rfl, ⟨rfl, rfl⟩, ?_, rfl⟩
  simp only [List.mem_cons, List.not_mem_nil, or_false] at hc
  rcases hc with rfl | rfl | rfl | rfl | rfl | rfl <;>
    cases joint <;> simp [isOperator, startsOperator]

/-- An operator begins with its first character. -/
theorem exists_punct_of_isOperator {op : String} (h : isOperator op ts = true) {c : Char}
    (hop : op.toList.head? = some c) : ∃ joint us, ts = .punct c joint :: us := by
  obtain ⟨cs, hcs⟩ := List.head?_eq_some_iff.mp hop
  match ts with
  | .punct d joint :: us =>
    refine ⟨joint, us, ?_⟩
    cases joint <;> cases cs <;> simp_all [isOperator, startsOperator]
  | [] | .ident _ :: _ | .lifetime _ :: _ | .literal _ :: _ | .group _ _ :: _ =>
    cases cs <;> simp [isOperator, startsOperator, hcs] at h

/-- A type does not begin with such a sign. -/
theorem isOperator_eq_false_of_reads {plus : Bool} {Q : Ty → Prop}
    (h : ((atDepth n).type plus).Reads ts rest Q) {c : Char} {op : String}
    (hop : c ∈ [',', '>', '=', '?', '#', '.'] ∧ op.toList.head? = some c) :
    isOperator op ts = false := by
  refine Bool.eq_false_iff.mpr fun hstarts => h.not_fails (fails_type plus ?_)
  obtain ⟨joint, us, rfl⟩ := exists_punct_of_isOperator hstarts hop.2
  exact opensNoType_punct hop.1

/-- Nor does it begin with a reserved word that begins none. -/
theorem isWord_eq_false_of_reads {plus : Bool} {Q : Ty → Prop}
    (h : ((atDepth n).type plus).Reads ts rest Q) {w : String}
    (hw : w ∉ typeWords ∧ keywords.contains w) : isWord w ts = false := by
  refine Bool.eq_false_iff.mpr fun hseen => h.not_fails (fails_type plus ?_)
  rw [eq_word_of_isWord hseen]
  refine ⟨fun w' hw' => ?_, ?_, ⟨rfl, rfl⟩, by simp [Token.word, isOperator, startsOperator], rfl⟩
  · have hne : w ≠ w' := by
      rintro rfl
      exact hw.1 hw'
    simp [isWord, Token.word, Ident.plain, hne]
  · have hkeyword : w ∈ keywords := by simpa using hw.2
    simp [isIdent, Token.word, Ident.isKeyword, Ident.plain, hkeyword]

/-- A sign that a single parameter is followed by, in angle brackets. -/
def endsName (ts : List Token) : Bool :=
  isOperator ">" ts || isOperator "," ts || isOperator "=" ts ||
    (isOperator ":" ts && !isOperator "::" ts)

/-- A type ends in front of such a sign. -/
theorem endsType_of_endsName (h : endsName ts = true) : EndsType ts := by
  simp only [endsName, Bool.or_eq_true, Bool.and_eq_true, Bool.not_eq_true'] at h
  rcases h with ((hsign | hsign) | hsign) | ⟨hsign, hcolons⟩
  · obtain ⟨joint, us, rfl⟩ := exists_punct_of_isOperator (c := '>') hsign rfl
    refine ⟨⟨?_, ?_⟩, ?_, ?_, ?_⟩ <;> cases joint <;> rfl
  · obtain ⟨joint, us, rfl⟩ := exists_punct_of_isOperator (c := ',') hsign rfl
    refine ⟨⟨?_, ?_⟩, ?_, ?_, ?_⟩ <;> cases joint <;> rfl
  · obtain ⟨joint, us, rfl⟩ := exists_punct_of_isOperator (c := '=') hsign rfl
    refine ⟨⟨?_, ?_⟩, ?_, ?_, ?_⟩ <;> cases joint <;> rfl
  · obtain ⟨joint, us, rfl⟩ := exists_punct_of_isOperator (c := ':') hsign rfl
    refine ⟨⟨by rw [beforeSegment, hcolons]; rfl, by rw [beforeAngle, hcolons]; rfl⟩, ?_, ?_, ?_⟩ <;>
      cases joint <;> rfl

/-- What is read as a constant is a literal or stands in braces. -/
theorem constant_cases {g : Grammar} {v : List Token} (h : g.constant.Gives i v j)
    (hi : startsConstant i = true) :
    isLoneLiteral v = true ∨ ∃ body, v = [.group .brace body] := by
  obtain ⟨x, hx, rfl⟩ := h.returns
  obtain ⟨c, c', rfl, hwritten, hrun, -, hv⟩ := hx.withWritten_run
  rw [hv]
  rw [run_sees_bind] at hrun
  cases hlit : isLiteral c.ahead with
  | true =>
    rw [hlit, if_pos rfl] at hrun
    obtain ⟨⟨ts, c₁⟩, hvalue, hrun⟩ := Option.bind_eq_some_iff.mp hrun
    cases hrun
    rw [literalValue, run_require_bind, if_pos hlit] at hvalue
    obtain ⟨ahead, written, altered, unread⟩ := c
    obtain rfl : written = [] := hwritten
    cases ahead with
    | nil => cases hlit
    | cons t us =>
      cases t with
      | literal text =>
        cases hvalue
        exact .inl rfl
      | ident name =>
        cases hvalue
        exact .inl hlit
      | punct c joint =>
        obtain rfl : c = '-' := by
          by_contra hc
          simp [isLiteral, hc] at hlit
        cases us with
        | nil => cases hlit
        | cons u us =>
          cases u with
          | literal text =>
            cases hvalue
            exact .inl hlit
          | _ => cases hlit
      | _ => cases hlit
  | false =>
    have hbrace : isGroup .brace c.ahead = true := by simpa [startsConstant, hlit] using hi
    obtain ⟨ahead, written, altered, unread⟩ := c
    obtain rfl : written = [] := hwritten
    cases ahead with
    | nil => cases hbrace
    | cons t us =>
      cases t with
      | group d body =>
        obtain rfl : .brace = d := by simpa [isGroup] using hbrace
        rw [hlit, if_neg Bool.false_ne_true, run_sees_bind, if_neg (by simp [isIdent])] at hrun
        obtain ⟨⟨attrs, c₁⟩, hgroup, hrun⟩ := Option.bind_eq_some_iff.mp hrun
        cases hrun
        simp only [attributedBlock, Parser.group, if_true, Option.map_eq_some_iff] at hgroup
        obtain ⟨⟨attrs', inner⟩, -, heq⟩ := hgroup
        cases heq
        exact .inr ⟨_, rfl⟩
      | _ => cases hbrace

theorem isLoneLiteral_cases {v : List Token} (h : isLoneLiteral v = true) :
    (∃ text, v = [.literal text]) ∨
      (∃ name, v = [.ident name] ∧ (name = .plain "true" ∨ name = .plain "false")) ∨
      ∃ text, v = [.punct '-' false, .literal text] ∧
        (text.toList.head?.any fun c => '0' ≤ c && c ≤ '9') = true := by
  unfold isLoneLiteral at h
  split at h
  · exact .inl ⟨_, rfl⟩
  · exact .inr (.inl ⟨_, rfl, by simpa using h⟩)
  · exact .inr (.inr ⟨_, rfl, h⟩)
  · cases h

theorem isLiteral_of_isLoneLiteral {v : List Token} (h : isLoneLiteral v = true)
    (rest : List Token) : isLiteral (v ++ rest) = true := by
  obtain ⟨text, rfl⟩ | ⟨name, rfl, hname⟩ | ⟨text, rfl, hdigit⟩ := isLoneLiteral_cases h
  · rfl
  · simpa [isLiteral] using hname
  · exact hdigit

/-- A literal is read whatever stands behind it, and written as it stands. -/
theorem run_literalValue {v : List Token} (h : isLoneLiteral v = true)
    (rest written altered : List Token)
    (unread : Bool) : literalValue.run ⟨v ++ rest, written, altered, unread⟩ =
      some (v, ⟨rest, v.reverse ++ written, altered, unread⟩) := by
  rw [literalValue, run_require_bind, if_pos (isLiteral_of_isLoneLiteral h rest)]
  obtain ⟨text, rfl⟩ | ⟨name, rfl, -⟩ | ⟨text, rfl, -⟩ := isLoneLiteral_cases h <;> rfl

/-- A literal is a constant that is read back, whatever stands behind it. -/
theorem reads_constant_literal (g : Grammar) {v : List Token} (h : isLoneLiteral v = true)
    (rest : List Token) : g.constant.Reads (v ++ rest) rest (· = v) := by
  refine (reads_withWritten_of_run (Q := fun _ => True) v fun altered unread => ?_).bind
    fun x hx => reads_pure hx.2
  refine ⟨(), altered, ?_, trivial⟩
  rw [run_sees_bind, if_pos (isLiteral_of_isLoneLiteral h rest)]
  change Option.bind (literalValue.run ⟨v ++ rest, [], altered, unread⟩) _ = _
  rw [run_literalValue h, Option.bind_some, List.append_nil]
  rfl

theorem reads_constant {v : List Token} (h : isLoneLiteral v = true ∨ ∃ body, v = [.group .brace body])
    (hsize : Token.sizeAll v ≤ n) (hes : ∀ e ∈ constantEmbedded v, e.IsReadBack)
    (rest : List Token) :
    (atDepth n).constant.Reads (v ++ rest) rest (· = v) ∧ startsConstant (v ++ rest) = true := by
  rcases h with h | ⟨body, rfl⟩
  · refine ⟨reads_constant_literal _ h rest, ?_⟩
    exact Bool.or_eq_true_iff.mpr (.inl (isLiteral_of_isLoneLiteral h rest))
  · refine ⟨hes (.block body) (by simp [constantEmbedded]) n ?_ rest, rfl⟩
    simp only [Token.sizeAll, Token.size] at hsize
    omega

/-- A bound begins with a name, a lifetime, a group, a question mark or colons. -/
theorem startsOpaqueBound_punct {c : Char} {joint : Bool}
    (h : startsOpaqueBound (.punct c joint :: ts) = true) :
    c = '?' ∨ (c = ':' ∧ isOperator "::" (.punct c joint :: ts) = true) := by
  simp only [startsOpaqueBound, startsBound, isAnyIdent, isLifetime, isGroup, Bool.false_or,
    Bool.or_false, Bool.or_eq_true] at h
  rcases h with h | h
  · refine .inr ⟨?_, h⟩
    cases joint with
    | false => cases h
    | true =>
      have hc := (Bool.and_eq_true_iff.mp h).1
      exact (of_decide_eq_true hc).symm
  · exact .inl (of_decide_eq_true h).symm

/-- The bounds of a parameter do not end where a bound begins. -/
theorem endsBounds_eq_false (h : startsOpaqueBound ts = true) : endsBounds ts = false := by
  match ts with
  | .ident _ :: _ | .lifetime _ :: _ | .group _ _ :: _ => rfl
  | .punct c joint :: us => rcases startsOpaqueBound_punct h with rfl | ⟨rfl, -⟩ <;> rfl

/-- The bounds of a predicate do not end there either. -/
theorem endsPredicate_eq_false (h : startsOpaqueBound ts = true) : endsPredicate ts = false := by
  match ts with
  | .ident _ :: _ | .lifetime _ :: _ | .group .paren _ :: _ | .group .bracket _ :: _ => rfl
  | .punct c joint :: us =>
    rcases startsOpaqueBound_punct h with rfl | ⟨rfl, hcolons⟩
    · rfl
    · change (false || false || false || false || (_ && !isOperator "::" _) || false) = false
      rw [hcolons]
      simp

/-- Bounds up to where `stop` holds are read back. -/
theorem keeps_bounds (hk : (atDepth k).Keeps) {stop : List Token → Bool}
    (hgoes : ∀ ts, startsOpaqueBound ts = true → stop ts = false) {bs : List Bound}
    {trailing : Bool} (h : ((atDepth k).bounds stop).Gives i (bs, trailing) j)
    (hsize : Token.sizeAll (joinTokens "+" trailing (Bound.parts bs)) < n)
    (hes : ∀ e ∈ Bound.allEmbedded bs, e.IsReadBack) (hrest : TypeEnds false j rest)
    (hstop : stop rest = true) (hplus : isOperator "+" rest = false) :
    ((atDepth n).bounds stop).Reads (joinTokens "+" trailing (Bound.parts bs) ++ rest) rest
      (· = (Bound.allOrdered bs, trailing)) := by
  obtain ⟨last, hitems, htrailing⟩ := h.openList
  obtain rfl : trailing = (last && !bs.isEmpty) := htrailing
  rw [Bound.parts_eq] at hsize ⊢
  rw [Bound.allEmbedded_eq] at hes
  rw [Bound.allOrdered_eq]
  have hitem : ∀ i b m, b ∈ bs → (atDepth k).bound.Gives i b m → ∀ ts, TypeEnds false m ts →
      (atDepth n).bound.Reads (b.tokens ++ ts) ts (· = b.ordered) ∧
        stop (b.tokens ++ ts) = false := by
    intro i b m hb hgives ts hts
    obtain ⟨hread, hstarts⟩ := (hk.bound hgives).reads (Token.sizeAll_lt_of_mem hsize hb)
      (fun e he => hes e (List.mem_flatMap_of_mem hb he)) hts
    exact ⟨hread, hgoes _ hstarts⟩
  have hread := hitems.reads (takes_bound n) hitem (fun m ts hm => typeEnds_plus hm rfl) hrest
    (fun _ => hstop) (fun _ => hplus)
  rw [← joinTokens_nonempty, List.isEmpty_map] at hread
  exact hread

/-- What stands between angle brackets begins with a type where it is no lifetime and no constant;
the type may be the name of something that is given a type, a constant or bounds. -/
def argumentAfter (g : Grammar) (type : Ty) : Parser Argument := do
  match type with
  | .path none _ false [owner] =>
    if ← operator? "=" then
      if ← sees startsConstant then return .assocConst owner (← g.constant)
      else return .assocType owner (← g.type true)
    else if ← operator? ":" then
      let (bounds, trailing) ← g.bounds fun ts => isOperator "," ts || isOperator ">" ts
      return .constraint owner bounds trailing
    else return .type type
  | _ => return .type type

theorem argument_eq (g : Grammar) : g.argument = (do
    if ← sees fun ts => isLifetime ts && !isOperator "+" (ts.drop 1) then
      return .lifetime (← lifetime)
    else if ← sees startsConstant then return .const (← g.constant)
    else g.argumentAfter (← g.type true)) := rfl

/-- A type alone is read where neither `=` nor a colon follows. -/
theorem reads_argumentAfter (g : Grammar) (type : Ty) (hrest : EndsParam rest) :
    (g.argumentAfter type).Reads rest rest (· = .type type) := by
  have hequals := hrest.isOperator_eq_false "=" (by decide)
  have hcolon := hrest.isOperator_eq_false ":" (by decide)
  unfold argumentAfter
  split
  · refine (reads_operator?_false hequals).bind_eq (reads_if_false rfl ?_)
    exact (reads_operator?_false hcolon).bind_eq (reads_if_false rfl (reads_pure rfl))
  · exact reads_pure rfl

/-- What begins with a type is read as an argument if the rest of it is. -/
theorem readsItem_argument_of_type {ty : Ty} {a : Argument} (hkept : ty.IsKept true i j)
    (hsize : Token.sizeAll ty.tokens < n) (hes : ∀ e ∈ ty.embedded true, e.IsReadBack)
    (ts : List Token)
    (hafter : ∀ rest, EndsParam rest → TypeEnds true j (ts ++ rest) ∧
      ((atDepth n).argumentAfter ty.ordered).Reads (ts ++ rest) rest (· = a)) :
    ReadsItem (atDepth n).argument (isOperator ">") EndsParam (ty.tokens ++ ts) (· = a) := by
  have hread {rest : List Token} (hrest : EndsParam rest) :=
    hkept.reads hsize hes (hafter rest hrest).1
  refine ⟨fun rest hrest => ?_, fun rest hrest => ?_⟩
  · rw [List.append_assoc, argument_eq]
    refine (reads_sees (isLoneLifetime_eq_false (hread hrest))).bind_eq (reads_if_false rfl ?_)
    refine (reads_sees (startsConstant_eq_false (hread hrest))).bind_eq (reads_if_false rfl ?_)
    exact (hread hrest).bind_eq (hafter rest hrest).2
  · rw [List.append_assoc]
    exact isOperator_eq_false_of_reads (c := '>') (hread hrest) (by decide)

theorem keeps_argument (hk : (atDepth k).Keeps) {a : Argument}
    (h : (atDepth k).argument.Gives i a j) (hsize : Token.sizeAll a.tokens < n)
    (hes : ∀ e ∈ a.embedded, e.IsReadBack) :
    ReadsItem (atDepth n).argument (isOperator ">") EndsParam a.tokens (· = a.ordered) := by
  rw [argument_eq] at h
  rcases h.branch with ⟨-, h⟩ | ⟨-, h⟩
  · obtain ⟨name, -, rfl⟩ := h.returns
    refine ⟨fun rest hrest => ?_, fun rest hrest => rfl⟩
    have hplus := hrest.isOperator_eq_false "+" (by decide)
    rw [argument_eq]
    refine (reads_sees (b := true) ?_).bind_eq (reads_if_true rfl ?_)
    · simp [Argument.tokens, isLifetime, hplus]
    · exact (reads_lifetime name).bind_eq (reads_pure rfl)
  rcases h.branch with ⟨hconst, h⟩ | ⟨-, h⟩
  · obtain ⟨v, hv, rfl⟩ := h.returns
    have hread := reads_constant (constant_cases hv hconst) (Nat.le_of_lt hsize) hes
    refine ⟨fun rest hrest => ?_, fun rest hrest => ?_⟩
    · rw [argument_eq]
      refine (reads_sees (b := false) ?_).bind_eq (reads_if_false rfl ?_)
      · have hlifetime := (opensNoType_of_startsConstant (hread rest).2).lifetime
        simp [Argument.tokens, hlifetime]
      · refine (reads_sees (hread rest).2).bind_eq (reads_if_true rfl ?_)
        exact (hread rest).1.bind_eq (reads_pure rfl)
    · exact isOperator_eq_false_of_startsConstant (hread rest).2
  obtain ⟨ty, m, hty, h⟩ := h.bind
  have hkept := hk.type hty
  have keeps_type (hsize : Token.sizeAll ty.tokens < n)
      (hes : ∀ e ∈ ty.embedded true, e.IsReadBack) :
      ReadsItem (atDepth n).argument (isOperator ">") EndsParam ty.tokens (· = .type ty.ordered) := by
    have hitem := readsItem_argument_of_type hkept hsize hes [] fun rest hrest =>
      ⟨hrest.typeEnds, reads_argumentAfter (atDepth n) ty.ordered hrest⟩
    rwa [List.append_nil] at hitem
  unfold argumentAfter at h
  split at h
  case h_2 =>
    obtain ⟨rfl, rfl⟩ := h.pure
    exact keeps_type hsize hes
  case h_1 depth owner =>
    have howner : (Ty.path none depth false [owner]).tokens = owner.tokens := by
      simp [Ty.tokens, operatorIf, Segment.joined]
    have keeps_owner {c : Char} {us : List Token} {a : Argument} (hc : c ∈ ['=', ':'])
        (hsize : Token.sizeAll owner.tokens < n) (hes : ∀ e ∈ owner.embedded, e.IsReadBack)
        (hafter : ∀ rest, EndsParam rest →
          ((atDepth n).argumentAfter (.path none depth false [owner.ordered])).Reads
            (.punct c false :: (us ++ rest)) rest (· = a)) :
        ReadsItem (atDepth n).argument (isOperator ">") EndsParam
          (owner.tokens ++ [.punct c false] ++ us) (· = a) := by
      rw [List.append_assoc, ← howner]
      refine readsItem_argument_of_type hkept (howner ▸ hsize) ?_ _ fun rest hrest => ⟨?_, ?_⟩
      · simpa [Ty.embedded, Segment.allEmbedded] using hes
      · exact typeEnds_punct (by revert hc; simp; rintro (rfl | rfl) <;> simp)
      · exact hafter rest hrest
    rcases h.operator?_bind with ⟨-, h⟩ | ⟨-, h⟩
    · rcases h.branch with ⟨hconst, h⟩ | ⟨-, h⟩
      · obtain ⟨v, hv, rfl⟩ := h.returns
        simp only [Argument.tokens, Token.sizeAll_append, Token.sizeAll, Token.size] at hsize
        simp only [Argument.embedded, List.mem_append] at hes
        have hread := reads_constant (n := n) (constant_cases hv hconst) (by omega)
          fun e he => hes e (.inr he)
        refine keeps_owner (by decide) (by omega) (fun e he => hes e (.inl he)) fun rest _ => ?_
        refine (reads_operator?_true rfl).bind_eq (reads_if_true rfl ?_)
        refine (reads_sees (hread rest).2).bind_eq (reads_if_true rfl ?_)
        exact (hread rest).1.bind_eq (reads_pure rfl)
      · obtain ⟨ty', hty', rfl⟩ := h.returns
        simp only [Argument.tokens, Token.sizeAll_append, Token.sizeAll, Token.size] at hsize
        simp only [Argument.embedded, List.mem_append] at hes
        refine keeps_owner (by decide) (by omega) (fun e he => hes e (.inl he)) fun rest hrest => ?_
        have hread := (hk.type hty').reads (n := n) (by omega) (fun e he => hes e (.inr he))
          hrest.typeEnds
        refine (reads_operator?_true rfl).bind_eq (reads_if_true rfl ?_)
        refine (reads_sees (startsConstant_eq_false hread)).bind_eq (reads_if_false rfl ?_)
        exact hread.bind_eq (reads_pure rfl)
    rcases h.operator?_bind with ⟨-, h⟩ | ⟨-, h⟩
    · obtain ⟨⟨bs, trailing⟩, hbounds, rfl⟩ := h.returns
      simp only [Argument.tokens, Token.sizeAll_append, Token.sizeAll, Token.size] at hsize
      simp only [Argument.embedded, List.mem_append] at hes
      refine keeps_owner (by decide) (by omega) (fun e he => hes e (.inl he)) fun rest hrest => ?_
      have hplus := hrest.isOperator_eq_false "+" (by decide)
      have hread := keeps_bounds hk (fun ts hts => ?_) hbounds (n := n) (by omega)
        (fun e he => hes e (.inr he)) hrest.typeEnds (by cases hrest <;> rfl) hplus
      · refine (reads_operator?_false rfl).bind_eq (reads_if_false rfl ?_)
        refine (reads_operator?_true rfl).bind_eq (reads_if_true rfl ?_)
        exact hread.bind_eq (reads_pure rfl)
      · exact (Bool.or_eq_false_iff.mp (endsBounds_eq_false hts)).1
    · obtain ⟨rfl, rfl⟩ := h.pure
      exact keeps_type hsize hes

/-- Arguments are read back in the order in which they are written. -/
theorem keeps_angleArguments (hk : (atDepth k).Keeps) {as : List Argument} {trailing : Bool}
    (h : (atDepth k).angleArguments.Gives i (as, trailing) j)
    (hsize : Token.sizeAll (lifetimesFirst trailing (Argument.parts as)) < n)
    (hes : ∀ e ∈ Argument.allEmbedded as, e.IsReadBack) (rest : List Token) :
    (atDepth n).angleArguments.Reads
      ([.punct '<' false] ++ lifetimesFirst trailing (Argument.parts as) ++ [.punct '>' false] ++ rest)
      rest
      (· = (lifetimesAhead (·.isLifetime) (Argument.allOrdered as),
        commaTrails (·.isLifetime) trailing as && !as.isEmpty)) := by
  obtain ⟨-, h⟩ := h.operator_bind
  obtain ⟨x, m, hlist, h⟩ := h.bind
  obtain ⟨-, h⟩ := h.operator_bind
  obtain ⟨rfl, -⟩ := h.pure
  obtain ⟨last, hitems, -⟩ := hlist.closedList
  rw [lifetimesFirst_parts] at hsize ⊢
  rw [Argument.allEmbedded_eq] at hes
  have hitem : ∀ a ∈ lifetimesAhead (·.isLifetime) as, ReadsItem (atDepth n).argument
      (isOperator ">") EndsParam a.tokens (· = a.ordered) := by
    intro a ha
    obtain ⟨i', m', -, hgives⟩ := hitems.exists_gives (mem_lifetimesAhead.mp ha)
    exact keeps_argument hk hgives (Token.sizeAll_lt_of_mem hsize ha)
      fun e he => hes e (List.mem_flatMap_of_mem (mem_lifetimesAhead.mp ha) he)
  have hread := reads_closedList_map "," (commaTrails (·.isLifetime) trailing as) hitem
    (fun ts => ⟨.comma ts, rfl⟩) (.angle rest) rfl
  simp only [List.append_assoc]
  refine (reads_operator rfl).bind fun _ _ => hread.bind_eq ?_
  refine (reads_operator rfl).bind fun _ _ => reads_pure ?_
  rw [Argument.allOrdered_eq, Argument.lifetimesAhead_map_ordered, isEmpty_lifetimesAhead]

end Grammar

end RowFactory
