import RowFactory.Proofs.Printed.Attributes
import RowFactory.Proofs.Printed.Paths

namespace RowFactory

open RowFactory.Parser

/-- What is written for a name in front of a parameter's type. -/
def paramNameTokens (name : Option Ident) : List Token :=
  name.toList.flatMap fun i => [.ident i, .punct ':' false]

/-- What is written for the dots in a function type. -/
def dotsTokens : Option (List Attribute × Option Ident × Bool) → List Token
  | none => []
  | some (attrs, name, comma) =>
    attributeTokens attrs ++ (paramNameTokens name ++ (Token.operator "..." ++ operatorIf comma ","))

/-- What is embedded in the attributes of dots. -/
def dotsEmbedded (dots : Option (List Attribute × Option Ident × Bool)) : List Embedded :=
  dots.toList.flatMap fun (attrs, _, _) => Attribute.allEmbedded attrs

namespace Grammar

variable {n k : Nat} {i j rest ts : List Token} {first : Bool}

/-- A changeable `self` stands here. -/
def mutableSelf (first : Bool) (ts : List Token) : Bool :=
  first && isWord "mut" ts && isWord "self" (ts.drop 1)

/-- A parameter may have the name that stands here. -/
def namesParam (first : Bool) (ts : List Token) : Bool :=
  isNameOrBlank ts || (first && isWord "self" ts)

/-- A parameter of which the type is known, if it has one that is kept. -/
def functionParamOf (attrs : List Attribute) (before : Cursor) (isMutable : Bool)
    (name : Option Ident) : Option Ty → Parser FnParam
  | some t =>
    if isMutable then return .mk attrs none (.verbatim (← restoreSince before))
    else return .mk attrs name t
  | none => return .mk attrs none (.verbatim (← restoreSince before))

/-- A parameter behind the mark that it may be changed. -/
def functionParamAfter (g : Grammar) (attrs : List Attribute) (first : Bool) (before : Cursor)
    (isMutable : Bool) : Parser FnParam := do
  let name ← ifSees (beforeColon (namesParam first)) paramName
  if !isMutable && name != some (.plain "self") && mutableSelf first (← ahead) then
    copy 2
    functionParamOf attrs before isMutable name none
  else if isMutable && name.isNone then
    word "self"
    functionParamOf attrs before isMutable name none
  else functionParamOf attrs before isMutable name (← some <$> g.type true)

theorem functionParam_eq (g : Grammar) (attrs : List Attribute) (first : Bool) :
    g.functionParam attrs first = (do
      let before ← cursor
      let isMutable ← sees (mutableSelf first)
      if isMutable then
        word "mut"
        g.functionParamAfter attrs first before isMutable
      else g.functionParamAfter attrs first before isMutable) := rfl

/-- A parameter is carried through, or has a name that may stand there and a type. -/
theorem gives_functionParam {g : Grammar} {attrs : List Attribute} {p : FnParam}
    (h : (g.functionParam attrs first).Gives i p j) :
    (∃ us, p = .mk attrs none (.verbatim us)) ∨
      ∃ name ty m, p = .mk attrs name ty ∧ (g.type true).Gives m ty j ∧
        ∀ x ∈ name, namesParam first [.ident x] = true := by
  rw [functionParam_eq] at h
  obtain ⟨before, -, h⟩ := h.cursor_bind
  obtain ⟨isMutable, m, h⟩ : ∃ isMutable m,
      (g.functionParamAfter attrs first before isMutable).Gives m p j := by
    rcases h.sees_bind.ite with ⟨-, h⟩ | ⟨-, h⟩
    · obtain ⟨m, -, h⟩ := h.word_bind
      exact ⟨_, m, h⟩
    · exact ⟨_, i, h⟩
  have carried {name : Option Ident} {m : List Token}
      (h : (functionParamOf attrs before isMutable name none).Gives m p j) :
      ∃ us, p = .mk attrs none (.verbatim us) := by
    obtain ⟨us, -, rfl⟩ := h.returns
    exact ⟨us, rfl⟩
  obtain ⟨name, m₁, hname, h⟩ := h.bind
  rcases h.ahead_bind.ite with ⟨-, h⟩ | ⟨-, h⟩
  · obtain ⟨_, m₂, -, h⟩ := h.bind
    exact .inl (carried h)
  rcases h.ite with ⟨-, h⟩ | ⟨-, h⟩
  · obtain ⟨_, -, h⟩ := h.word_bind
    exact .inl (carried h)
  obtain ⟨_, m₂, htype, h⟩ := h.bind
  obtain ⟨ty, hty, rfl⟩ := htype.map
  rcases h.ite with ⟨-, h⟩ | ⟨-, h⟩
  · obtain ⟨us, -, rfl⟩ := h.returns
    exact .inl ⟨us, rfl⟩
  obtain ⟨rfl, rfl⟩ := h.pure
  refine .inr ⟨name, ty, m₁, rfl, hty, ?_⟩
  rcases hname.ifSees with ⟨hseen, x, hx, rfl⟩ | ⟨-, rfl, -⟩
  · obtain ⟨x', m₃, hident, hx⟩ := hx.bind
    obtain ⟨-, hx⟩ := hx.operator_bind
    obtain ⟨rfl, -⟩ := hx.pure
    rw [hident.anyIdent] at hseen
    simp only [beforeColon, Bool.and_eq_true] at hseen
    rintro _ ⟨⟩
    exact hseen.1.1
  · exact nofun

section

variable {Q : Ty → Prop}

theorem mutableSelf_eq_false (h : ((atDepth n).type true).Reads ts rest Q) :
    mutableSelf first ts = false := by
  rw [mutableSelf, isWord_eq_false_of_reads h (by decide), Bool.and_false, Bool.false_and]

/-- The type that is to be inferred is read back. -/
theorem reads_infer (g : Grammar) (plus : Bool) (rest : List Token) :
    (g.oneType plus).Reads (.word "_" :: rest) rest (· = .infer) := by
  have hmarked : (g.markedType plus).Reads (.word "_" :: rest) rest (· = .infer) := by
    refine reads_cursor.bind fun _ _ => (reads_word?_false rfl).bind_eq (reads_if_false rfl ?_)
    refine (reads_sees rfl).bind_eq (reads_if_false rfl ?_)
    refine (reads_operator?_false rfl).bind_eq (reads_if_false rfl ?_)
    refine (reads_operator?_false rfl).bind_eq (reads_if_false rfl ?_)
    refine (reads_operator?_false rfl).bind_eq (reads_if_false rfl ?_)
    refine (reads_word?_false rfl).bind_eq (reads_if_false rfl ?_)
    exact (reads_word?_true "_").bind_eq (reads_if_true rfl (reads_pure rfl))
  refine reads_cursor.bind fun _ _ => (reads_ifSees_false rfl).bind_eq (reads_ahead.bind_eq ?_)
  exact reads_if_false rfl (reads_if_false rfl (reads_if_false rfl (reads_if_false rfl
    (reads_if_false rfl hmarked))))

/-- Of a name in front of a colon no more is read as a type. -/
theorem reads_type_name {name : Ident} (hname : namesParam first [.ident name] = true)
    (hcolon : isOperator ":" ts = true) (hcolons : isOperator "::" ts = false) :
    ((atDepth (n + 1)).type true).Reads (.ident name :: ts) ts fun _ => True := by
  have hends : EndsType ts := endsType_of_endsName (by simp [endsName, hcolon, hcolons])
  have hcases : name.isKeyword = false ∨ name = .plain "_" ∨ name = .plain "self" := by
    simp only [namesParam, isNameOrBlank, isIdent, isWord, Bool.or_eq_true, Bool.not_eq_true',
      decide_eq_true_eq, Bool.and_eq_true] at hname
    rcases hname with (hname | hname) | hname
    · exact .inl hname
    · exact .inr (.inl hname)
    · exact .inr (.inr hname.2)
  have hpath (hreadable : Path.IsReadable ⟨false, [.plain name]⟩)
      (hplain : Path.startsPlain ⟨false, [.plain name]⟩) :
      ((atDepth (n + 1)).type true).Reads (.ident name :: ts) ts fun _ => True :=
    (hreadable.reads_type hplain hends n true).mono fun _ _ => trivial
  rcases hcases with hkeyword | rfl | rfl
  · have hreadable := Path.isReadable_name hkeyword
    exact hpath hreadable.1 hreadable.2
  · exact ((reads_infer _ true ts).writtenAs _).mono fun _ _ => trivial
  · exact hpath ⟨_, [], rfl, by decide⟩ rfl

/-- A parameter that is read as a type alone has no name in front of a colon. -/
theorem beforeColon_eq_false (h : ((atDepth n).type true).Reads ts rest Q)
    (hrest : EndsFnParam rest) : beforeColon (namesParam first) ts = false := by
  refine Bool.eq_false_iff.mpr fun hcolon => ?_
  simp only [beforeColon, Bool.and_eq_true, Bool.not_eq_true'] at hcolon
  obtain ⟨⟨hname, hcolon⟩, hcolons⟩ := hcolon
  match ts with
  | .ident name :: us =>
    cases n with
    | zero => exact h.not_fails (fails_failure _)
    | succ n =>
      have hread := reads_type_name (n := n) hname hcolon hcolons
      obtain rfl := h.left_eq hread
      cases hrest <;> cases hcolon
  | [] | .punct _ _ :: _ | .lifetime _ :: _ | .literal _ :: _ | .group _ _ :: _ =>
    cases first <;> cases hname

end

/-- What is written for a parameter behind its attributes. -/
def bareParamTokens (name : Option Ident) (ty : Ty) : List Token := paramNameTokens name ++ ty.tokens

/-- Without a name or a type there is no parameter. -/
theorem fails_functionParam (attrs : List Attribute) (hopens : OpensNoType ts)
    (hident : isAnyIdent ts = false) : ((atDepth n).functionParam attrs first).Fails ts := by
  have hword (w : String) : isWord w ts = false := by
    match ts with
    | [] | .punct _ _ :: _ | .lifetime _ :: _ | .literal _ :: _ | .group _ _ :: _ => rfl
  have hmut : mutableSelf first ts = false := by simp [mutableSelf, hword]
  have hname : beforeColon (namesParam first) ts = false := by
    simp [beforeColon, namesParam, isNameOrBlank, hword, hopens.ident]
  rw [functionParam_eq]
  refine reads_cursor.fails_bind fun before _ => (reads_sees hmut).bind_fails ?_
  refine fails_if_false rfl ((reads_ifSees_false hname).bind_fails (reads_ahead.bind_fails ?_))
  refine fails_if_false (by simp [hmut]) (fails_if_false rfl (Fails.bind_left ?_ _))
  exact (fails_type true hopens).bind_left _

/-- A parameter does not begin with the mark of an attribute, and something is written for it. -/
theorem opensFnParam_of_reads {attrs : List Attribute} {Q : FnParam → Prop}
    (h : ((atDepth n).functionParam attrs first).Reads ts rest Q) :
    isOperator "#" ts = false ∧ ts ≠ [] := by
  refine ⟨Bool.eq_false_iff.mpr fun hmark => ?_, ?_⟩
  · obtain ⟨joint, us, rfl⟩ := exists_punct_of_isOperator (c := '#') hmark rfl
    exact h.not_fails (fails_functionParam attrs (opensNoType_punct (by decide)) rfl)
  · rintro rfl
    refine h.not_fails (fails_functionParam attrs ?_ rfl)
    exact ⟨fun _ _ => rfl, rfl, ⟨rfl, rfl⟩, by decide, rfl⟩

/-- Without a name in front of a colon, dots stand in front if any do. -/
theorem startsVariadic_eq_false (hdots : isOperator "..." ts = false)
    (h : beforeColon (namesParam first) ts = false) : startsVariadic ts = false := by
  refine Bool.eq_false_iff.mpr fun hseen => ?_
  simp only [startsVariadic, hdots, Bool.false_or, Bool.and_eq_true] at hseen
  obtain ⟨⟨hname, hcolon⟩, hlater⟩ := hseen
  have hcolons : isOperator "::" (ts.drop 1) = true := by
    simpa only [beforeColon, namesParam, hname, hcolon, Bool.true_or, Bool.true_and,
      Bool.not_eq_false'] using h
  match ts with
  | t :: .punct c true :: us =>
    have hcolon : isOperator ":" us = true := (Bool.and_eq_true_iff.mp hcolons).2
    obtain ⟨joint, us, rfl⟩ := exists_punct_of_isOperator hcolon rfl
    obtain ⟨_, _, heq⟩ := exists_punct_of_isOperator hlater rfl
    cases heq
  | [] | [_] | _ :: .ident _ :: _ | _ :: .lifetime _ :: _ | _ :: .literal _ :: _
  | _ :: .group _ _ :: _ | _ :: .punct _ false :: _ => cases hcolons

/-- A parameter with a type that is read back is read back. -/
theorem reads_functionParam {attrs : List Attribute} {name : Option Ident} {ty : Ty}
    (hty : ty.IsKept true i j) (hname : ∀ x ∈ name, namesParam first [.ident x] = true)
    (hsize : Token.sizeAll ty.tokens < n) (hes : ∀ e ∈ ty.embedded true, e.IsReadBack)
    (hrest : EndsFnParam rest) :
    ((atDepth n).functionParam attrs first).Reads (bareParamTokens name ty ++ rest) rest
        (· = .mk attrs name ty.ordered) ∧
      startsVariadic (bareParamTokens name ty ++ rest) = false := by
  have hread := hty.reads hsize hes (hrest.typeEnds (j := j))
  have hmut : mutableSelf first (ty.tokens ++ rest) = false := mutableSelf_eq_false hread
  have hdots : isOperator "..." (ty.tokens ++ rest) = false :=
    isOperator_eq_false_of_reads (c := '.') hread (by decide)
  have hafter (before : Cursor) {ts : List Token}
      (hfront : (ifSees (beforeColon (namesParam first)) paramName).Reads ts (ty.tokens ++ rest)
        (· = name)) :
      ((atDepth n).functionParamAfter attrs first before false).Reads ts rest
        (· = .mk attrs name ty.ordered) := by
    refine hfront.bind_eq (reads_ahead.bind_eq (reads_if_false (by simp [hmut]) ?_))
    have hsome : (some <$> (atDepth n).type true).Reads (ty.tokens ++ rest) rest
        (· = some ty.ordered) := hread.bind_eq (reads_pure rfl)
    refine reads_if_false rfl (hsome.bind_eq ?_)
    exact reads_pure rfl
  rw [functionParam_eq]
  cases name with
  | none =>
    have hcolon : beforeColon (namesParam first) (ty.tokens ++ rest) = false :=
      beforeColon_eq_false hread hrest
    refine ⟨?_, ?_⟩
    · refine reads_cursor.bind fun before _ => (reads_sees hmut).bind_eq (reads_if_false rfl ?_)
      exact hafter before (reads_ifSees_false hcolon)
    · exact startsVariadic_eq_false hdots hcolon
  | some x =>
    have hx := hname x rfl
    refine ⟨?_, ?_⟩
    · refine reads_cursor.bind fun before _ => (reads_sees ?_).bind_eq (reads_if_false rfl ?_)
      · cases first <;> simp [mutableSelf, isWord, paramNameTokens, bareParamTokens]
      · have hcolon : beforeColon (namesParam first)
            (.ident x :: .punct ':' false :: (ty.tokens ++ rest)) = true :=
          Bool.and_eq_true_iff.mpr ⟨Bool.and_eq_true_iff.mpr ⟨hx, rfl⟩, rfl⟩
        refine hafter before ((reads_sees hcolon).bind_eq (reads_if_true rfl ?_))
        have hparam : paramName.Reads (.ident x :: .punct ':' false :: (ty.tokens ++ rest))
            (ty.tokens ++ rest) (· = x) :=
          (reads_anyIdent x).bind_eq ((reads_operator rfl).bind fun _ _ => reads_pure rfl)
        exact hparam.bind_eq (reads_pure rfl)
    · have hlater : startsVariadic (.ident x :: .punct ':' false :: (ty.tokens ++ rest)) =
          (isNameOrBlank [.ident x] && isOperator "..." (ty.tokens ++ rest)) := by
        simp [startsVariadic, isOperator, startsOperator, isNameOrBlank, isIdent, isWord]
      exact hlater.trans (by rw [hdots, Bool.and_false])

/-- What is embedded in a parameter of a function type. -/
theorem embedded_fnParam (first : Bool) (attrs : List Attribute) (name : Option Ident) (ty : Ty) :
    (∃ us, name = none ∧ ty = .verbatim us ∧ (FnParam.mk attrs name ty).embedded first =
      Attribute.allEmbedded attrs ++ [.fnParam first us]) ∨
    (∀ us, ¬ (name = none ∧ ty = .verbatim us)) ∧ (FnParam.mk attrs name ty).embedded first =
      Attribute.allEmbedded attrs ++ ty.embedded true := by
  unfold FnParam.embedded
  split
  · next attrs' us heq =>
    cases heq
    exact .inl ⟨us, rfl, rfl, rfl⟩
  · next attrs' name' ty' hother heq =>
    cases heq
    exact .inr ⟨fun us h => hother us h.1 h.2, rfl⟩

/-- A parameter of a function type is read back. -/
theorem keeps_functionParam (hk : (atDepth k).Keeps) {attrs : List Attribute} {p : FnParam}
    (h : ((atDepth k).functionParam attrs first).Gives i p j) :
    ∃ name ty, p = .mk attrs name ty ∧ ∀ n, Token.sizeAll (bareParamTokens name ty) < n →
      (∀ e ∈ p.embedded first, e.IsReadBack) → ∀ rest, EndsFnParam rest →
      ((atDepth n).functionParam attrs first).Reads (bareParamTokens name ty ++ rest) rest
          (· = p.ordered) ∧
        startsVariadic (bareParamTokens name ty ++ rest) = false := by
  obtain ⟨name, ty, rfl, hp⟩ : ∃ name ty, p = .mk attrs name ty ∧
      ((∃ us, name = none ∧ ty = .verbatim us) ∨ ∃ m, ((atDepth k).type true).Gives m ty j ∧
        ∀ x ∈ name, namesParam first [.ident x] = true) := by
    rcases gives_functionParam h with ⟨us, rfl⟩ | ⟨name, ty, m, rfl, hty, hname⟩
    · exact ⟨none, .verbatim us, rfl, .inl ⟨us, rfl, rfl⟩⟩
    · exact ⟨name, ty, rfl, .inr ⟨m, hty, hname⟩⟩
  refine ⟨name, ty, rfl, fun n hsize hes rest hrest => ?_⟩
  rcases embedded_fnParam first attrs name ty with ⟨us, rfl, rfl, hembedded⟩ | ⟨hother, hembedded⟩
  · rw [hembedded] at hes
    have hcarried := hes (.fnParam first us) (by simp)
    exact hcarried n (Nat.le_of_lt hsize) attrs rest hrest
  · rw [hembedded] at hes
    rw [bareParamTokens, Token.sizeAll_append] at hsize
    rcases hp with ⟨us, hname, hty⟩ | ⟨m, hty, hname⟩
    · exact absurd ⟨hname, hty⟩ (hother us)
    · exact reads_functionParam (hk.type hty) hname (by omega)
        (fun e he => hes e (List.mem_append_right _ he)) hrest

/-- A parameter is read back with the attributes in front of it. -/
theorem keeps_attributedParam (hk : (atDepth k).Keeps) {attrs : List Attribute} {p : FnParam}
    {m : List Token} (hattrs : (atDepth k).outerAttributes.Gives i attrs m)
    (h : ((atDepth k).functionParam attrs first).Gives m p j) (hsize : Token.sizeAll p.tokens < n)
    (hes : ∀ e ∈ p.embedded first, e.IsReadBack) (hrest : EndsFnParam rest) :
    p.tokens ++ rest ≠ [] ∧
    ∃ m, (atDepth n).outerAttributes.Reads (p.tokens ++ rest) m (· = attrs) ∧
      startsVariadic m = false ∧
      ((atDepth n).functionParam attrs first).Reads m rest (· = p.ordered) := by
  obtain ⟨name, ty, rfl, hkept⟩ := keeps_functionParam hk h
  have htokens : (FnParam.mk attrs name ty).tokens =
      attributeTokens attrs ++ bareParamTokens name ty := by
    simp [FnParam.tokens, bareParamTokens, paramNameTokens]
  rw [htokens, Token.sizeAll_append] at hsize
  have hattributes : ∀ e ∈ Attribute.allEmbedded attrs, e.IsReadBack := by
    intro e he
    refine hes e ?_
    rcases embedded_fnParam first attrs name ty with ⟨us, -, -, hembedded⟩ | ⟨-, hembedded⟩ <;>
    · rw [hembedded]
      exact List.mem_append_left _ he
  obtain ⟨hread, hdots⟩ := hkept n (by omega) hes rest hrest
  obtain ⟨hmark, hmore⟩ := opensFnParam_of_reads hread
  rw [htokens, List.append_assoc]
  refine ⟨List.append_ne_nil_of_right_ne_nil _ hmore, _, ?_, hdots, hread⟩
  exact keeps_outerAttributes hattrs (by omega) hattributes hmark

/-- The dots in a function type are read back. -/
theorem keeps_variadic {name : Option Ident} {comma : Bool} (h : variadic.Gives i (name, comma) j)
    (ts : List Token)
    (hts : ts = paramNameTokens name ++ (Token.operator "..." ++ operatorIf comma ",")) :
    isOperator "#" ts = false ∧ startsVariadic ts = true ∧
      variadic.Reads ts [] (· = (name, comma)) := by
  obtain ⟨name', m, hname, h⟩ := h.bind
  obtain ⟨-, h⟩ := h.operator_bind
  obtain ⟨comma', -, heq⟩ := h.returns
  obtain ⟨rfl, rfl⟩ : name = name' ∧ comma = comma' := by simpa using heq
  subst hts
  have hcomma : (operator? ",").Reads (operatorIf comma ",") [] (· = comma) := by
    cases comma with
    | true => exact reads_operator?_true rfl
    | false => exact reads_operator?_false rfl
  have hdots : (do
      operator "..."
      return (name, ← operator? ",") : Parser (Option Ident × Bool)).Reads
      (Token.operator "..." ++ operatorIf comma ",") [] (· = (name, comma)) :=
    (reads_operator_written "..." _).bind fun _ _ => hcomma.bind_eq (reads_pure rfl)
  rcases hname.ifSees with ⟨hseen, x, hx, rfl⟩ | ⟨-, rfl, -⟩
  · obtain ⟨x', m₁, hident, hx⟩ := hx.bind
    obtain ⟨-, hx⟩ := hx.operator_bind
    obtain ⟨rfl, -⟩ := hx.pure
    rw [hident.anyIdent] at hseen
    have hparam : paramName.Reads
        (paramNameTokens (some x) ++ (Token.operator "..." ++ operatorIf comma ","))
        (Token.operator "..." ++ operatorIf comma ",") (· = x) :=
      (reads_anyIdent x).bind_eq ((reads_operator rfl).bind fun _ _ => reads_pure rfl)
    refine ⟨rfl, ?_, Reads.bind_eq (a := some x) ?_ hdots⟩
    · exact Bool.or_eq_true_iff.mpr (.inr (Bool.and_eq_true_iff.mpr
        ⟨Bool.and_eq_true_iff.mpr ⟨hseen, rfl⟩, rfl⟩))
    · have hname : isNameOrBlank (paramNameTokens (some x) ++
          (Token.operator "..." ++ operatorIf comma ",")) = true := hseen
      exact (reads_sees hname).bind_eq (reads_if_true rfl (hparam.bind_eq (reads_pure rfl)))
  · exact ⟨rfl, rfl, (reads_ifSees_false rfl).bind_eq hdots⟩

/-- Parameters of a function type behind the first. -/
def functionParamsAfter (g : Grammar) (fuel : Nat) (p : FnParam) :
    Parser (List FnParam × Bool × Option (List Attribute × Option Ident × Bool)) := do
  if ← atEnd then return ([p], false, none)
  else
    operator ","
    let (rest, trailing, dots) ← g.functionParams false fuel
    return (p :: rest, trailing, dots)

/-- A parameter is read back as the first of those in front of which it stands. -/
theorem reads_functionParams_of_param (hk : (atDepth k).Keeps) {attrs : List Attribute}
    {p : FnParam} {m : List Token} (hattrs : (atDepth k).outerAttributes.Gives i attrs m)
    (h : ((atDepth k).functionParam attrs first).Gives m p j) (hsize : Token.sizeAll p.tokens < n)
    (hes : ∀ e ∈ p.embedded first, e.IsReadBack) (hrest : EndsFnParam rest) {fuel : Nat}
    {Q : List FnParam × Bool × Option (List Attribute × Option Ident × Bool) → Prop}
    (hafter : ((atDepth n).functionParamsAfter fuel p.ordered).Reads rest [] Q) :
    ((atDepth n).functionParams first (fuel + 1)).Reads (p.tokens ++ rest) [] Q := by
  obtain ⟨hne, m', hattributes, hdots, hread⟩ :=
    keeps_attributedParam hk hattrs h hsize hes hrest
  refine (reads_sees (List.isEmpty_eq_false_iff.mpr hne)).bind_eq (reads_if_false rfl ?_)
  refine hattributes.bind_eq (reads_ahead.bind_eq (reads_if_false hdots ?_))
  exact hread.bind_eq hafter

/-- Parameters of a function type are read back, and the dots behind them. -/
theorem keeps_functionParams (hk : (atDepth k).Keeps) (fuel : Nat) :
    ∀ {first : Bool} {i j : List Token} {params : List FnParam} {trailing : Bool}
      {dots : Option (List Attribute × Option Ident × Bool)},
    ((atDepth k).functionParams first fuel).Gives i (params, trailing, dots) j →
    ((trailing || !params.isEmpty) = true ∧ (dots.isSome = true → trailing = true)) ∧
    ∀ {n fuel' : Nat} (content : List Token),
      content = joinTokens "," trailing (FnParam.parts params) ++ dotsTokens dots →
      Token.sizeAll content < n → content.length < fuel' →
      (∀ e ∈ FnParam.allEmbedded first params ++ dotsEmbedded dots, e.IsReadBack) →
      ((atDepth n).functionParams first fuel').Reads content []
        (· = (FnParam.allOrdered params, trailing, dots)) := by
  induction fuel with
  | zero => exact fun h => absurd h not_gives_failure
  | succ fuel ih =>
    intro first i j params trailing dots h
    rcases h.branch with ⟨hend, h⟩ | ⟨-, h⟩
    · obtain ⟨heq, -⟩ := h.pure
      cases heq
      refine ⟨⟨rfl, nofun⟩, fun {n fuel'} content hcontent hsize hfuel hes => ?_⟩
      obtain ⟨fuel', rfl⟩ := Nat.exists_eq_add_one.mpr (Nat.zero_lt_of_lt hfuel)
      subst hcontent
      exact (reads_sees rfl).bind_eq (reads_if_true rfl (reads_pure rfl))
    obtain ⟨attrs, m, hattrs, h⟩ := h.bind
    rcases h.ahead_bind.ite with ⟨-, h⟩ | ⟨-, h⟩
    · obtain ⟨⟨name, comma⟩, m₁, hvariadic, h⟩ := h.bind
      obtain ⟨heq, -⟩ := h.pure
      cases heq
      refine ⟨⟨rfl, fun _ => rfl⟩, fun {n fuel'} content hcontent hsize hfuel hes => ?_⟩
      obtain ⟨fuel', rfl⟩ := Nat.exists_eq_add_one.mpr (Nat.zero_lt_of_lt hfuel)
      obtain ⟨hmark, hdots, hread⟩ := keeps_variadic hvariadic _ rfl
      replace hcontent : content = attributeTokens attrs ++
        (paramNameTokens name ++ (Token.operator "..." ++ operatorIf comma ",")) := hcontent
      have hne : content.isEmpty = false := by
        rw [hcontent]
        cases attrs <;> cases name <;> rfl
      subst hcontent
      rw [Token.sizeAll_append] at hsize
      refine (reads_sees hne).bind_eq (reads_if_false rfl ?_)
      refine (keeps_outerAttributes hattrs (by omega) (fun e he => hes e ?_) hmark).bind_eq ?_
      · simpa [dotsEmbedded] using .inr he
      · exact reads_ahead.bind_eq (reads_if_true hdots (hread.bind_eq (reads_pure rfl)))
    · obtain ⟨p, m₁, hp, h⟩ := h.bind
      rcases h.branch with ⟨hend, h⟩ | ⟨-, h⟩
      · obtain ⟨heq, -⟩ := h.pure
        cases heq
        refine ⟨⟨rfl, nofun⟩, fun {n fuel'} content hcontent hsize hfuel hes => ?_⟩
        obtain ⟨fuel', rfl⟩ := Nat.exists_eq_add_one.mpr (Nat.zero_lt_of_lt hfuel)
        obtain rfl : content = p.tokens ++ [] := by
          simpa [FnParam.parts, joinTokens, dotsTokens] using hcontent
        rw [Token.sizeAll_append] at hsize
        refine reads_functionParams_of_param hk hattrs hp (by omega) (fun e he => hes e ?_) .none
          ((reads_sees rfl).bind_eq (reads_if_true rfl (reads_pure rfl)))
        simpa [FnParam.allEmbedded, dotsEmbedded] using he
      · obtain ⟨-, h⟩ := h.operator_bind
        obtain ⟨⟨later, trailing', dots'⟩, hlater, heq⟩ := h.returns
        obtain ⟨rfl, rfl, rfl⟩ : params = p :: later ∧ trailing = trailing' ∧ dots = dots' := by
          simpa using heq
        obtain ⟨⟨hmore, hdots⟩, hkept⟩ := ih hlater
        refine ⟨⟨by simp, hdots⟩, fun {n fuel'} content hcontent hsize hfuel hes => ?_⟩
        have hempty : (FnParam.parts later).isEmpty = later.isEmpty := by
          rw [FnParam.parts_eq, List.isEmpty_map]
        rw [FnParam.parts, joinTokens_cons, hempty, hmore, operatorIf_true] at hcontent
        obtain ⟨fuel', rfl⟩ := Nat.exists_eq_add_one.mpr (Nat.zero_lt_of_lt hfuel)
        subst hcontent
        have hcomma : (Token.operator ",").length = 1 := rfl
        simp only [List.length_append, Token.sizeAll_append] at hsize hfuel
        simp only [FnParam.allEmbedded, List.append_assoc, List.mem_append] at hes
        have hread := @hkept n fuel' _ rfl
          (by simp only [Token.sizeAll_append]; omega) (by simp only [List.length_append]; omega)
          fun e he => hes e (.inr (List.mem_append.mp he))
        refine reads_functionParams_of_param hk hattrs hp (by omega) (fun e he => hes e (.inl he))
          (.comma _) ?_
        refine (reads_sees rfl).bind_eq (reads_if_false rfl ?_)
        refine (reads_operator rfl).bind fun _ _ => hread.bind_eq (reads_pure ?_)
        rw [FnParam.allOrdered]

/-- A calling convention is read back in front of the word that follows it. -/
theorem keeps_abi {abi : Option (Option String)} (h : abi?.Gives i abi j) (rest : List Token) :
    abi?.Reads (abiTokens abi ++ .word "fn" :: rest) (.word "fn" :: rest) (· = abi) := by
  rcases h.ifSees with ⟨-, name, hname, rfl⟩ | ⟨-, rfl, -⟩
  · obtain ⟨_, -, hname⟩ := hname.word_bind
    have hread : Parser.abi.Reads (abiTokens (some name) ++ .word "fn" :: rest)
        (.word "fn" :: rest) (· = name) := by
      have hname := hname.ahead_bind
      split at hname
      · rcases hname.ite with ⟨hkind, hname⟩ | ⟨-, hname⟩
        · obtain ⟨_, m, -, hname⟩ := hname.bind
          obtain ⟨rfl, -⟩ := hname.pure
          refine (reads_word "extern").bind fun _ _ => reads_ahead.bind_eq ?_
          refine reads_ite (fun _ => ?_) fun hother => absurd hkind hother
          exact (reads_copy_one _ _).bind fun _ _ => reads_pure rfl
        · obtain ⟨rfl, -⟩ := hname.pure
          exact (reads_word "extern").bind fun _ _ => reads_ahead.bind_eq (reads_pure rfl)
      · obtain ⟨rfl, -⟩ := hname.pure
        exact (reads_word "extern").bind fun _ _ => reads_ahead.bind_eq (reads_pure rfl)
    have hextern : isWord "extern" (abiTokens (some name) ++ .word "fn" :: rest) = true := by
      cases name <;> rfl
    exact (reads_sees hextern).bind_eq (reads_if_true rfl (hread.bind_eq (reads_pure rfl)))
  · exact reads_ifSees_false rfl

/-- No comma is added in front of dots: where parameters stand there, one trails. -/
theorem tokens_function (binder : Option Binder) (isUnsafe : Bool) (abi : Option (Option String))
    (params : List FnParam) (trailing : Bool)
    (dots : Option (List Attribute × Option Ident × Bool)) (output : Option Ty)
    (hdots : dots.isSome = true → trailing = true) :
    (Ty.function binder isUnsafe abi params (trailing && !params.isEmpty) dots output).tokens =
      binderTokens binder ++ (wordIf isUnsafe "unsafe" ++ (abiTokens abi ++ .word "fn" ::
        .group .paren (joinTokens "," trailing (FnParam.parts params) ++ dotsTokens dots) ::
          Ty.outputTokens output)) := by
  have hempty : (FnParam.parts params).isEmpty = params.isEmpty := by
    rw [FnParam.parts_eq, List.isEmpty_map]
  have hjoin := joinTokens_nonempty "," trailing (FnParam.parts params)
  rw [hempty] at hjoin
  cases dots with
  | none => simp [Ty.tokens, dotsTokens, hjoin]
  | some dots =>
    obtain ⟨attrs, name, comma⟩ := dots
    obtain rfl := hdots rfl
    rw [Bool.true_and] at hjoin
    simp [Ty.tokens, dotsTokens, hjoin, paramNameTokens]

/-- A function type behind its binder is read back. -/
theorem keeps_functionType (hk : (atDepth k).Keeps) (plus : Bool) {binder : Option Binder} {ty : Ty}
    (h : ((atDepth k).functionType binder).Gives i ty j) :
    parenBound? ty = none ∧ ∃ ts, ty.tokens = binderTokens binder ++ ts ∧
      (∀ rest, startsFunction (ts ++ rest) = true) ∧
      (∀ e ∈ binderEmbedded binder, e ∈ ty.embedded plus) ∧
      ReadsAgain (·.functionType binder) (TypeEnds false j) ts (ty.embedded plus) ty.ordered := by
  obtain ⟨isUnsafe, m, -, h⟩ := h.bind
  obtain ⟨abi, m₁, habi, h⟩ := h.bind
  obtain ⟨_, -, h⟩ := h.word_bind
  obtain ⟨⟨params, trailing, dots⟩, m₂, hparams, h⟩ := h.bind
  obtain ⟨output, houtput, rfl⟩ := h.returns
  obtain ⟨body, left, -, hparams⟩ := hparams.group
  obtain ⟨⟨-, hdots⟩, hkept⟩ := keeps_functionParams hk _ hparams.ahead_bind
  have htokens := tokens_function binder isUnsafe abi params trailing dots output hdots
  refine ⟨rfl, _, htokens, fun rest => ?_, fun e he => ?_, fun n hsize hes rest hrest => ?_⟩
  · cases isUnsafe <;> rcases abi with _ | _ | _ <;> rfl
  · simp only [Ty.embedded, List.append_assoc, List.mem_append]
    exact .inl he
  simp only [Token.sizeAll_append, Token.sizeAll, Token.size] at hsize
  simp only [Ty.embedded, List.append_assoc, List.mem_append] at hes
  have hread := hkept (n := n) _ rfl (by simp only [Token.sizeAll_append]; omega)
    (Nat.lt_succ_self _) fun e he => ?_
  · have houtput := keeps_output hk houtput (n := n) (by omega)
      (fun e he => hes e (.inr (.inr (.inr he)))) hrest
    have hunsafe : (word? "unsafe").Reads (wordIf isUnsafe "unsafe" ++ (abiTokens abi ++
          .word "fn" :: .group .paren (joinTokens "," trailing (FnParam.parts params) ++
            dotsTokens dots) :: (Ty.outputTokens output ++ rest)))
        (abiTokens abi ++ .word "fn" :: .group .paren (joinTokens "," trailing
          (FnParam.parts params) ++ dotsTokens dots) :: (Ty.outputTokens output ++ rest))
        (· = isUnsafe) := by
      cases isUnsafe with
      | true => exact reads_word?_true "unsafe"
      | false => exact reads_word?_false (by rcases abi with _ | _ | _ <;> rfl)
    simp only [List.append_assoc, List.cons_append]
    refine hunsafe.bind_eq ((keeps_abi habi _).bind_eq ((reads_word "fn").bind fun _ _ => ?_))
    have hparams : (group .paren do
        (atDepth n).functionParams true ((← ahead).length + 1)).Reads
        (.group .paren (joinTokens "," trailing (FnParam.parts params) ++ dotsTokens dots) ::
          (Ty.outputTokens output ++ rest)) (Ty.outputTokens output ++ rest)
        (· = (FnParam.allOrdered params, trailing, dots)) := (reads_ahead.bind_eq hread).group .paren
    refine hparams.bind_eq (houtput.bind_eq (reads_pure ?_))
    rw [Ty.ordered, FnParam.allOrdered_eq, List.isEmpty_map]
  · rcases List.mem_append.mp he with he | he
    · exact hes e (.inr (.inl he))
    · exact hes e (.inr (.inr (.inl he)))

end Grammar

end RowFactory
