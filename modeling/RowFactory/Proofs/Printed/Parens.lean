import RowFactory.Proofs.Printed.Bounds

namespace RowFactory

open RowFactory.Parser

namespace Grammar

variable {n k : Nat} {i j rest : List Token}

/-- A trait that need not hold is a bound in parentheses. -/
theorem KeepsTrait.reads_parenContent {binder : Option Binder} {p : Path}
    (h : KeepsTrait true binder p j)
    (hsize : Token.sizeAll (traitBoundTokens true binder p) ≤ n)
    (hes : ∀ e ∈ binderEmbedded binder ++ Segment.allEmbedded p.segments, e.IsReadBack) :
    (atDepth n).parenContent.Reads (traitBoundTokens true binder p) []
      (· = .object false
        [.trait true true binder p.leadingColon (Segment.allOrdered p.segments)] false) := by
  have hread := h.reads true false hsize hes typeEnds_nil
  rw [List.append_nil] at hread
  refine (reads_sees (b := false) rfl).bind_eq (reads_if_false rfl ?_)
  refine (reads_sees rfl).bind_eq (reads_if_false rfl ?_)
  refine (reads_sees rfl).bind_eq (reads_if_true rfl ?_)
  exact hread.bind_eq (reads_pure rfl)

theorem parenBound?_object_many (dyn : Bool) (b c : Bound) (bs : List Bound) (trailing : Bool) :
    parenBound? (.object dyn (b :: c :: bs) trailing) = none := by
  simp [parenBound?]

/-- Bounds that begin with a lifetime are more than one. -/
theorem gives_typeBounds_lifetime {g : Grammar} {plus trailing : Bool} {bs : List Bound}
    (h : (g.typeBounds plus).Gives i (bs, trailing) j) (hi : isLifetime i = true) :
    ∃ name b later, bs = .lifetime name :: b :: later := by
  rw [typeBounds, boundsOf_eq] at h
  obtain ⟨first, m, hfirst, h⟩ := h.bind
  obtain ⟨⟨later, trailing'⟩, m', -, h⟩ := h.bind
  obtain ⟨htrait, h⟩ := h.guard_bind
  obtain ⟨heq, -⟩ := h.pure
  obtain ⟨rfl, rfl⟩ : bs = first :: later ∧ trailing = trailing' := by simpa using heq
  rcases hfirst.branch with ⟨-, hfirst⟩ | ⟨hlifetime, -⟩
  · obtain ⟨name, -, rfl⟩ := hfirst.returns
    cases later with
    | nil => cases htrait
    | cons b later => exact ⟨name, b, later, rfl⟩
  · rw [hi] at hlifetime
    cases hlifetime

/-- Where a question mark stands in front, the trait need not hold. -/
theorem optional_of_question {g : Grammar} {paren const optional : Bool} {binder : Option Binder}
    {leading : Bool} {segments : List Segment}
    (h : (g.traitBound? paren const).Gives i (some (.trait paren optional binder leading segments)) j)
    (hi : isOperator "?" i = true) : optional = true := by
  match i with
  | .punct c joint :: us =>
    obtain rfl : '?' = c := of_decide_eq_true hi
    rw [traitBound?_eq] at h
    obtain ⟨binder', m, hbinder, h⟩ := h.bind
    rcases hbinder.ifSees with ⟨hfor, -⟩ | ⟨-, rfl, rfl⟩
    · cases hfor
    rcases h.branch with ⟨hgroup, -⟩ | ⟨-, h⟩
    · cases hgroup
    rcases h.word?_bind with ⟨_, hword, -⟩ | ⟨-, h⟩
    · cases hword
    obtain ⟨-, h⟩ := h.guard_bind
    rcases h.operator?_bind with ⟨-, h⟩ | ⟨hnone, -⟩
    · rcases h.ite with ⟨-, h⟩ | ⟨-, h⟩
      · obtain ⟨binder₂, m₂, -, h⟩ := h.bind
        obtain ⟨p, m₃, -, h⟩ := h.bind
        obtain ⟨-, h⟩ := h.guard_bind
        obtain ⟨heq, -⟩ := h.pure
        cases heq
        rfl
      · obtain ⟨binder₂, m₂, -, h⟩ := h.bind
        obtain ⟨p, m₃, -, h⟩ := h.bind
        obtain ⟨-, h⟩ := h.guard_bind
        obtain ⟨heq, -⟩ := h.pure
        cases heq
        rfl
    · rw [hi] at hnone
      cases hnone

/-- Whatever is deep enough reads the content of parentheses as the type. -/
def ReadsContent (content : List Token) (embedded : List Embedded) (ty : Ty) : Prop :=
  ∀ n, Token.sizeAll content < n → (∀ e ∈ embedded, e.IsReadBack) →
    (atDepth n).parenContent.Reads content [] (· = ty)

/-- What may stand in parentheses is read back there. -/
inductive KeepsContent : Ty → Prop
  | tuple {elements : List Ty} {trailing : Bool} (content : List Token)
    (htokens : (Ty.tuple elements trailing).tokens = [.group .paren content])
    (hread : ReadsContent content (Ty.allEmbedded elements) (Ty.tuple elements trailing).ordered) :
    KeepsContent (.tuple elements trailing)
  | paren {inner : Ty}
    (hread : ReadsContent inner.tokens (inner.embedded true) (.paren inner.ordered))
    (hbound : ∀ b, parenBound? inner = some b → b.IsKeptInParens) : KeepsContent (.paren inner)
  | bound {binder : Option Binder} {p : Path} {left : List Token}
    (h : KeepsTrait true binder p left) :
    KeepsContent (.object false [.trait true true binder p.leadingColon p.segments] false)

/-- Bounds of a type are read back. -/
theorem keeps_typeBounds (hk : (atDepth k).Keeps) {plus : Bool} {bs : List Bound} {trailing : Bool}
    (h : ((atDepth k).typeBounds plus).Gives i (bs, trailing) j)
    (hsize : Token.sizeAll (joinTokens "+" trailing (Bound.parts bs)) ≤ n)
    (hes : ∀ e ∈ Bound.allEmbedded bs, e.IsReadBack) (hrest : TypeEnds false j rest) :
    ((atDepth n).typeBounds plus).Reads (joinTokens "+" trailing (Bound.parts bs) ++ rest) rest
        (· = (Bound.allOrdered bs, trailing)) ∧
      startsBound (joinTokens "+" trailing (Bound.parts bs) ++ rest) = true :=
  keeps_boundsOf (·.oneBound false) (keeps_typeBound hk) (takes_oneBound _ false)
    startsBound_of_typeEnds h hsize hes hrest

theorem opensNoType_of_endsFnParam (h : EndsFnParam rest) : OpensNoType rest := by
  cases h with
  | comma rest => exact opensNoType_punct (by decide)
  | none => exact ⟨fun _ _ => rfl, rfl, ⟨rfl, rfl⟩, by decide, rfl⟩

/-- Something is written for a type. -/
theorem exists_cons_of_reads_type {plus : Bool} {ts : List Token} {Q : Ty → Prop}
    (h : ((atDepth n).type plus).Reads (ts ++ rest) rest Q) (hrest : EndsFnParam rest) :
    ∃ t us, ts = t :: us := by
  cases ts with
  | nil => exact absurd (fails_type plus (opensNoType_of_endsFnParam hrest)) h.not_fails
  | cons t us => exact ⟨t, us, rfl⟩

/-- A type in parentheses, or the first of several, is read there as a type. -/
theorem reads_parenContent_of_type {ty : Ty} {ts : List Token}
    (hread : ((atDepth n).type true).Reads (ts ++ rest) rest (· = ty))
    (hlifetime : isLifetime ts = false) (hrest : EndsFnParam rest) {Q : Ty → Prop}
    (h : (do
      if ← operator? "," then
        let (others, trailing) ← commaList ((atDepth n).type true)
        return .tuple (ty :: others) (trailing || others.isEmpty)
      else return .paren ty : Parser Ty).Reads rest [] Q) :
    (atDepth n).parenContent.Reads (ts ++ rest) [] Q := by
  obtain ⟨t, us, rfl⟩ := exists_cons_of_reads_type hread hrest
  have hseen : isLifetime (t :: us ++ rest) = false := by
    cases t <;> first | rfl | cases hlifetime
  refine (reads_sees rfl).bind_eq (reads_if_false rfl ?_)
  refine (reads_sees hseen).bind_eq (reads_if_false rfl ?_)
  refine (reads_sees (isOperator_eq_false_of_reads (c := '?') hread (by decide))).bind_eq ?_
  exact reads_if_false rfl (hread.bind_eq h)

theorem keeps_parenContent (hk : (atDepth k).Keeps) {ty : Ty}
    (h : (atDepth k).parenContent.Gives i ty j) : KeepsContent ty := by
  rcases h.branch with ⟨-, h⟩ | ⟨-, h⟩
  · obtain ⟨rfl, -⟩ := h.pure
    refine .tuple [] rfl fun n _ _ => ?_
    exact (reads_sees rfl).bind_eq (reads_if_true rfl (reads_pure rfl))
  rcases h.branch with ⟨hlifetime, h⟩ | ⟨hlifetime, h⟩
  · obtain ⟨⟨bs, trailing⟩, hbounds, rfl⟩ := h.returns
    obtain ⟨name, b, later, rfl⟩ := gives_typeBounds_lifetime hbounds hlifetime
    have htokens : (Ty.object false (.lifetime name :: b :: later) trailing).tokens =
        joinTokens "+" trailing (Bound.parts (.lifetime name :: b :: later)) := rfl
    refine .paren (fun n hsize hes => ?_) fun b' hb => ?_
    · rw [htokens] at hsize ⊢
      have hread := (keeps_typeBounds hk hbounds (n := n) (by omega) hes typeEnds_nil).1
      rw [List.append_nil] at hread
      refine (reads_sees rfl).bind_eq (reads_if_false rfl ?_)
      refine (reads_sees rfl).bind_eq (reads_if_true rfl ?_)
      exact hread.bind_eq (reads_pure rfl)
    · rw [parenBound?_object_many] at hb
      cases hb
  rcases h.branch with ⟨hquestion, h⟩ | ⟨-, h⟩
  · obtain ⟨bound, m, hbound, h⟩ := h.bind
    rcases keeps_traitBound hk hbound with ⟨-, hconst⟩ | ⟨optional, binder, p, rfl, hkept⟩
    · cases hconst
    · obtain ⟨rfl, -⟩ := h.pure
      obtain rfl := optional_of_question hbound hquestion
      exact .bound hkept
  obtain ⟨first, m, hfirst, h⟩ := h.bind
  have hkept := hk.type hfirst
  have hfront : isLifetime first.tokens = false :=
    Bool.eq_false_iff.mpr fun hseen => by simp [hkept.lifetime hseen] at hlifetime
  rcases h.operator?_bind with ⟨-, h⟩ | ⟨-, h⟩
  · obtain ⟨⟨others, trailing⟩, hothers, rfl⟩ := h.returns
    refine .tuple (first.tokens ++ .comma :: joinTokens "," trailing (Ty.parts others)) ?_
      fun n hsize hes => ?_
    · cases others with
      | nil => simp [Ty.tokens, Ty.parts, joinTokens, Token.comma, Token.operator]; rfl
      | cons ty others => simp [Ty.tokens, Ty.parts, joinTokens, Token.comma]; rfl
    · simp only [Token.sizeAll_append, Token.sizeAll, Token.comma, Token.size] at hsize
      simp only [Ty.allEmbedded, List.mem_append] at hes
      have hread := keeps_types hk hothers (n := n) (by omega) fun e he => hes e (.inr he)
      have hends : EndsFnParam (.comma :: joinTokens "," trailing (Ty.parts others)) := .comma _
      have htype := hkept.reads (n := n) (by omega) (fun e he => hes e (.inl he)) hends.typeEnds
      refine reads_parenContent_of_type htype hfront hends ?_
      refine (reads_operator?_true rfl).bind_eq (reads_if_true rfl (hread.bind_eq (reads_pure ?_)))
      simp [Ty.ordered, Ty.allOrdered, Ty.allOrdered_eq]
  · obtain ⟨rfl, rfl⟩ := h.pure
    refine .paren (fun n hsize hes => ?_) (hkept.bound rfl)
    have hread := reads_parenContent_of_type (hkept.reads hsize hes typeEnds_nil) hfront .none
      ((reads_operator?_false rfl).bind_eq
        (reads_if_false rfl (reads_pure (Q := (· = .paren first.ordered)) rfl)))
    rwa [List.append_nil] at hread

/-- A trait in parentheses is a bound there. -/
theorem KeepsTrait.isKeptInParens {binder : Option Binder} {p : Path}
    (h : KeepsTrait true binder p j) :
    (Bound.trait true true binder p.leadingColon p.segments).IsKeptInParens :=
  ⟨traitBoundTokens true binder p, by rw [tokens_trait]; rfl, fun _ hsize hes =>
    ⟨_, h.reads_parenContent (Nat.le_of_lt hsize) hes, .inl rfl⟩⟩

/-- What is read for a type that begins with a parenthesis is read back. -/
structure KeepsParen (plus : Bool) (ty : Ty) (j : List Token) : Prop where
  front : ∃ content us, ty.tokens = .group .paren content :: us
  again : ReadsAgain (·.parenType plus) (TypeEnds plus j) ty.tokens (ty.embedded plus) ty.ordered
  bound : ∀ b, parenBound? ty = some b → b.IsKeptInParens

/-- The bounds behind one that stands alone. -/
theorem tokens_bounds (b : Bound) (bs : List Bound) :
    (Ty.object false (b :: bs) false).tokens =
      b.tokens ++ bs.flatMap fun c => Token.operator "+" ++ c.tokens := by
  simp only [Ty.tokens, wordIf, Bound.parts_eq, List.map_cons, joinTokens_false]
  simp [List.flatMap_map]

/-- A type in parentheses that bounds follow is read back as the first of them. -/
theorem keeps_parenBounds (hk : (atDepth k).Keeps) {b : Bound} {more : List Bound}
    (hb : b.IsKeptInParens) (hi : isOperator "+" i = true)
    (h : (atDepth k).moreBounds.Gives i more j) :
    KeepsParen true (.object false (b :: more) false) j := by
  obtain ⟨content, htokens, hread⟩ := hb
  have hmore : more ≠ [] := by
    rintro rfl
    have hend := h.whileSees_ends ((takes_operator (by decide)).bind_left _) rfl
    cases h.whileSees
    rw [hi] at hend
    cases hend
  obtain ⟨c, more, rfl⟩ := List.exists_cons_of_ne_nil hmore
  refine ⟨⟨content, _, by rw [tokens_bounds, htokens]; rfl⟩, fun n hsize hes rest hrest => ?_,
    fun b' hb' => ?_⟩
  · rw [tokens_bounds, htokens] at hsize ⊢
    simp only [List.cons_append, List.nil_append, Token.sizeAll, Token.size] at hsize
    simp only [Ty.embedded, Bound.allEmbedded, List.mem_append] at hes
    obtain ⟨ty, hgroup, hty⟩ := hread n (by omega) fun e he => hes e (.inl he)
    have hlater := keeps_moreBounds hk h (n := n) (by omega)
      (fun e he => hes e (.inr (List.mem_append.mp he))) hrest.weaken
    refine (hgroup.group .paren).bind_eq ?_
    rcases hty with rfl | ⟨first, rfl, hfirst⟩
    · exact hlater.bind_eq (reads_pure rfl)
    · refine reads_ahead.bind_eq (reads_if_true rfl ?_)
      rw [hfirst]
      exact hlater.bind_eq (reads_pure rfl)
  · rw [parenBound?_object_many] at hb'
    cases hb'

theorem keeps_parenType (hk : (atDepth k).Keeps) {plus : Bool} {ty : Ty}
    (h : ((atDepth k).parenType plus).Gives i ty j) : KeepsParen plus ty j := by
  obtain ⟨content, m, hcontent, h⟩ := h.bind
  obtain ⟨body, left, -, hcontent⟩ := hcontent.group
  cases keeps_parenContent hk hcontent with
  | @tuple elements trailing content htokens hread =>
    obtain ⟨rfl, rfl⟩ := h.pure
    refine ⟨⟨content, [], htokens⟩, fun n hsize hes rest hrest => ?_,
      fun b hb => by simp [parenBound?] at hb⟩
    simp only [htokens, Token.sizeAll, Token.size] at hsize
    rw [htokens]
    exact ((hread n (by omega) hes).group .paren).bind_eq (reads_pure rfl)
  | @paren inner hread hbound =>
    have keeps_single : KeepsParen plus (.paren inner) j := by
      refine ⟨⟨inner.tokens, [], rfl⟩, fun n hsize hes rest hrest => ?_,
        fun b hb => by simp [parenBound?] at hb⟩
      simp only [Ty.tokens, Token.sizeAll, Token.size] at hsize
      have hplus : (plus && isOperator "+" rest) = false := by
        refine Bool.eq_false_iff.mpr fun hseen => ?_
        obtain ⟨rfl, hseen⟩ := Bool.and_eq_true_iff.mp hseen
        cases (hrest.plus hseen).1
      refine ((hread n (by omega) hes).group .paren).bind_eq (reads_ahead.bind_eq ?_)
      exact reads_if_false hplus (reads_pure rfl)
    rcases h.ahead_bind.ite with ⟨hplus, hafter⟩ | ⟨-, hafter⟩
    · obtain ⟨rfl, hm⟩ := Bool.and_eq_true_iff.mp hplus
      cases hinner : parenBound? inner with
      | some b =>
        rw [hinner] at hafter
        obtain ⟨more, hmore, rfl⟩ := hafter.returns
        exact keeps_parenBounds hk (hbound b hinner) hm hmore
      | none =>
        rw [hinner] at hafter
        obtain ⟨rfl, rfl⟩ := hafter.pure
        exact keeps_single
    · obtain ⟨rfl, rfl⟩ := hafter.pure
      exact keeps_single
  | @bound binder p left hkept =>
    obtain ⟨more, hmore, rfl⟩ := h.returns
    have htrait := tokens_trait true true binder p
    rw [if_pos rfl] at htrait
    refine ⟨⟨_, _, by rw [List.singleton_append, tokens_bounds, htrait]; rfl⟩,
      fun n hsize hes rest hrest => ?_, fun b hb => ?_⟩
    · rw [List.singleton_append, tokens_bounds, htrait] at hsize ⊢
      simp only [List.cons_append, List.nil_append, Token.sizeAll, Token.size] at hsize
      simp only [List.singleton_append, Ty.embedded, Bound.allEmbedded, List.mem_append] at hes
      have hread := hkept.reads_parenContent (n := n) (by omega) fun e he => hes e (.inl he)
      have hlater := keeps_moreBounds hk hmore (n := n) (by omega) (fun e he => hes e (.inr he))
        hrest.weaken
      refine (hread.group .paren).bind_eq (hlater.bind_eq (reads_pure ?_))
      rfl
    · cases more with
      | nil =>
        obtain rfl : Bound.trait true true binder p.leadingColon p.segments = b := by
          simpa [parenBound?] using hb
        exact hkept.isKeptInParens
      | cons c more =>
        rw [List.singleton_append, parenBound?_object_many] at hb
        cases hb

end Grammar

end RowFactory
