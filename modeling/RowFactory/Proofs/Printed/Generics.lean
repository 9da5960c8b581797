import RowFactory.Proofs.Printed.Types
import RowFactory.Source.ItemGrammar

namespace RowFactory

open RowFactory.Parser RowFactory.Grammar

def GenericParam.embedded : GenericParam → List Embedded
  | .lifetime p => Attribute.allEmbedded p.attrs
  | .type attrs _ bounds _ => Attribute.allEmbedded attrs ++ Bound.allEmbedded bounds
  | .const attrs _ ty => Attribute.allEmbedded attrs ++ ty.embedded true

def WherePredicate.embedded : WherePredicate → List Embedded
  | .lifetime .. => []
  | .type binder ty bounds _ =>
    binderEmbedded binder ++ (ty.embedded true ++ Bound.allEmbedded bounds)

/-- What stands in parameters and predicates and is not taken apart. -/
def Generics.embedded (generics : Generics) : List Embedded :=
  generics.params.flatMap (·.embedded) ++ generics.predicates.flatMap (·.embedded)

/-- What the parameters and predicates are made of is read back, and the predicates do not begin as
parameters do. -/
structure Generics.ReadsBack (g : Grammar) (generics : Generics) : Prop where
  params : ∀ p ∈ generics.params, g.ReadsParts p
  predicates : ∀ p ∈ generics.predicates, g.ReadsPartsOf p
  opens : ∀ p ∈ generics.predicates.head?, ∀ rest, startsGenerics (p.tokens ++ rest) = false

namespace Grammar

variable {k n : Nat} {i j : List Token}

theorem readsAttribute_of_gives {attrs : List Attribute}
    (h : (atDepth k).outerAttributes.Gives i attrs j)
    (hsize : Token.sizeAll (attributeTokens attrs) ≤ n)
    (hes : ∀ e ∈ Attribute.allEmbedded attrs, e.IsReadBack) :
    ∀ a ∈ attrs, (atDepth n).ReadsAttribute a := by
  intro a ha rest
  obtain ⟨i', m, -, hgives⟩ := h.whileSees.exists_gives ha
  have hsmall := (Token.sizeAll_le_flatMap ha Attribute.tokens).trans hsize
  exact keeps_outerAttribute hgives hsmall (fun e he => hes e (List.mem_flatMap_of_mem ha he)) rest

/-- Bounds are read back once they have been read. -/
theorem readsBounds_of_gives {stop : List Token → Bool} {Ends : List Token → Prop}
    (hgoes : ∀ ts, startsOpaqueBound ts = true → stop ts = false)
    (hends : ∀ rest, Ends rest →
      TypeEnds false j rest ∧ stop rest = true ∧ isOperator "+" rest = false)
    {bs : List Bound} {trailing : Bool} (h : ((atDepth k).bounds stop).Gives i (bs, trailing) j)
    (hsize : Token.sizeAll (joinTokens "+" trailing (Bound.parts bs)) < n)
    (hes : ∀ e ∈ Bound.allEmbedded bs, e.IsReadBack) :
    (atDepth n).ReadsBounds stop Ends bs trailing := by
  intro rest hrest
  obtain ⟨htype, hstop, hplus⟩ := hends rest hrest
  exact keeps_bounds (keeps_atDepth k) hgoes h hsize hes htype hstop hplus

theorem readsParts_of_gives_typeParam {attrs : List Attribute} {name : Ident} {p : GenericParam}
    (h : ((atDepth k).typeParam attrs name).Gives i p j) (hsize : Token.sizeAll p.tokens < n)
    (hes : ∀ e ∈ p.embedded, e.IsReadBack)
    (hattrs : Token.sizeAll (attributeTokens attrs) ≤ n →
      (∀ e ∈ Attribute.allEmbedded attrs, e.IsReadBack) →
        ∀ a ∈ attrs, (atDepth n).ReadsAttribute a) :
    (atDepth n).ReadsParts p := by
  obtain ⟨⟨bs, trailing⟩, m, hbounds, h⟩ := h.bind
  obtain rfl : p = .type attrs name bs trailing := by
    obtain ⟨seen, m', -, h⟩ := h.bind
    rcases h.ite with ⟨-, h⟩ | ⟨-, h⟩
    · obtain ⟨ty, m'', -, h⟩ := h.bind
      exact h.pure.1
    · exact h.pure.1
  simp only [GenericParam.tokens, Token.sizeAll_append] at hsize
  simp only [GenericParam.embedded, List.mem_append] at hes
  refine ⟨hattrs (by omega) fun e he => hes e (.inl he), ?_⟩
  rcases hbounds.branch with ⟨-, hbounds⟩ | ⟨-, hbounds⟩
  · obtain ⟨-, hbounds⟩ := hbounds.writtenAs.operator_bind
    refine ⟨hbounds.openList_trailing, fun hne => ?_⟩
    refine readsBounds_of_gives (fun ts => endsBounds_eq_false) (fun rest hrest => ?_) hbounds ?_
      fun e he => hes e (.inr he)
    · exact ⟨hrest.typeEnds, by cases hrest <;> rfl, hrest.isOperator_eq_false "+" (by decide)⟩
    · simp only [List.isEmpty_eq_false_iff.mpr hne, Bool.false_eq_true, if_false,
        Token.sizeAll] at hsize
      omega
  · obtain ⟨hnil, -⟩ := hbounds.pure
    obtain ⟨rfl, rfl⟩ : bs = [] ∧ trailing = false := by simpa using hnil
    exact ⟨rfl, fun hne => absurd rfl hne⟩

/-- What a parameter is made of is read back, once it has been read. -/
theorem readsParts_of_gives {p : GenericParam} (h : (atDepth k).genericParam.Gives i p j)
    (hsize : Token.sizeAll p.tokens < n) (hes : ∀ e ∈ p.embedded, e.IsReadBack) :
    (atDepth n).ReadsParts p := by
  obtain ⟨attrs, m, hattrs, h⟩ := h.bind
  rcases h.branch with ⟨-, h⟩ | ⟨-, h⟩
  · obtain ⟨q, hq, rfl⟩ := h.returns
    rw [GenericParam.tokens_eq, Token.sizeAll_append] at hsize
    have htrailing := trailing_of_gives_lifetimeParam hq
    refine ⟨readsAttribute_of_gives hattrs ?_ hes, htrailing⟩
    exact Nat.le_of_lt (Nat.lt_of_le_of_lt (Nat.le_add_right _ _) hsize)
  rcases h.word?_bind with ⟨m', -, h⟩ | ⟨-, h⟩
  · obtain ⟨name, m₁, -, h⟩ := h.bind
    obtain ⟨-, h⟩ := h.operator_bind
    obtain ⟨ty, m₂, hty, h⟩ := h.bind
    obtain rfl : p = .const attrs name ty := by
      obtain ⟨seen, m₃, -, h⟩ := h.bind
      rcases h.ite with ⟨-, h⟩ | ⟨-, h⟩
      · obtain ⟨value, m₄, -, h⟩ := h.bind
        exact h.pure.1
      · exact h.pure.1
    simp only [GenericParam.tokens, Token.sizeAll_append] at hsize
    simp only [GenericParam.embedded, List.mem_append] at hes
    refine ⟨readsAttribute_of_gives hattrs (by omega) fun e he => hes e (.inl he), ?_⟩
    intro rest hrest
    exact ((keeps_atDepth k).type hty).reads (by omega) (fun e he => hes e (.inr he))
      hrest.typeEnds
  · obtain ⟨name, m', -, h⟩ := h.bind
    exact readsParts_of_gives_typeParam h hsize hes (readsAttribute_of_gives hattrs)

/-- A blank has no parts but its attributes. -/
theorem readsParts_of_gives_declaredParam {p : GenericParam}
    (h : (atDepth k).declaredParam.Gives i p j) (hsize : Token.sizeAll p.tokens < n)
    (hes : ∀ e ∈ p.embedded, e.IsReadBack) : (atDepth n).ReadsParts p := by
  obtain ⟨blank, m, -, h⟩ := h.bind
  rcases h.ite with ⟨-, h⟩ | ⟨-, h⟩
  · obtain ⟨attrs, m', hattrs, h⟩ := h.bind
    obtain ⟨name, -, rfl⟩ := h.returns
    simp only [GenericParam.tokens, Token.sizeAll_append] at hsize
    simp only [GenericParam.embedded, List.mem_append] at hes
    refine ⟨readsAttribute_of_gives hattrs (by omega) fun e he => hes e (.inl he), rfl, ?_⟩
    exact fun hne => absurd rfl hne
  · exact readsParts_of_gives h hsize hes

/-- Where no binder is read, the type that follows does not begin with one either. -/
theorem isWord_for_eq_false {ty : Ty} (h : ty.KeepsFront true i j) (hi : isWord "for" i = false)
    (rest : List Token) : isWord "for" (ty.tokens ++ .punct ':' false :: rest) = false := by
  refine Bool.eq_false_iff.mpr fun hseen => ?_
  cases htokens : ty.tokens with
  | nil =>
    rw [htokens] at hseen
    cases hseen
  | cons t ts =>
    rw [htokens, List.cons_append] at hseen
    refine Bool.eq_false_iff.mp hi (h.binder ?_)
    rw [htokens]
    cases t <;> exact hseen

theorem isOperator_angle_of_startsGenerics {ts us : List Token}
    (h : startsGenerics (ts ++ us) = true) (hus : isOperator "<" us = false) :
    isOperator "<" ts = true := by
  have hangle : isOperator "<" (ts ++ us) = true := (Bool.and_eq_true_iff.mp h).1
  cases ts with
  | nil => simp [hus] at hangle
  | cons t ts => cases t <;> exact hangle

/-- What a predicate is made of is read back, once it has been read, and does not begin as
parameters do unless that did. -/
theorem readsPartsOf_of_gives {p : WherePredicate} (h : (atDepth k).predicate.Gives i p j)
    (hsize : Token.sizeAll p.tokens < n) (hes : ∀ e ∈ p.embedded, e.IsReadBack) :
    (atDepth n).ReadsPartsOf p ∧
      (startsGenerics i = false → ∀ rest, startsGenerics (p.tokens ++ rest) = false) := by
  rcases h.branch with ⟨-, h⟩ | ⟨-, h⟩
  · obtain ⟨name, m, -, h⟩ := h.bind
    obtain ⟨-, h⟩ := h.operator_bind
    obtain ⟨⟨bs, trailing⟩, hbounds, rfl⟩ := h.returns
    exact ⟨hbounds.openList_trailing, fun _ _ => rfl⟩
  obtain ⟨binder, m, hbinder, h⟩ := h.bind
  have hbinderNone : binder = none → m = i ∧ isWord "for" i = false := by
    rintro rfl
    rcases hbinder.ifSees with ⟨-, b, -, hb⟩ | ⟨hfor, -, rfl⟩
    · cases hb
    · exact ⟨rfl, hfor⟩
  obtain ⟨ty, m₁, hty, h⟩ := h.bind
  obtain ⟨-, h⟩ := h.operator_bind
  obtain ⟨⟨bs, trailing⟩, hbounds, rfl⟩ := h.returns
  have hkept := (keeps_atDepth k).type hty
  simp only [WherePredicate.tokens, Token.sizeAll_append, Token.sizeAll, Token.size] at hsize
  simp only [WherePredicate.embedded, List.mem_append] at hes
  have hboundsSize : Token.sizeAll (joinTokens "+" trailing (Bound.parts bs)) < n := by omega
  refine ⟨⟨fun rest => ?_, ?_⟩, fun hopens rest => ?_⟩
  · have hends : TypeEnds true m₁ (.punct ':' false :: rest) := typeEnds_punct (by decide)
    have hread := hkept.reads (n := n) (by omega) (fun e he => hes e (.inr (.inl he))) hends
    have hfor : binder = none → isWord "for" (ty.tokens ++ .punct ':' false :: rest) = false := by
      intro hnone
      obtain ⟨rfl, hi⟩ := hbinderNone hnone
      exact isWord_for_eq_false hkept.toKeepsFront hi rest
    rw [List.append_assoc]
    refine (keeps_binder (keeps_atDepth k) hbinder (n := n) (by omega)
      (fun e he => hes e (.inl he)) hfor).bind_eq ?_
    exact hread.bind_eq (reads_pure rfl)
  · refine readsBounds_of_gives (fun ts => endsPredicate_eq_false) (fun rest hrest => ?_) hbounds
      hboundsSize fun e he => hes e (.inr (.inr he))
    cases hrest with
    | comma rest => exact ⟨typeEnds_punct (by decide), rfl, rfl⟩
    | brace body rest => exact ⟨typeEnds_brace body, rfl, rfl⟩
  · refine Bool.eq_false_iff.mpr fun hseen => ?_
    simp only [WherePredicate.tokens, List.append_assoc, List.cons_append] at hseen
    cases binder with
    | some b => cases hseen
    | none =>
      obtain ⟨rfl, -⟩ := hbinderNone rfl
      have hangle : isOperator "<" ty.tokens = true := isOperator_angle_of_startsGenerics hseen rfl
      refine Bool.eq_false_iff.mp hopens (hkept.generics hangle ?_ _ hseen)
      exact fun e he => hes e (.inr (.inl he))

/-- What a clause adds to the parameters is read back, and the clause does not begin as parameters
do. -/
theorem readsPartsOf_of_gives_whereClause {before after : Generics}
    (h : ((atDepth k).whereClause before).Gives i after j)
    (hsize : ∀ p ∈ after.predicates, Token.sizeAll p.tokens < n)
    (hes : ∀ p ∈ after.predicates, ∀ e ∈ p.embedded, e.IsReadBack)
    (hbefore : before.predicates = []) :
    after.params = before.params ∧ (∀ p ∈ after.predicates, (atDepth n).ReadsPartsOf p) ∧
      ∀ p ∈ after.predicates.head?, ∀ rest, startsGenerics (p.tokens ++ rest) = false := by
  rcases h.branch with ⟨-, h⟩ | ⟨-, h⟩
  · obtain ⟨m, -, h⟩ := h.writtenAs.word_bind
    obtain ⟨hopens, h⟩ := h.require_bind
    obtain ⟨⟨predicates, trailing⟩, hlist, rfl⟩ := h.returns
    obtain ⟨last, hitems, -⟩ := hlist.openList
    refine ⟨rfl, fun p hp => ?_, fun p hp => ?_⟩
    · obtain ⟨i', m', -, hgives⟩ := hitems.exists_gives hp
      exact (readsPartsOf_of_gives hgives (hsize p hp) (hes p hp)).1
    · have hp' : p ∈ predicates := List.mem_of_mem_head? hp
      have hfirst : ∃ m', (atDepth k).predicate.Gives m p m' := by
        cases hitems with
        | none => cases hp
        | last _ hgives => exact ⟨_, Option.some.inj hp ▸ hgives⟩
        | more _ hgives => exact ⟨_, Option.some.inj hp ▸ hgives⟩
      obtain ⟨m', hgives⟩ := hfirst
      exact (readsPartsOf_of_gives hgives (hsize p hp') (hes p hp')).2 (by simpa using hopens)
  · obtain ⟨rfl, -⟩ := h.pure
    rw [hbefore]
    exact ⟨rfl, nofun, nofun⟩

/-- Parameters in brackets have each been read, and there are no predicates yet. -/
theorem gives_genericParams {g : Grammar} {generics : Generics}
    (h : g.genericParams.Gives i generics j) :
    generics.predicates = [] ∧ ∀ p ∈ generics.params, ∃ i' m, g.declaredParam.Gives i' p m := by
  rcases h.branch with ⟨-, h⟩ | ⟨-, h⟩
  · obtain ⟨⟨params, trailing⟩, m, hlist, h⟩ := h.bind
    obtain ⟨rfl, -⟩ := h.pure
    obtain ⟨-, hlist⟩ := hlist.writtenAs.operator_bind
    obtain ⟨x, m', hlist, h⟩ := hlist.bind
    obtain ⟨-, h⟩ := h.operator_bind
    obtain ⟨rfl, -⟩ := h.pure
    obtain ⟨last, hitems, -⟩ := hlist.closedList
    refine ⟨rfl, fun p hp => ?_⟩
    obtain ⟨q, hq, rfl⟩ := List.mem_map.mp hp
    obtain ⟨i', m₁, -, hgives⟩ := hitems.exists_gives hq
    exact ⟨i', m₁, hgives.withWritten⟩
  · obtain ⟨rfl, -⟩ := h.pure
    exact ⟨rfl, nofun⟩

/-- The clause of a struct stands behind the fields of a tuple, or in front of the others. -/
theorem gives_structBody {g : Grammar} {before generics : Generics} {fields : Fields}
    (h : (g.structBody before).Gives i (generics, fields) j) :
    ∃ i' m, (g.whereClause before).Gives i' generics m := by
  rcases h.branch with ⟨-, h⟩ | ⟨-, h⟩
  · obtain ⟨fields', m, -, h⟩ := h.bind
    obtain ⟨generics', m', hclause, h⟩ := h.bind
    obtain ⟨-, h⟩ := h.operator_bind
    obtain rfl : generics = generics' := congrArg Prod.fst h.pure.1
    exact ⟨_, _, hclause⟩
  · obtain ⟨generics', m, hclause, h⟩ := h.bind
    rcases h.operator?_bind with ⟨-, h⟩ | ⟨-, h⟩
    · obtain rfl : generics = generics' := congrArg Prod.fst h.pure.1
      exact ⟨_, _, hclause⟩
    · obtain ⟨fields', -, heq⟩ := h.returns
      obtain rfl : generics = generics' := congrArg Prod.fst heq
      exact ⟨_, _, hclause⟩

/-- The parameters and predicates of a struct are read back where it is deep enough for each. -/
theorem readsBack_of_gives_structItem {attrs : List Attribute} {visibility : Visibility}
    {s : StructItem} (h : ((atDepth k).structItem attrs visibility).Gives i s j)
    (hparams : ∀ p ∈ s.generics.params, Token.sizeAll p.tokens < n)
    (hpredicates : ∀ p ∈ s.generics.predicates, Token.sizeAll p.tokens < n)
    (hes : ∀ e ∈ s.generics.embedded, e.IsReadBack) : s.generics.ReadsBack (atDepth n) := by
  obtain ⟨m, -, h⟩ := h.word_bind
  obtain ⟨name, m₁, -, h⟩ := h.bind
  obtain ⟨before, m₂, hbefore, h⟩ := h.bind
  obtain ⟨⟨generics, fields⟩, hbody, rfl⟩ := h.returns
  obtain ⟨hnone, hdeclared⟩ := gives_genericParams hbefore
  obtain ⟨i', m₃, hclause⟩ := gives_structBody hbody
  simp only [Generics.embedded, List.mem_append] at hes
  obtain ⟨hsame, hparts, hopens⟩ := readsPartsOf_of_gives_whereClause hclause hpredicates
    (fun p hp e he => hes e (.inr (List.mem_flatMap_of_mem hp he))) hnone
  refine ⟨fun p hp => ?_, hparts, hopens⟩
  obtain ⟨i', m', hgives⟩ := hdeclared p (hsame ▸ hp)
  exact readsParts_of_gives_declaredParam hgives (hparams p hp)
    fun e he => hes e (.inl (List.mem_flatMap_of_mem hp he))

end Grammar

end RowFactory
