import RowFactory.Proofs.Printed.Arguments
import RowFactory.Proofs.Source.ReadsAttributes

namespace RowFactory

open RowFactory.Parser

theorem Parser.gives_namePath {i j : List Token} {p : NamePath} (h : namePath.Gives i p j) :
    p.NamesAttribute := by
  have hname {i j : List Token} {name : Ident} (h : (do
      let name ← anyIdent
      guard (!name.isKeyword || pathKeywords.contains name.name)
      return name : Parser Ident).Gives i name j) :
      name.isKeyword = false ∨ pathKeywords.contains name.name = true := by
    obtain ⟨name', m, -, h⟩ := h.bind
    obtain ⟨hguard, h⟩ := h.guard_bind
    obtain ⟨rfl, -⟩ := h.pure
    simpa using hguard
  obtain ⟨leading, m, -, h⟩ := h.bind
  obtain ⟨first, m', hfirst, h⟩ := h.bind
  obtain ⟨names, hnames, rfl⟩ := h.returns
  refine .inr ⟨List.cons_ne_nil _ _, fun name hmem => ?_⟩
  rcases List.mem_cons.mp hmem with rfl | hmem
  · exact hname hfirst
  · obtain ⟨i', m₁, -, hlater⟩ := hnames.whileSees.exists_gives hmem
    exact hname hlater.operator_bind.2

namespace Grammar

variable {n k : Nat} {i j rest : List Token}

/-- A literal alone is the value of an attribute. -/
theorem reads_attributeValue_literal (g : Grammar) {v : List Token} (h : isLoneLiteral v = true) :
    g.attributeValue.Reads v [] (· = (.literal, v)) := by
  have hvalue : literalValue.Reads v [] (· = v) := by
    refine reads_of_run fun written altered unread => ⟨v, v.reverse ++ written, altered, ?_, rfl⟩
    have hrun := run_literalValue h [] written altered unread
    rwa [List.append_nil] at hrun
  have halone : (do let value ← literalValue; require List.isEmpty; return value :
      Parser (List Token)).Reads v [] (· = v) :=
    hvalue.bind_eq ((reads_require rfl).bind fun _ _ => reads_pure rfl)
  refine halone.attempt.bind ?_
  rintro _ ⟨_, rfl, rfl⟩
  exact reads_pure rfl

theorem reads_metaRest_of_value {g : Grammar} {p : NamePath} {kind : ExprKind} {v : List Token}
    (h : g.attributeValue.Reads v [] (· = (kind, v))) :
    (g.metaRest p).Reads (.punct '=' false :: v) [] (· = .value p kind v) := by
  have hvalue : (do
      let value ← g.attributeValue
      return .value p value.1 value.2 : Parser MetaItem).Reads v [] (· = .value p kind v) :=
    h.bind_eq (reads_pure rfl)
  rw [attributeValue, Parser.bind_assoc] at hvalue
  refine reads_ahead.bind_eq (reads_if_true rfl ((reads_operator rfl).bind fun _ _ => ?_))
  refine Eq.mp (congrArg (fun after => (attempt _ >>= after).Reads v [] _)
    (funext fun literal => ?_)) hvalue
  cases literal with
  | some value => rfl
  | none => exact Parser.bind_assoc _ _ _

/-- What follows the path of an attribute is read back behind it. -/
theorem keeps_metaRest {g : Grammar} {p : NamePath} (hp : p.NamesAttribute) {m : MetaItem}
    (h : (g.metaRest p).Gives i m j) (hsize : Token.sizeAll m.tokens ≤ n)
    (hes : ∀ e ∈ m.embedded, e.IsReadBack) : (atDepth n).metaItem.Reads m.tokens [] (· = m) := by
  have value {kind : ExprKind} {v : List Token}
      (hsize : Token.sizeAll (MetaItem.value p kind v).tokens ≤ n)
      (hes : ∀ e ∈ (MetaItem.value p kind v).embedded, e.IsReadBack) :
      (atDepth n).metaItem.Reads (MetaItem.value p kind v).tokens [] (· = .value p kind v) := by
    rw [MetaItem.tokens, List.append_assoc] at hsize ⊢
    refine reads_metaItem_of_rest hp rfl (reads_metaRest_of_value ?_)
    simp only [Token.sizeAll_append, MetaItem.embedded] at hsize hes
    cases hlone : kind = .literal && isLoneLiteral v with
    | true =>
      obtain ⟨hkind, hv⟩ := Bool.and_eq_true_iff.mp hlone
      obtain rfl := of_decide_eq_true hkind
      exact reads_attributeValue_literal _ hv
    | false =>
      simp only [hlone, Bool.false_eq_true, if_false, List.mem_singleton, forall_eq] at hes
      exact hes n (by omega)
  have h := h.ahead_bind
  split at h
  · obtain ⟨⟨d, arguments⟩, m', -, h⟩ := h.bind
    obtain ⟨rfl, -⟩ := h.pure
    exact reads_metaItem_of_rest hp rfl (reads_metaRest_list d arguments)
  rcases h.ite with ⟨-, h⟩ | ⟨-, h⟩
  · obtain ⟨-, h⟩ := h.operator_bind
    obtain ⟨literal, m', -, h⟩ := h.bind
    split at h
    · obtain ⟨rfl, -⟩ := h.pure
      exact value hsize hes
    · obtain ⟨-, h⟩ := h.require_bind
      obtain ⟨⟨kind, v⟩, m', -, h⟩ := h.bind
      obtain ⟨rfl, -⟩ := h.pure
      exact value hsize hes
  · obtain ⟨rfl, -⟩ := h.pure
    have hread : ((atDepth n).metaRest p).Reads [] [] (· = .path p) :=
      reads_ahead.bind_eq (reads_if_false rfl (reads_pure rfl))
    have hitem := reads_metaItem_of_rest hp rfl hread
    rwa [List.append_nil] at hitem

theorem keeps_outerAttribute {g : Grammar} {a : Attribute} (h : g.outerAttribute.Gives i a j)
    (hsize : Token.sizeAll a.tokens ≤ n) (hes : ∀ e ∈ a.content.embedded, e.IsReadBack)
    (rest : List Token) : (atDepth n).outerAttribute.Reads (a.tokens ++ rest) rest (· = a) := by
  obtain ⟨-, h⟩ := h.operator_bind
  obtain ⟨m, hm, rfl⟩ := h.returns
  obtain ⟨body, left, -, hm⟩ := hm.group
  simp only [Attribute.tokens, Token.sizeAll_append, Token.sizeAll, Token.size] at hsize
  have hread : (atDepth n).metaItem.Reads m.tokens [] (· = m) := by
    rcases hm.word?_bind with ⟨_, -, hm⟩ | ⟨-, hm⟩
    · exact keeps_metaRest (.inl rfl) hm (by omega) hes
    · obtain ⟨p, m', hp, hm⟩ := hm.bind
      exact keeps_metaRest (gives_namePath hp) hm (by omega) hes
  exact (reads_operator rfl).bind fun _ _ => (hread.group .bracket).bind_eq (reads_pure rfl)

/-- Attributes are read back in front of what does not begin as one. -/
theorem keeps_outerAttributes {g : Grammar} {attrs : List Attribute}
    (h : g.outerAttributes.Gives i attrs j) (hsize : Token.sizeAll (attributeTokens attrs) ≤ n)
    (hes : ∀ e ∈ Attribute.allEmbedded attrs, e.IsReadBack) (hrest : isOperator "#" rest = false) :
    (atDepth n).outerAttributes.Reads (attributeTokens attrs ++ rest) rest (· = attrs) := by
  have hitem : ∀ a ∈ attrs, ∀ ts, True →
      (atDepth n).outerAttribute.Reads (a.tokens ++ ts) ts (· = id a) ∧
        isOperator "#" (a.tokens ++ ts) = true := by
    intro a ha ts _
    obtain ⟨i', m, -, hgives⟩ := h.whileSees.exists_gives ha
    have hsmall := (Token.sizeAll_le_flatMap ha Attribute.tokens).trans hsize
    exact ⟨keeps_outerAttribute hgives hsmall (fun e he => hes e (List.mem_flatMap_of_mem ha he)) ts,
      rfl⟩
  have hread := reads_whileSees_map (takes_outerAttribute (atDepth n)) hitem (fun _ _ _ => trivial)
    trivial hrest
  rwa [List.map_id] at hread

/-- A separator trails only where there are bounds. -/
theorem trailing_of_gives_lifetimeParam {g : Grammar} {p : LifetimeParam}
    (h : g.lifetimeParam.Gives i p j) : (p.trailing && !p.bounds.isEmpty) = p.trailing := by
  obtain ⟨attrs, m, -, h⟩ := h.writtenAs.bind
  obtain ⟨name, m₁, -, h⟩ := h.bind
  rcases h.operator?_bind with ⟨-, h⟩ | ⟨-, h⟩
  · obtain ⟨⟨bounds, trailing⟩, m₂, hbounds, h⟩ := h.bind
    obtain ⟨rfl, -⟩ := h.pure
    exact hbounds.openList_trailing
  · obtain ⟨rfl, -⟩ := h.pure
    rfl

/-- A type parameter is no lifetime. -/
theorem isLifetime_of_gives_typeParam {g : Grammar} {attrs : List Attribute} {name : Ident}
    {p : GenericParam} (h : (g.typeParam attrs name).Gives i p j) : p.isLifetime = false := by
  obtain ⟨bounds, m, -, h⟩ := h.bind
  obtain ⟨seen, m₁, -, h⟩ := h.bind
  rcases h.ite with ⟨-, h⟩ | ⟨-, h⟩
  · obtain ⟨ty, m₂, -, h⟩ := h.bind
    obtain ⟨rfl, -⟩ := h.pure
    rfl
  · obtain ⟨rfl, -⟩ := h.pure
    rfl

/-- A generic parameter that is a lifetime was read as one. -/
theorem gives_genericParam {g : Grammar} {p : LifetimeParam}
    (h : g.genericParam.Gives i (.lifetime p) j) :
    ∃ attrs m q, g.outerAttributes.Gives i attrs m ∧ g.lifetimeParam.Gives m q j ∧
      p = { q with attrs } := by
  obtain ⟨attrs, m, hattrs, h⟩ := h.bind
  rcases h.branch with ⟨-, h⟩ | ⟨-, h⟩
  · obtain ⟨q, hq, hp⟩ := h.returns
    exact ⟨attrs, m, q, hattrs, hq, GenericParam.lifetime.inj hp⟩
  rcases h.word?_bind with ⟨_, -, h⟩ | ⟨-, h⟩
  · obtain ⟨name, m₁, -, h⟩ := h.bind
    obtain ⟨ty, m₂, -, h⟩ := h.operator_bind.2.bind
    obtain ⟨seen, m₃, -, h⟩ := h.bind
    rcases h.ite with ⟨-, h⟩ | ⟨-, h⟩
    · obtain ⟨value, m₄, -, h⟩ := h.bind
      cases h.pure.1
    · cases h.pure.1
  · obtain ⟨name, m₁, -, h⟩ := h.bind
    cases isLifetime_of_gives_typeParam h

/-- A lifetime among generic parameters is read back. -/
theorem keeps_genericLifetime {g : Grammar} {p : LifetimeParam}
    (h : g.genericParam.Gives i (.lifetime p) j) :
    ReadsAgain genericParam EndsParam p.tokens (Attribute.allEmbedded p.attrs) (.lifetime p) := by
  intro n hsize hes rest hrest
  obtain ⟨attrs, m, q, hattrs, hq, rfl⟩ := gives_genericParam h
  have htrailing := trailing_of_gives_lifetimeParam hq
  have htokens : LifetimeParam.tokens { q with attrs } =
      attributeTokens attrs ++ LifetimeParam.tokens ⟨[], q.name, q.bounds, q.trailing⟩ := by
    simp [LifetimeParam.tokens, attributeTokens]
  have hhash : isOperator "#"
      (LifetimeParam.tokens ⟨[], q.name, q.bounds, q.trailing⟩ ++ rest) = false := rfl
  rw [htokens, Token.sizeAll_append] at hsize
  rw [htokens, List.append_assoc]
  refine (keeps_outerAttributes hattrs (n := n) (by omega) hes hhash).bind_eq ?_
  refine (reads_sees rfl).bind_eq (reads_if_true rfl ?_)
  refine (reads_lifetimeParam q.name q.bounds q.trailing hrest).bind_eq (reads_pure ?_)
  rw [htrailing]

theorem keeps_binderParam (hk : (atDepth k).Keeps) {p : BinderParam}
    (h : (atDepth k).binderParam.Gives i p j) (hsize : Token.sizeAll p.tokens < n)
    (hes : ∀ e ∈ p.embedded, e.IsReadBack) :
    ReadsItem (atDepth n).binderParam (isOperator ">") EndsParam p.tokens (· = p) := by
  obtain ⟨⟨param, written⟩, m, hparam, h⟩ := h.bind
  have keeps_other (hsize : Token.sizeAll written < n)
      (hes : ∀ e ∈ (BinderParam.other written).embedded, e.IsReadBack) :
      ReadsItem (atDepth n).binderParam (isOperator ">") EndsParam written
        (· = .other written) := by
    have hitem := hes (.binderParam written) (List.mem_singleton_self _) n hsize
    refine ⟨fun rest hrest => (hitem.reads rest hrest).mono fun q hq => ?_, hitem.goesOn⟩
    cases q with
    | lifetime q => cases hq
    | other ts => exact congrArg BinderParam.other hq
  cases param with
  | lifetime q =>
    obtain ⟨rfl, -⟩ := h.pure
    refine ⟨fun rest hrest => ?_, fun rest _ => ?_⟩
    · obtain ⟨n, rfl⟩ := Nat.exists_eq_add_one.mpr (Nat.zero_lt_of_lt hsize)
      have hread := hk.param hparam.withWritten n (Nat.le_of_lt_succ hsize) hes rest hrest
      refine hread.withWritten.bind ?_
      rintro ⟨_, ts⟩ rfl
      exact reads_pure rfl
    · simp only [BinderParam.tokens, LifetimeParam.tokens]
      cases q.attrs <;> rfl
  | type attrs name bounds trailing =>
    obtain ⟨rfl, -⟩ := h.pure
    exact keeps_other hsize hes
  | const attrs name ty =>
    obtain ⟨rfl, -⟩ := h.pure
    exact keeps_other hsize hes

/-- A binder is read back, and where there is none, none is read. -/
theorem keeps_binder (hk : (atDepth k).Keeps) {binder : Option Binder}
    (h : (atDepth k).binder?.Gives i binder j) (hsize : Token.sizeAll (binderTokens binder) ≤ n)
    (hes : ∀ e ∈ binderEmbedded binder, e.IsReadBack)
    (hfor : binder = none → isWord "for" rest = false) :
    (atDepth n).binder?.Reads (binderTokens binder ++ rest) rest (· = binder) := by
  rcases h.ifSees with ⟨-, ⟨params, trailing⟩, hparams, rfl⟩ | ⟨-, rfl, -⟩
  · obtain ⟨_, -, h⟩ := hparams.word_bind
    obtain ⟨-, h⟩ := h.operator_bind
    obtain ⟨x, m, hlist, h⟩ := h.bind
    obtain ⟨-, h⟩ := h.operator_bind
    obtain ⟨rfl, -⟩ := h.pure
    obtain ⟨last, hitems, htrailing⟩ := hlist.closedList
    obtain rfl : trailing = (last && !params.isEmpty) := htrailing
    simp only [binderTokens, Token.sizeAll_append, Token.sizeAll, Token.size, Token.word] at hsize
    have hsmall : Token.sizeAll (joinTokens "," (last && !params.isEmpty)
        (params.map BinderParam.tokens)) < n := by omega
    have hitem : ∀ p ∈ params, ReadsItem (atDepth n).binderParam (isOperator ">") EndsParam p.tokens
        (· = id p) := by
      intro p hp
      obtain ⟨i', m', -, hgives⟩ := hitems.exists_gives hp
      exact keeps_binderParam hk hgives (Token.sizeAll_lt_of_mem hsmall hp)
        fun e he => hes e (List.mem_flatMap_of_mem hp he)
    have hread := reads_closedList_map "," (last && !params.isEmpty) hitem
      (fun ts => ⟨.comma ts, rfl⟩) (.angle rest) rfl
    rw [List.map_id, Bool.and_assoc, Bool.and_self] at hread
    simp only [binderTokens, List.append_assoc, List.cons_append, List.nil_append]
    refine (reads_sees (b := true) rfl).bind_eq (reads_if_true rfl (Reads.bind_eq ?_ (reads_pure rfl)))
    refine (reads_word "for").bind fun _ _ => (reads_operator rfl).bind fun _ _ => ?_
    exact hread.bind_eq ((reads_operator rfl).bind fun _ _ => reads_pure rfl)
  · exact reads_ifSees_false (hfor rfl)

end Grammar

end RowFactory
