import RowFactory.Proofs.Mapping.ColumnItems

namespace RowFactory

open RowFactory.Parser

/-- The tokens of items with a comma behind each. -/
def closedTokens (closed : List (ColumnItem × Bool)) : List Token :=
  closed.flatMap fun p => p.1.tokens ++ [.punct ',' p.2]

namespace Grammar

variable {n : Nat}

theorem reads_columnName_closed {closed : List (ColumnItem × Bool)}
    (h : ∀ p ∈ closed, p.1.IsWellFormed (atDepth n) ∧ p.1.IsSkippable (atDepth n)) {fuel : Nat}
    {rest o : List Token} {Q : Option String → Prop}
    (hrest : ((atDepth n).columnName fuel).Reads rest o Q) :
    ((atDepth n).columnName (fuel + closed.length)).Reads (closedTokens closed ++ rest)
      o Q := by
  induction closed with
  | nil => exact hrest
  | cons p closed ih =>
    obtain ⟨item, joint⟩ := p
    obtain ⟨⟨hwell, hskip⟩, hclosed⟩ := List.forall_mem_cons.mp h
    cases item with
    | name joint literal => cases hskip
    | other key value =>
      have hstep := reads_columnName_other hwell.1 hwell.2.1 hskip joint (ih hclosed)
      simp only [closedTokens, List.flatMap_cons, ColumnItem.tokens, List.append_assoc,
        List.singleton_append] at hstep ⊢
      exact hstep

end Grammar

theorem length_le_closedTokens (closed : List (ColumnItem × Bool)) :
    closed.length ≤ (closedTokens closed).length :=
  length_le_length_flatMap _ (fun _ => List.append_ne_nil_of_right_ne_nil _ (by simp)) closed

/-- Keys with commas behind them, a name, and any tokens at all. -/
def namedArguments (closed : List (ColumnItem × Bool)) (joint : Bool) (literal : String)
    (rest : List Token) : List Token :=
  closedTokens closed ++ nameTokens joint literal rest

section

variable {closed : List (ColumnItem × Bool)} {joint : Bool} {literal : String} {rest : List Token}

theorem startsKey_namedArguments {g : Grammar} (h : ∀ p ∈ closed, p.1.IsWellFormed g) :
    startsKey (namedArguments closed joint literal rest) = true := by
  cases closed with
  | nil => rfl
  | cons p closed =>
    obtain ⟨item, comma⟩ := p
    cases item with
    | name equals text => rfl
    | other key value =>
      have hkey := (h _ List.mem_cons_self).1
      simp only [namedArguments, closedTokens, List.flatMap_cons, ColumnItem.tokens,
        List.append_assoc]
      exact startsKey_tokens hkey _

theorem columnName?_namedArguments {d : Delimiter} {name : String}
    (h : ∀ p ∈ closed,
      p.1.IsWellFormed (Grammar.forTokens (namedArguments closed joint literal rest)) ∧
      p.1.IsSkippable (Grammar.forTokens (namedArguments closed joint literal rest)))
    (hname : stringValue? literal = some name) :
    (columnList d (namedArguments closed joint literal rest)).columnName? = some name := by
  have hlength : closed.length ≤ (namedArguments closed joint literal rest).length := by
    rw [namedArguments, List.length_append]
    exact Nat.le_add_right_of_le (length_le_closedTokens closed)
  obtain ⟨fuel, hfuel⟩ := Nat.exists_eq_add_of_le hlength
  refine columnName?_of_reads (o := rest)
    (all_string_eq_none (startsKey_namedArguments fun p hp => (h p hp).1)) ?_
  rw [hfuel, Nat.add_assoc, Nat.add_comm]
  exact Grammar.reads_columnName_closed h (reads_columnName _ fuel hname rest)

end

theorem columnOverride?_eq_findSome? (attrs : List Attribute) :
    columnOverride? attrs =
      attrs.findSome? fun a => if a.isNamed "column" then a.columnName? else none := by
  induction attrs with
  | nil => rfl
  | cons a attrs ih =>
    unfold columnOverride? at ih ⊢
    rw [List.filter_cons, List.findSome?_cons, ← ih]
    split
    case isTrue => rw [List.findSome?_cons]
    case isFalse => rfl

/-- The first attribute `column` that yields a name decides. -/
theorem columnOverride?_eq_some_iff {attrs : List Attribute} {name : String} :
    columnOverride? attrs = some name ↔ ∃ before a after, attrs = before ++ a :: after ∧
      a.isNamed "column" ∧ a.columnName? = some name ∧
      ∀ b ∈ before, b.isNamed "column" → b.columnName? = none := by
  simp only [columnOverride?_eq_findSome?, List.findSome?_eq_some_iff,
    Option.ite_none_right_eq_some, and_assoc, ite_eq_right_iff]

theorem ColumnItems.columnName?_eq_none {g : Grammar} {items : ColumnItems}
    (h : ∀ item ∈ items.toList, item.IsSkippable g) : items.columnName? = none := by
  refine List.findSome?_eq_none_iff.mpr fun item hitem => ?_
  cases item with
  | name joint literal => cases h _ hitem
  | other key value => rfl

/-- Behind keys whose values can be skipped the name is found, whatever follows it; a name in the
parentheses of such a key never counts; and of a list of attributes the first `column` that yields
a name decides. -/
theorem column_named_behind_keys :
    (∀ (d : Delimiter) (closed : List (ColumnItem × Bool)) (joint : Bool) (literal name : String)
      (rest : List Token),
      (∀ p ∈ closed,
        p.1.IsWellFormed (Grammar.forTokens (namedArguments closed joint literal rest)) ∧
        p.1.IsSkippable (Grammar.forTokens (namedArguments closed joint literal rest))) →
      stringValue? literal = some name →
      (columnList d (namedArguments closed joint literal rest)).columnName? = some name) ∧
    (∀ (d : Delimiter) (items : ColumnItems),
      (∀ item ∈ items.toList, item.IsWellFormed (Grammar.forTokens items.tokens) ∧
        item.IsSkippable (Grammar.forTokens items.tokens)) →
      (columnList d items.tokens).columnName? = none) ∧
    (∀ (attrs : List Attribute) (name : String), columnOverride? attrs = some name ↔
      ∃ before a after, attrs = before ++ a :: after ∧ a.isNamed "column" ∧
        a.columnName? = some name ∧
        ∀ b ∈ before, b.isNamed "column" → b.columnName? = none) := by
  refine ⟨fun d closed joint literal name rest h hname => columnName?_namedArguments h hname,
    fun d items h => ?_, fun attrs name => columnOverride?_eq_some_iff⟩
  have hleading : ∀ item ∈ items.leading, item ∈ items.toList :=
    fun item hitem => (List.takeWhile_prefix _).subset hitem
  rw [columnName?_of_skippable d (fun item hitem => (h item hitem).1)
    fun item hitem => (h item (hleading item hitem)).2]
  exact ColumnItems.columnName?_eq_none fun item hitem => (h item hitem).2

/-- `references(name = "no", set(null)), index = 1,`. -/
def ownerKeys : List (ColumnItem × Bool) :=
  [(.other ⟨false, [.plain "references"]⟩ (.list [.word "name", .punct '=' false,
      .literal "\"no\"", .punct ',' false, .word "set", .group .paren [.word "null"]]), false),
    (.other ⟨false, [.plain "index"]⟩ (.expr false [.literal "1"]), false)]

/-- The keys above, `name = "owner"`, and tokens that are no item. -/
def ownerArguments : List Token :=
  namedArguments ownerKeys false "\"owner\"" [.word "name", .literal "5", .group .brace []]

def uniqueItems : ColumnItems := .last (.other ⟨false, [.plain "unique"]⟩ .none)

theorem column_named_behind_keys_owner :
    (∀ p ∈ ownerKeys, p.1.IsWellFormed (Grammar.forTokens ownerArguments) ∧
      p.1.IsSkippable (Grammar.forTokens ownerArguments)) ∧
    stringValue? "\"owner\"" = some "owner" ∧
    (∀ item ∈ uniqueItems.toList, item.IsWellFormed (Grammar.forTokens uniqueItems.tokens) ∧
      item.IsSkippable (Grammar.forTokens uniqueItems.tokens)) ∧
    columnOverride? [⟨false, .path ⟨false, [.plain "serde"]⟩⟩, columnList .paren uniqueItems.tokens,
      columnList .paren ownerArguments, columnList .paren (nameTokens false "\"second\"" [])] =
      some "owner" := by
  have hkeys : ∀ p ∈ ownerKeys, p.1.IsWellFormed (Grammar.forTokens ownerArguments) ∧
      p.1.IsSkippable (Grammar.forTokens ownerArguments) := by
    have hno := Grammar.isExpr_literal (Token.sizeAll ownerArguments) "\"no\""
    have hone := Grammar.isExpr_literal (Token.sizeAll ownerArguments) "1"
    have hnull : AreKeys (Grammar.forTokens ownerArguments) [.word "null"] :=
      @AreKeys.last _ ⟨false, [.plain "null"]⟩ .none (List.cons_ne_nil _ _) .none
    refine List.forall_mem_cons.mpr ⟨⟨⟨List.cons_ne_nil _ _, by decide, nofun⟩, .list ?_⟩, ?_⟩
    · refine @AreKeys.more _ ⟨false, [.plain "name"]⟩ _ _ (List.cons_ne_nil _ _) (.expr false hno)
        false ?_
      exact @AreKeys.last _ ⟨false, [.plain "set"]⟩ _ (List.cons_ne_nil _ _) (.list hnull)
    · refine List.forall_mem_cons.mpr ⟨⟨⟨List.cons_ne_nil _ _, by decide, ?_⟩, .expr false hone⟩,
        nofun⟩
      rintro joint ts ⟨⟩
      exact hone
  have hname : stringValue? "\"owner\"" = some "owner" := by decide +kernel
  have hunique : ∀ item ∈ uniqueItems.toList,
      item.IsWellFormed (Grammar.forTokens uniqueItems.tokens) ∧
      item.IsSkippable (Grammar.forTokens uniqueItems.tokens) :=
    List.forall_mem_cons.mpr ⟨⟨⟨List.cons_ne_nil _ _, by decide, nofun⟩, .none⟩, nofun⟩
  obtain ⟨hnamed, hnameless, hfirst⟩ := column_named_behind_keys
  refine ⟨hkeys, hname, hunique, (hfirst _ _).mpr ⟨[_, _], _, [_], rfl, rfl, ?_, ?_⟩⟩
  · exact hnamed .paren ownerKeys false _ "owner" _ hkeys hname
  · refine List.forall_mem_cons.mpr ⟨nofun, List.forall_mem_cons.mpr ⟨fun _ => ?_, nofun⟩⟩
    exact hnameless .paren uniqueItems hunique

end RowFactory
