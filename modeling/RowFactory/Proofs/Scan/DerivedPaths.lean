import RowFactory.Proofs.Scan.AttributeLists

namespace RowFactory

open RowFactory.Parser

theorem Token.size_le_of_mem {t : Token} {ts : List Token} (h : t ∈ ts) :
    t.size ≤ Token.sizeAll ts := by
  induction ts with
  | nil => cases h
  | cons u ts ih =>
    rw [Token.sizeAll]
    rcases List.mem_cons.mp h with rfl | h
    · exact Nat.le_add_right _ _
    · exact (ih h).trans (Nat.le_add_left _ _)

/-- What stands in a group among the tokens has fewer than so many tokens. -/
def GroupsBelow (n : Nat) (ts : List Token) : Prop :=
  ∀ d body, Token.group d body ∈ ts → Token.sizeAll body < n

theorem passesOn_groupsBelow (n : Nat) : PassesOn (GroupsBelow n) :=
  fun _ _ h hus d body hmem => h d body (hus.subset hmem)

theorem groupsBelow_sizeAll (ts : List Token) : GroupsBelow (Token.sizeAll ts) ts := by
  intro d body h
  have hsize := Token.size_le_of_mem h
  rw [Token.size] at hsize
  omega

/-- If it is a list, its arguments have fewer than so many tokens. -/
def MetaItem.ArgumentsBelow (n : Nat) (m : MetaItem) : Prop :=
  ∀ key d arguments, m = .list key d arguments → Token.sizeAll arguments < n

theorem MetaItem.argumentsBelow_path (n : Nat) (p : NamePath) : (path p).ArgumentsBelow n := by
  intro key d arguments h
  cases h

theorem MetaItem.argumentsBelow_value (n : Nat) (p : NamePath) (kind : ExprKind)
    (v : List Token) : (value p kind v).ArgumentsBelow n := by
  intro key d arguments h
  cases h

namespace Parser

variable {n : Nat}

theorem ensuresWhere_anyGroup :
    EnsuresWhere (GroupsBelow n) anyGroup fun group => Token.sizeAll group.2 < n := by
  rintro ⟨ahead, written, altered, unread⟩ group c' hc hrun
  cases ahead with
  | nil => cases hrun
  | cons t ts =>
    cases t with
    | group d body =>
      cases hrun
      exact hc d body List.mem_cons_self
    | _ => cases hrun

/-- The arguments that are read are a group among the tokens. -/
theorem ensuresWhere_metaItem (g : Grammar) :
    EnsuresWhere (GroupsBelow n) g.metaItem (·.ArgumentsBelow n) := by
  have hP := passesOn_groupsBelow n
  have hrest : ∀ p, EnsuresWhere (GroupsBelow n) (g.metaRest p) (·.ArgumentsBelow n) := by
    refine fun p => ensuresWhere_bind hP fun ts => ?_
    split
    next =>
      refine ensuresWhere_anyGroup.bind hP fun group hgroup => ensuresWhere_pure ?_
      rintro key d arguments ⟨⟩
      exact hgroup
    next =>
      refine ensuresWhere_ite (fun _ => ?_) fun _ =>
        ensuresWhere_pure (MetaItem.argumentsBelow_path _ _)
      refine ensuresWhere_bind hP fun _ => ensuresWhere_bind hP fun literal => ?_
      cases literal with
      | some value => exact ensuresWhere_pure (MetaItem.argumentsBelow_value _ _ _ _)
      | none =>
        exact ensuresWhere_bind hP fun _ => ensuresWhere_bind hP fun _ =>
          ensuresWhere_pure (MetaItem.argumentsBelow_value _ _ _ _)
  exact ensuresWhere_bind hP fun _ =>
    ensuresWhere_ite (fun _ => hrest _) fun _ => ensuresWhere_bind hP fun _ => hrest _

theorem exists_run_of_all {α : Type} {p : Parser α} {ts : List Token} {a : α}
    (h : all p ts = some a) : ∃ c, p.run (.start ts) = some (a, c) := by
  obtain ⟨⟨b, c⟩, hrun, h⟩ := Option.bind_eq_some_iff.mp h
  obtain ⟨_, -, heq⟩ := Option.bind_eq_some_iff.mp h
  obtain rfl : b = a := Option.some.inj heq
  exact ⟨c, hrun⟩

end Parser

theorem argumentsBelow_of_mem_conditionalItems {arguments : List Token} {m : MetaItem}
    (hm : m ∈ conditionalItems arguments) : m.ArgumentsBelow (Token.sizeAll arguments) := by
  unfold conditionalItems at hm
  split at hm
  next items trailing hall =>
    obtain ⟨c, hrun⟩ := exists_run_of_all hall
    exact (ensuresWhere_metaItem _).commaList (passesOn_groupsBelow _) _ _ c
      (groupsBelow_sizeAll arguments) hrun m (List.mem_of_mem_drop hm)
  next => cases hm

namespace MetaItem

variable {m : MetaItem}

/-- The depth does not matter once it exceeds the number of tokens in the arguments. -/
theorem derivePaths_eq_of_argumentsBelow {n k : Nat} (hn : m.ArgumentsBelow n)
    (hk : m.ArgumentsBelow k) : m.derivePaths n = m.derivePaths k := by
  induction n generalizing m k with
  | zero =>
    cases m with
    | path p | value p kind v => simp [derivePaths]
    | list key d arguments => exact absurd (hn key d arguments rfl) (Nat.not_lt_zero _)
  | succ n ih =>
    cases m with
    | path p | value p kind v => simp [derivePaths]
    | list key d arguments =>
      have hn := hn key d arguments rfl
      have hk := hk key d arguments rfl
      obtain ⟨k, rfl⟩ : ∃ j, k = j + 1 := ⟨k - 1, by omega⟩
      have hitems : ∀ item ∈ conditionalItems arguments,
          item.derivePaths n = item.derivePaths k := by
        intro item hitem
        have hbelow := argumentsBelow_of_mem_conditionalItems hitem
        refine ih (fun key d arguments' h => ?_) fun key d arguments' h => ?_
        · exact (hbelow key d arguments' h).trans_le (by omega)
        · exact (hbelow key d arguments' h).trans_le (by omega)
      simp only [derivePaths]
      rw [List.flatMap_congr hitems]

theorem argumentsBelow_sizeAll_tokens (m : MetaItem) :
    m.ArgumentsBelow (Token.sizeAll m.tokens) := by
  rintro key d arguments rfl
  rw [tokens, Token.sizeAll_append]
  simp only [Token.sizeAll, Token.size]
  omega

/-- The paths that an attribute with this content derives. -/
def derived (m : MetaItem) : List Path := m.derivePaths (Token.sizeAll m.tokens)

theorem SameButValue.derived_eq {m' : MetaItem} (h : m.SameButValue m') :
    m.derived = m'.derived := by
  cases h with
  | refl => rfl
  | value => simp [derived, derivePaths]

end MetaItem

/-- `#[derive(..)]` with these arguments. -/
def deriveList (d : Delimiter) (arguments : List Token) : MetaItem :=
  .list ⟨false, [.plain "derive"]⟩ d arguments

/-- `#[cfg_attr(..)]` with these arguments. -/
def cfgAttrList (d : Delimiter) (arguments : List Token) : MetaItem :=
  .list ⟨false, [.plain "cfg_attr"]⟩ d arguments

theorem derived_deriveList (d : Delimiter) (arguments : List Token) :
    (deriveList d arguments).derived = derivePathsOf arguments := by
  unfold MetaItem.derived deriveList
  cases Token.sizeAll (MetaItem.list ⟨false, [.plain "derive"]⟩ d arguments).tokens <;>
    simp [MetaItem.derivePaths, NamePath.isWord]

theorem derived_cfgAttrList (d : Delimiter) (arguments : List Token) :
    (cfgAttrList d arguments).derived =
      (conditionalItems arguments).flatMap MetaItem.derived := by
  have hsize := (cfgAttrList d arguments).argumentsBelow_sizeAll_tokens _ d arguments rfl
  obtain ⟨n, hn⟩ : ∃ n, Token.sizeAll (cfgAttrList d arguments).tokens = n + 1 :=
    ⟨Token.sizeAll (cfgAttrList d arguments).tokens - 1, by omega⟩
  have hitems : ∀ item ∈ conditionalItems arguments, item.derivePaths n = item.derived := by
    refine fun item hitem => MetaItem.derivePaths_eq_of_argumentsBelow (fun key d' inner h => ?_)
      item.argumentsBelow_sizeAll_tokens
    exact (argumentsBelow_of_mem_conditionalItems hitem key d' inner h).trans_le (by omega)
  rw [MetaItem.derived, hn, ← List.flatMap_congr hitems]
  simp [cfgAttrList, MetaItem.derivePaths, NamePath.isWord, Ident.plain]

theorem derivePaths_eq_flatMap (attrs : List Attribute) :
    derivePaths attrs = attrs.flatMap (·.content.derived) := rfl

theorem derivePaths_append (attrs more : List Attribute) :
    derivePaths (attrs ++ more) = derivePaths attrs ++ derivePaths more := List.flatMap_append

/-- The attributes are derives of lists of paths, which are these paths one list after another. -/
inductive AreDerives : List Attribute → List Path → Prop
  | nil : AreDerives [] []
  | cons (inner : Bool) (d : Delimiter) {arguments : List Token} {paths more : List Path}
      {attrs : List Attribute} :
    CommaList (Grammar.forTokens arguments).IsPath arguments paths → AreDerives attrs more →
    AreDerives (⟨inner, deriveList d arguments⟩ :: attrs) (paths ++ more)

/-- The content of an attribute that derives nothing: it is no list called `derive` or `cfg_attr`,
or it is one whose arguments are not the list that they should be. -/
inductive MetaItem.DerivesNothing : MetaItem → Prop
  | other {m : MetaItem} : (∀ key d arguments, m = .list key d arguments →
      key.isWord "derive" = false ∧ key.isWord "cfg_attr" = false) → DerivesNothing m
  | noPaths (d : Delimiter) {arguments : List Token} :
    all (commaList ((Grammar.forTokens arguments).path false)) arguments = none →
    DerivesNothing (deriveList d arguments)
  | noItems (d : Delimiter) {arguments : List Token} :
    all (commaList (Grammar.forTokens arguments).metaItem) arguments = none →
    DerivesNothing (cfgAttrList d arguments)

/-- Other ways to write attributes, which may be combined. -/
inductive Rewritten : List Attribute → List Attribute → Prop
  /-- The same paths are derived in other lists. -/
  | derives {attrs attrs' : List Attribute} {paths : List Path} :
    AreDerives attrs paths → AreDerives attrs' paths → Rewritten attrs attrs'
  /-- Attributes are put under a condition, which is the first item. -/
  | conditional (inner : Bool) (d : Delimiter) {arguments : List Token} {items : List MetaItem} :
    CommaList (Grammar.forTokens arguments).IsMeta arguments items →
    Rewritten ((items.drop 1).map (⟨inner, ·⟩)) [⟨inner, cfgAttrList d arguments⟩]
  | inserted (inner : Bool) {m : MetaItem} : m.DerivesNothing → Rewritten [] [⟨inner, m⟩]
  | append {attrs attrs' more more' : List Attribute} : Rewritten attrs attrs' →
    Rewritten more more' → Rewritten (attrs ++ more) (attrs' ++ more')
  | refl (attrs : List Attribute) : Rewritten attrs attrs
  | symm {attrs attrs' : List Attribute} : Rewritten attrs attrs' → Rewritten attrs' attrs
  | trans {attrs attrs' attrs'' : List Attribute} : Rewritten attrs attrs' →
    Rewritten attrs' attrs'' → Rewritten attrs attrs''

theorem AreDerives.derivePaths_eq {attrs : List Attribute} {paths : List Path}
    (h : AreDerives attrs paths) : derivePaths attrs = paths := by
  induction h with
  | nil => rfl
  | @cons inner d arguments paths more attrs hpaths _ ih =>
    rw [derivePaths_eq_flatMap, List.flatMap_cons, ← derivePaths_eq_flatMap, ih,
      derived_deriveList, derivePathsOf_eq hpaths]

theorem flatMap_derived_of_forall₂ {items items' : List MetaItem}
    (h : List.Forall₂ MetaItem.SameButValue items items') :
    items.flatMap MetaItem.derived = items'.flatMap MetaItem.derived := by
  induction h with
  | nil => rfl
  | cons hm _ ih => rw [List.flatMap_cons, List.flatMap_cons, ih, hm.derived_eq]

/-- A `cfg_attr` derives what its items derive, whatever its condition. -/
theorem derived_of_isMeta (d : Delimiter) {arguments : List Token} {items : List MetaItem}
    (h : CommaList (Grammar.forTokens arguments).IsMeta arguments items) :
    (cfgAttrList d arguments).derived = (items.drop 1).flatMap MetaItem.derived := by
  rw [derived_cfgAttrList, flatMap_derived_of_forall₂ (forall₂_conditionalItems h)]

theorem MetaItem.DerivesNothing.derived_eq {m : MetaItem} (h : m.DerivesNothing) :
    m.derived = [] := by
  cases h with
  | other hkey =>
    cases m with
    | path p | value p kind v => simp [MetaItem.derived, MetaItem.derivePaths]
    | list key d arguments =>
      obtain ⟨hderive, hcfg⟩ := hkey key d arguments rfl
      unfold MetaItem.derived
      cases Token.sizeAll (MetaItem.list key d arguments).tokens <;>
        simp [MetaItem.derivePaths, hderive, hcfg]
  | noPaths d hall => rw [derived_deriveList, derivePathsOf, hall]
  | noItems d hall => rw [derived_cfgAttrList, conditionalItems, hall]; rfl

theorem Rewritten.derivePaths_eq {attrs attrs' : List Attribute} (h : Rewritten attrs attrs') :
    derivePaths attrs = derivePaths attrs' := by
  induction h with
  | derives h h' => rw [h.derivePaths_eq, h'.derivePaths_eq]
  | conditional inner d h =>
    rw [derivePaths_eq_flatMap, derivePaths_eq_flatMap, List.flatMap_map, List.flatMap_singleton,
      derived_of_isMeta d h]
  | inserted inner h =>
    rw [derivePaths_eq_flatMap, derivePaths_eq_flatMap, List.flatMap_singleton, h.derived_eq]
    rfl
  | append _ _ ih ihmore => rw [derivePaths_append, derivePaths_append, ih, ihmore]
  | refl => rfl
  | symm _ ih => exact ih.symm
  | trans _ _ ih ih' => exact ih.trans ih'

end RowFactory
