import RowFactory.Proofs.Name.QualifiedName
import RowFactory.Proofs.Source.Ensures
import RowFactory.Proofs.Source.Gives
import RowFactory.Source.File

namespace RowFactory

/-- A spelled name that is no reserved word, except for one word that stands for a name as well. -/
def Ident.IsNameOr (word : String) (i : Ident) : Prop :=
  i.isSpelled ∧ (i.isKeyword = false ∨ i = .plain word)

/-- The name of a field, if it has one, may be blank. -/
def Field.WellNamed (x : Field) : Prop := ∀ i ∈ x.name, i.IsNameOr "_"

/-- The name of a parameter is no reserved word; that of a type may be blank, without bounds. -/
def GenericParam.IsDeclared : GenericParam → Prop
  | .lifetime _ => True
  | .type _ name bs _ => name.isKeyword = false ∨ name = .plain "_" ∧ bs = []
  | .const _ name _ => name.isKeyword = false

/-- The struct is what has been read somewhere. -/
def StructItem.IsRead (s : StructItem) : Prop :=
  ∃ depth attrs visibility i j,
    ((Grammar.atDepth depth).structItem attrs visibility).Gives i s j

structure StructItem.WellNamed (s : StructItem) : Prop where
  read : s.IsRead
  name : s.name.isSpelled ∧ s.name.isKeyword = false
  params : ∀ p ∈ s.generics.params, p.IsDeclared
  fields : ∀ x ∈ s.fields.toList, x.WellNamed

mutual

/-- The item has names that can be written; so have all items in it, if it is a module. -/
def Item.WellNamed : Item → Prop
  | .struct item => item.WellNamed
  | .module n (some content) => IsModuleName n.name ∧ Item.AllWellNamed content
  | _ => True

def Item.AllWellNamed : List Item → Prop
  | [] => True
  | i :: rest => i.WellNamed ∧ Item.AllWellNamed rest

end

theorem Item.allWellNamed_of_forall {items : List Item} (h : ∀ i ∈ items, i.WellNamed) :
    Item.AllWellNamed items := by
  induction items with
  | nil => exact trivial
  | cons i rest ih => exact ⟨h i (by simp), ih fun j hj => h j (by simp [hj])⟩

/-- A module may be named by the word `try`. -/
theorem isModuleName_of_isNameOr {i : Ident} (h : i.IsNameOr "try") : IsModuleName i.name := by
  obtain ⟨hspelled, hname⟩ := h
  rw [Ident.isSpelled, Bool.and_eq_true] at hspelled
  refine ⟨hspelled.1, ?_⟩
  rintro hblank
  rcases hname with hkeyword | rfl
  · cases hraw : i.raw with
    | true => simp [hraw, hblank, neverRaw] at hspelled
    | false =>
      rw [Ident.isKeyword, hraw, hblank] at hkeyword
      revert hkeyword
      decide
  · revert hblank
    decide

open RowFactory.Parser

namespace Grammar

variable {g : Grammar}

theorem ensures_nameOrBlank : nameOrBlank.Ensures (·.IsNameOr "_") := ensures_ident_or_word "_"

theorem ensures_nameOrTry : nameOrTry.Ensures (·.IsNameOr "try") := ensures_ident_or_word "try"

theorem ensures_namedField : g.namedField.Ensures Field.WellNamed := by
  refine ensures_bind fun _ => ensures_bind fun _ => ensures_bind fun _ => ?_
  refine ensures_nameOrBlank.bind fun i hi => ensures_bind fun _ => ensures_bind fun _ => ?_
  have hnamed : ∀ attrs visibility type, Field.WellNamed ⟨attrs, visibility, some i, type⟩ := by
    rintro _ _ _ j ⟨⟩
    exact hi
  refine ensures_ite (fun _ => ?_) fun _ => ?_
  · exact ensures_bind fun _ => ensures_pure (hnamed _ _ _)
  · exact ensures_bind fun _ => ensures_pure (hnamed _ _ _)

theorem ensures_tupleField : g.tupleField.Ensures Field.WellNamed := by
  refine ensures_bind fun _ => ensures_bind fun _ => ensures_bind fun _ => ensures_pure ?_
  rintro i ⟨⟩

theorem wellNamed_namedOrVerbatim (name : Option Ident) : (namedOrVerbatim name).WellNamed := by
  cases name <;> exact trivial

theorem ensures_externCrate : externCrate.Ensures Item.WellNamed := by
  refine ensures_bind fun _ => ensures_bind fun _ => ensures_bind fun _ => ?_
  dsimp only
  split <;> exact ensures_bind fun _ => ensures_bind fun _ => ensures_bind fun _ => ensures_pure trivial

theorem ensures_externBlock : g.externBlock.Ensures Item.WellNamed :=
  ensures_bind fun _ => ensures_bind fun _ => ensures_bind fun _ => ensures_pure trivial

theorem ensures_useItem : useItem.Ensures Item.WellNamed := by
  refine ensures_bind fun _ => ensures_bind fun _ => ensures_bind fun _ => ensures_bind fun tree =>
    ensures_bind fun _ => ensures_pure ?_
  cases tree <;> exact trivial

theorem ensures_callItem : callItem.Ensures Item.WellNamed := by
  refine ensures_bind fun _ => ensures_bind fun _ => ensures_bind fun _ => ensures_bind fun name =>
    ensures_bind fun _ => ensures_pure ?_
  cases name <;> exact trivial

theorem ensures_macroItem : macroItem.Ensures Item.WellNamed := by
  refine ensures_bind fun _ => ensures_bind fun _ => ensures_bind fun _ => ?_
  dsimp only
  split
  · exact ensures_bind fun _ => ensures_bind fun _ => ensures_bind fun _ => ensures_pure trivial
  · exact ensures_bind fun _ => ensures_bind fun _ => ensures_pure trivial

theorem ensures_moduleItem (hitems : g.items.Ensures fun items => ∀ i ∈ items, i.WellNamed) :
    g.moduleItem.Ensures Item.WellNamed := by
  have hcontent : (group .brace do let _ ← g.innerAttributes; g.items).Ensures
      fun items => ∀ i ∈ items, i.WellNamed := (ensures_bind fun _ => hitems).group .brace
  refine ensures_bind fun _ => ensures_bind fun _ => ensures_nameOrTry.bind fun i hi => ?_
  refine ensures_bind fun _ => ensures_ite (fun _ => ensures_pure trivial) fun _ => ?_
  exact hcontent.bind fun items h =>
    ensures_pure ⟨isModuleName_of_isNameOr hi, Item.allWellNamed_of_forall h⟩

theorem ensures_implBlock (visibility : Visibility) :
    (g.implBlock visibility).Ensures Item.WellNamed := by
  refine ensures_bind fun _ => ensures_bind fun _ => ensures_bind fun _ => ensures_bind fun _ => ?_
  extract_lets afterGenerics
  suffices h : ∀ generics, (afterGenerics generics).Ensures Item.WellNamed by
    split <;> exact ensures_bind h
  refine fun generics => ensures_bind fun _ => ?_
  extract_lets afterConst
  suffices h : ∀ x, (afterConst x).Ensures Item.WellNamed by
    split
    · exact ensures_bind fun _ => ensures_bind h
    · exact h ()
  refine fun _ => ensures_bind fun _ => ?_
  extract_lets afterSign
  suffices h : ∀ x, (afterSign x).Ensures Item.WellNamed by
    split
    · exact ensures_bind h
    · exact h ()
  refine fun _ => ensures_bind fun _ => ensures_bind fun _ => ensures_bind fun _ => ?_
  extract_lets named afterTrait
  suffices h : ∀ x, (afterTrait x).Ensures Item.WellNamed by
    split
    · exact ensures_bind fun _ => h ()
    · exact h ()
  refine fun _ => ensures_bind fun _ => ensures_bind fun _ => ensures_pure ?_
  split
  · exact trivial
  · split <;> exact trivial

section

variable {P : List Token → Prop}

/-- Parameters that are read have names. -/
theorem ensuresWhere_genericParam (hP : PassesOn P) :
    EnsuresWhere P g.genericParam GenericParam.IsDeclared := by
  refine ensuresWhere_bind hP fun attrs => ensuresWhere_bind hP fun _ => ?_
  refine ensuresWhere_ite (fun _ => ensuresWhere_bind hP fun _ => ensuresWhere_pure trivial) fun _ => ?_
  refine ensuresWhere_bind hP fun _ => ensuresWhere_ite (fun _ => ?_) fun _ => ?_
  · refine (ensuresWhere_ident hP).bind hP fun name hname => ensuresWhere_bind hP fun _ => ?_
    refine ensuresWhere_bind hP fun _ => ensuresWhere_bind hP fun _ => ?_
    exact ensuresWhere_ite
      (fun _ => ensuresWhere_bind hP fun _ => ensuresWhere_pure hname) fun _ => ensuresWhere_pure hname
  · refine (ensuresWhere_ident hP).bind hP fun name hname => ensuresWhere_bind hP fun _ => ?_
    refine ensuresWhere_bind hP fun _ => ensuresWhere_ite
      (fun _ => ensuresWhere_bind hP fun _ => ensuresWhere_pure (.inl hname))
      fun _ => ensuresWhere_pure (.inl hname)

/-- What is peeked at, a blank after attributes, is then read. -/
theorem ensuresWhere_declaredParam (hP : PassesOn P) :
    EnsuresWhere P g.declaredParam GenericParam.IsDeclared := by
  intro c p c' hc hrun
  rw [declaredParam, run_peek_bind] at hrun
  split at hrun
  case isTrue hblank =>
    obtain ⟨⟨attrs, c₁⟩, hattrs, hrun⟩ := Option.bind_eq_some_iff.mp hrun
    obtain ⟨⟨name, c₂⟩, hname, hrun⟩ := Option.bind_eq_some_iff.mp hrun
    cases hrun
    obtain ⟨⟨seen, c₃⟩, hseen, rfl⟩ := Option.map_eq_some_iff.mp hblank
    obtain ⟨⟨attrs', c₄⟩, hagain, hseen⟩ := Option.bind_eq_some_iff.mp hseen
    cases hattrs.symm.trans hagain
    have hword : isWord "_" c₁.ahead = true := (Prod.mk.inj (Option.some.inj hseen)).1
    exact .inr ⟨eq_plain_of_isWord hword hname, rfl⟩
  case isFalse => exact ensuresWhere_genericParam hP c p c' hc hrun

theorem ensuresWhere_genericParams (hP : PassesOn P) :
    EnsuresWhere P g.genericParams fun q => ∀ p ∈ q.params, p.IsDeclared := by
  refine ensuresWhere_bind hP fun _ => ensuresWhere_ite (fun _ => ?_) fun _ =>
    ensuresWhere_pure (by simp [Generics.none])
  have hparams : EnsuresWhere P (closedList (isOperator ">") "," (withWritten g.declaredParam))
      fun params => ∀ p ∈ params.1, p.1.IsDeclared :=
    ensuresWhere_bind hP fun _ => (((ensuresWhere_declaredParam hP).withWritten hP).closedListFrom
      hP _ _ _).bind hP fun _ h => ensuresWhere_pure h
  refine (EnsuresWhere.writtenAs hP _ (ensuresWhere_bind hP fun _ => hparams.bind hP fun params h =>
    ensuresWhere_bind hP fun _ => ensuresWhere_pure h)).bind hP fun params h => ?_
  refine ensuresWhere_pure fun p hp => ?_
  obtain ⟨q, hq, rfl⟩ := List.mem_map.mp hp
  exact h q hq

/-- A where clause leaves the parameters as they are. -/
theorem ensuresWhere_whereClause (hP : PassesOn P) (generics : Generics) :
    EnsuresWhere P (g.whereClause generics) fun q => q.params = generics.params := by
  refine ensuresWhere_bind hP fun _ => ensuresWhere_ite (fun _ => ?_) fun _ => ensuresWhere_pure rfl
  refine EnsuresWhere.writtenAs hP _ (ensuresWhere_bind hP fun _ => ensuresWhere_bind hP fun _ => ?_)
  exact ensuresWhere_bind hP fun _ => ensuresWhere_pure rfl

/-- Parameters that are declared stay so behind a where clause. -/
theorem ensuresWhere_clauseBehind (hP : PassesOn P) {generics : Generics}
    (h : ∀ p ∈ generics.params, p.IsDeclared) :
    EnsuresWhere P (g.whereClause generics) fun q => ∀ p ∈ q.params, p.IsDeclared := by
  intro c q c' hc hrun
  rw [ensuresWhere_whereClause hP generics c q c' hc hrun]
  exact h

theorem ensuresWhere_structItem (hP : PassesOn P) (attrs : List Attribute)
    (visibility : Visibility) :
    EnsuresWhere P (g.structItem attrs visibility) fun s =>
      s.name.isKeyword = false ∧ ∀ p ∈ s.generics.params, p.IsDeclared := by
  refine ensuresWhere_bind hP fun _ => (ensuresWhere_ident hP).bind hP fun i hi => ?_
  refine (ensuresWhere_genericParams hP).bind hP fun generics hparams => ?_
  have hclause := ensuresWhere_clauseBehind (g := g) hP hparams
  have hbody : EnsuresWhere P (g.structBody generics) fun body =>
      ∀ p ∈ body.1.params, p.IsDeclared := by
    refine ensuresWhere_bind hP fun _ => ensuresWhere_ite (fun _ => ?_) fun _ => ?_
    · exact ensuresWhere_bind hP fun _ => hclause.bind hP fun _ h => ensuresWhere_bind hP fun _ =>
        ensuresWhere_pure h
    · refine hclause.bind hP fun _ h => ensuresWhere_bind hP fun _ => ensuresWhere_ite
        (fun _ => ensuresWhere_pure h) fun _ => ensuresWhere_bind hP fun _ => ensuresWhere_pure h
  exact hbody.bind hP fun _ h => ensuresWhere_pure ⟨hi, h⟩

end

section

variable (hfield : g.field.Ensures Field.WellNamed)
include hfield

theorem ensures_structBody {generics : Generics} (hparams : ∀ p ∈ generics.params, p.IsDeclared) :
    (g.structBody generics).Ensures fun body =>
      (∀ p ∈ body.1.params, p.IsDeclared) ∧ ∀ x ∈ body.2.toList, x.WellNamed := by
  have hclause : (g.whereClause generics).Ensures fun q => ∀ p ∈ q.params, p.IsDeclared :=
    ensuresWhere_clauseBehind passesOn_namesSpelled hparams
  have htuple : g.tupleFields.Ensures fun fields => ∀ x ∈ fields, x.WellNamed :=
    (ensures_tupleField.commaList.group .paren).bind fun _ h => ensures_pure h
  have hnamed : g.namedFields.Ensures fun fields => ∀ x ∈ fields, x.WellNamed :=
    (hfield.commaList.group .brace).bind fun _ h => ensures_pure h
  refine ensures_bind fun _ => ensures_ite (fun _ => ?_) fun _ => ?_
  · exact htuple.bind fun fields h => hclause.bind fun _ hparams =>
      ensures_bind fun _ => ensures_pure ⟨hparams, h⟩
  · refine hclause.bind fun _ hparams => ensures_bind fun _ =>
      ensures_ite (fun _ => ?_) fun _ => ?_
    · exact ensures_pure ⟨hparams, by simp [Fields.toList]⟩
    · exact hnamed.bind fun fields h => ensures_pure ⟨hparams, h⟩

theorem ensures_structItem (attrs : List Attribute) (visibility : Visibility) :
    (g.structItem attrs visibility).Ensures fun s =>
      (s.name.isSpelled ∧ s.name.isKeyword = false) ∧
        (∀ p ∈ s.generics.params, p.IsDeclared) ∧ ∀ x ∈ s.fields.toList, x.WellNamed := by
  refine ensures_bind fun _ => ensures_ident.bind fun i hi => ?_
  refine Ensures.bind (ensuresWhere_genericParams passesOn_namesSpelled) fun _ hparams => ?_
  exact (ensures_structBody hfield hparams).bind fun body h => ensures_pure ⟨hi, h⟩

end

section

variable {depth : Nat} (hfield : (atDepth depth).field.Ensures Field.WellNamed)
  (hitems : (atDepth depth).items.Ensures fun items => ∀ i ∈ items, i.WellNamed)
include hfield hitems

/-- Where the readers of fields and of nested items return well-named ones, so does the reader of
items. -/
theorem ensures_itemRest (attrs : List Attribute) (visibility : Visibility) :
    ((atDepth depth).itemRest attrs visibility).Ensures Item.WellNamed := by
  have hnamed {p : Parser Ident} : (do return .named (← p) : Parser Item).Ensures Item.WellNamed :=
    ensures_bind fun _ => ensures_pure trivial
  refine ensures_bind fun ts => ?_
  extract_lets second
  refine ensures_ite (fun _ => ?_) fun _ => ensures_ite (fun _ => ensures_externCrate) fun _ =>
    ensures_ite (fun _ => ensures_bind fun _ => ensures_externBlock) fun _ =>
    ensures_ite (fun _ => ensures_useItem) fun _ => ensures_ite (fun _ => ?_) fun _ =>
    ensures_ite (fun _ => ?_) fun _ => ensures_ite (fun _ => ensures_moduleItem hitems) fun _ =>
    ensures_ite (fun _ => ?_) fun _ => ensures_ite (fun _ => ?_) fun _ =>
    ensures_ite (fun _ => hnamed) fun _ => ensures_ite (fun _ => hnamed) fun _ =>
    ensures_ite (fun _ => hnamed) fun _ => ensures_ite (fun _ => ?_) fun _ =>
    ensures_ite (fun _ => ensures_implBlock visibility) fun _ =>
    ensures_ite (fun _ => ensures_macroItem) fun _ => ensures_bind fun _ => ensures_callItem
  case _ =>
    exact ensures_bind fun _ => ensures_bind fun _ => ensures_pure (wellNamed_namedOrVerbatim _)
  case _ =>
    exact ensures_bind fun _ => ensures_pure (wellNamed_namedOrVerbatim _)
  case _ =>
    refine ensures_bind fun _ => ensures_pure ?_
    split <;> exact trivial
  case _ =>
    refine ensures_bind fun _ => ensures_pure ?_
    split <;> exact trivial
  case _ =>
    have hstruct : ((atDepth depth).structItem attrs visibility).Ensures StructItem.WellNamed := by
      intro c s c' hc hrun
      obtain ⟨hname, hparams, hfields⟩ :=
        ensures_structItem hfield attrs visibility c s c' hc hrun
      exact ⟨⟨depth, attrs, visibility, _, _, gives_of_run hrun⟩, hname, hparams, hfields⟩
    exact hstruct.bind fun _ h => ensures_pure h
  case _ =>
    exact ensures_bind fun _ => ensures_bind fun _ => hnamed

theorem ensures_oneItem : (atDepth depth).oneItem.Ensures Item.WellNamed := by
  refine ensures_bind fun _ => ensures_bind fun attrs => ensures_bind fun visibility => ?_
  refine (ensures_itemRest hfield hitems attrs visibility).bind fun item h => ?_
  cases item with
  | verbatim => exact ensures_bind fun _ => ensures_pure h
  | _ => exact ensures_pure h

end

/-- The names are fine at every depth of nesting. -/
theorem ensures_atDepth (depth : Nat) :
    (atDepth depth).field.Ensures Field.WellNamed ∧
      (atDepth depth).items.Ensures fun items => ∀ i ∈ items, i.WellNamed := by
  induction depth with
  | zero => exact ⟨ensures_failure, ensures_failure⟩
  | succ depth ih => exact ⟨ensures_namedField, (ensures_oneItem ih.1 ih.2).toEnd⟩

end Grammar

theorem allWellNamed_of_itemsOfText? {source : String} {items : List Item}
    (h : itemsOfText? source = some items) : Item.AllWellNamed items := by
  obtain ⟨ts, htokens, h⟩ := Option.bind_eq_some_iff.mp h
  obtain ⟨⟨read, c⟩, hread, h⟩ := Option.bind_eq_some_iff.mp h
  obtain ⟨-, -, h⟩ := Option.bind_eq_some_iff.mp h
  cases h
  have hfile : (do let _ ← (Grammar.forTokens ts).innerAttributes; (Grammar.forTokens ts).items :
      Parser (List Item)).Ensures fun items => ∀ i ∈ items, i.WellNamed :=
    ensures_bind fun _ => (Grammar.ensures_atDepth _).2
  exact Item.allWellNamed_of_forall
    (hfile (.start ts) items c (Token.namesSpelled_of_tokens? htokens) hread)

end RowFactory
