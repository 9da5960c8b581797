import Mathlib.Data.List.Forall2
import RowFactory.Proofs.Factory.FromRow
import RowFactory.Proofs.Generation.Replay

namespace RowFactory

/-- A field with a name, public without restriction, that is not marked read-only. -/
def Member.IsMapped (m : Member) : Prop :=
  m.kind = .field ∧ m.name.isSome ∧ m.type.isSome ∧ m.visibility = .anyone ∧
    ∀ a ∈ m.attrs, a.isNamed "readonly" = false

instance (m : Member) : Decidable m.IsMapped := inferInstanceAs (Decidable (_ ∧ _))

def AnnotatedType.mapped (t : AnnotatedType) : List Member := t.members.filter (·.IsMapped)

/-- The binding is that of the member: its column is the one that the member's own attributes name,
or else the member's identifier, raw or not. -/
def Member.BoundAs (m : Member) (b : ColumnBinding) : Prop :=
  m.name = some b.field ∧ m.type = some b.type ∧
    b.column = (columnOverride? m.attrs).getD b.field.name

/-- The members have one identifier and one column. -/
def Member.MappedAlike (m m' : Member) : Prop :=
  m.name = m'.name ∧
    ∀ i ∈ m.name, (columnOverride? m.attrs).getD i.name = (columnOverride? m'.attrs).getD i.name

theorem Member.isEligible_of_isMapped {m : Member} (h : m.IsMapped) : m.isEligible = true := by
  obtain ⟨hkind, hname, -, hvisible, hattrs⟩ := h
  have hreadonly : isReadonly m.attrs = false :=
    List.any_eq_false.mpr fun a ha => by simp [hattrs a ha]
  simp [isEligible, hkind, hname, hvisible, hreadonly]

theorem Member.exists_binding_of_isMapped {m : Member} (h : m.IsMapped) :
    ∃ b, m.binding? = some b ∧ m.BoundAs b := by
  obtain ⟨field, hfield⟩ := Option.isSome_iff_exists.mp h.2.1
  obtain ⟨type, htype⟩ := Option.isSome_iff_exists.mp h.2.2.1
  refine ⟨⟨field, resolveColumnName field m.attrs, type⟩, ?_, hfield, htype, rfl⟩
  rw [binding?, if_pos (isEligible_of_isMapped h), hfield, htype]

theorem Member.isMapped_of_binding? {m : Member} {b : ColumnBinding} (h : m.binding? = some b) :
    m.IsMapped := by
  unfold binding? at h
  split at h
  case isFalse => cases h
  case isTrue heligible =>
    simp only [isEligible, Bool.and_eq_true, decide_eq_true_eq, Bool.not_eq_true'] at heligible
    obtain ⟨⟨⟨hkind, hname⟩, hvisible⟩, hreadonly⟩ := heligible
    have hattrs : ∀ a ∈ m.attrs, a.isNamed "readonly" = false := fun a ha => by
      simpa using List.any_eq_false.mp hreadonly a ha
    split at h
    next htype => exact ⟨hkind, hname, by simp [htype], hvisible, hattrs⟩
    next => cases h

/-- Mapped members and bindings go in pairs, in the order of the members. -/
theorem forall₂_bindings (members : List Member) :
    List.Forall₂ Member.BoundAs (members.filter (·.IsMapped))
      (members.filterMap Member.binding?) := by
  induction members with
  | nil => exact .nil
  | cons m rest ih =>
    by_cases hm : m.IsMapped
    · obtain ⟨b, hbinding, hbound⟩ := Member.exists_binding_of_isMapped hm
      rw [List.filter_cons_of_pos (by simpa using hm), List.filterMap_cons_some hbinding]
      exact .cons hbound ih
    · have hnone : m.binding? = none := by
        cases hbinding : m.binding? with
        | none => rfl
        | some b => exact absurd (Member.isMapped_of_binding? hbinding) hm
      rw [List.filter_cons_of_neg (by simpa using hm), List.filterMap_cons_none hnone]
      exact ih

theorem Member.isMapped_ofField {x : Field} :
    (Member.ofField x).IsMapped ↔
      x.name.isSome ∧ x.visibility = .anyone ∧ isReadonly x.attrs = false := by
  simp [IsMapped, ofField, isReadonly]

/-- Only fields are mapped. -/
theorem mapped_ofStruct (m : ModulePath) (s : StructItem) (impls : List ImplItem) :
    (AnnotatedType.ofStruct m s impls).mapped =
      (s.fields.toList.filter fun x =>
        x.name.isSome && x.visibility = .anyone && !isReadonly x.attrs).map Member.ofField := by
  have himpls : (impls.map Member.ofImplItem).filter (·.IsMapped) = [] := by
    refine List.filter_eq_nil_iff.mpr fun member hmember hmapped => ?_
    obtain ⟨item, -, rfl⟩ := List.mem_map.mp hmember
    obtain ⟨b, hbinding, -⟩ := Member.exists_binding_of_isMapped (of_decide_eq_true hmapped)
    rw [binding?_ofImplItem] at hbinding
    cases hbinding
  rw [AnnotatedType.mapped, AnnotatedType.ofStruct, List.filter_append, himpls, List.append_nil,
    List.filter_map]
  congr 1
  refine List.filter_congr fun x _ => ?_
  simp [Member.isMapped_ofField, Bool.and_assoc]

theorem assignments_eq_of_mappedAlike {ms ms' : List Member} {bs bs' : List ColumnBinding}
    (hbs : List.Forall₂ Member.BoundAs ms bs) (hbs' : List.Forall₂ Member.BoundAs ms' bs')
    (h : List.Forall₂ Member.MappedAlike ms ms') :
    (bs.map fun b => (⟨b.field, b.column⟩ : Assignment)) =
      bs'.map fun b => (⟨b.field, b.column⟩ : Assignment) := by
  induction h generalizing bs bs' with
  | nil =>
    cases hbs
    cases hbs'
    rfl
  | cons halike _ ih =>
    obtain _ | ⟨hbound, hrest⟩ := hbs
    obtain _ | ⟨hbound', hrest'⟩ := hbs'
    rename_i b bs b' bs'
    have hfield : b.field = b'.field :=
      Option.some.inj (hbound.1.symm.trans (halike.1.trans hbound'.1))
    have hcolumn : b.column = b'.column := by
      rw [hbound.2.2, hbound'.2.2, ← hfield]
      exact halike.2 b.field hbound.1
    rw [List.map_cons, List.map_cons, ih hrest hrest', hfield, hcolumn]

/-- A type gives one binding for each mapped member, whatever happened before its members are
looked at. -/
theorem yields_bindMembers_iff {members : List Member} {bs : List ColumnBinding} :
    (bindMembers members).Yields bs ↔ bs = members.filterMap Member.binding? := by
  refine ⟨fun h => ?_, fun h => h ▸ yields_bindMembers members⟩
  obtain ⟨n, hn⟩ := h .start
  obtain ⟨k, hk⟩ := yields_bindMembers members .start
  rw [hn] at hk
  exact Except.ok.inj (Prod.mk.inj hk).1

/-- The check before each member ends the work where the signal is set. -/
theorem runFrom_bindMembers_of_set {signal : Signal} {members : List Member} {start : Progress}
    {i : Nat} (hi : i < members.length)
    (hset : signal (start.checks + i) start.delivered.length = true) :
    ∃ checks, (bindMembers members).runFrom signal start =
      (.error .cancelled, ⟨checks, start.delivered⟩) := by
  induction members generalizing start i with
  | nil => cases hi
  | cons m rest ih =>
    cases hfirst : signal start.checks start.delivered.length with
    | true =>
      refine ⟨start.checks + 1, ?_⟩
      rw [bindMembers, Pass.runFrom_bind, Pass.runFrom_check, hfirst]
      rfl
    | false =>
      obtain ⟨j, rfl⟩ : ∃ j, i = j + 1 := by
        cases i with
        | zero =>
          rw [Nat.add_zero, hfirst] at hset
          cases hset
        | succ j => exact ⟨j, rfl⟩
      have hlater : signal (start.checks + 1 + j) start.delivered.length = true := by
        rw [← hset]
        congr 1
        omega
      obtain ⟨checks, hrest⟩ := @ih ⟨start.checks + 1, start.delivered⟩ j
        (Nat.lt_of_succ_lt_succ hi) hlater
      refine ⟨checks, ?_⟩
      rw [bindMembers, Pass.runFrom_bind, Pass.runFrom_check, hfirst]
      simp only [Bool.false_eq_true, ↓reduceIte]
      rw [Pass.runFrom_bind, hrest]

/-- While nothing is cancelled, a struct gives one binding for each field with a name that is public
without restriction and not marked read-only, in the order of the fields: the field's identifier and
type, and the column that its own attributes name or else its name without `r#`. Cancelled before
any of the members is looked at, the work returns no bindings. What is generated for a type is
determined by its name, its parameters, and the identifiers and columns of its mapped fields in
their order: types, other fields and attributes and the items of `impl` blocks do not show. -/
theorem mapped_fields_determine_artifact :
    (∀ (m : ModulePath) (s : StructItem) (impls : List ImplItem),
      ∃ bindings, (bindMembers (AnnotatedType.ofStruct m s impls).members).Yields bindings ∧
        List.Forall₂
          (fun x b => x.name = some b.field ∧ b.type = x.type ∧
            b.column = (columnOverride? x.attrs).getD b.field.name)
          (s.fields.toList.filter fun x =>
            x.name.isSome && x.visibility = .anyone && !isReadonly x.attrs) bindings) ∧
    (∀ (t : AnnotatedType) (signal : Signal) (start : Progress) (i : Nat), i < t.members.length →
      signal (start.checks + i) start.delivered.length = true →
      ∃ checks, (bindMembers t.members).runFrom signal start =
        (.error .cancelled, ⟨checks, start.delivered⟩)) ∧
    ∀ (t t' : AnnotatedType), t.name = t'.name → t.generics = t'.generics →
      List.Forall₂ Member.MappedAlike t.mapped t'.mapped →
      ∀ bindings bindings', (bindMembers t.members).Yields bindings →
        (bindMembers t'.members).Yields bindings' →
        ∀ (runtime : Path) (printer : Printer),
          emit t bindings runtime printer = emit t' bindings' runtime printer := by
  refine ⟨fun m s impls => ?_, fun t signal start i hi hset => runFrom_bindMembers_of_set hi hset,
    fun t t' hname hgenerics halike bs bs' hbs hbs' runtime printer => ?_⟩
  · refine ⟨_, yields_bindMembers _, ?_⟩
    have hpairs := forall₂_bindings (AnnotatedType.ofStruct m s impls).members
    rw [← AnnotatedType.mapped, mapped_ofStruct, List.forall₂_map_left_iff] at hpairs
    refine hpairs.imp fun x b hb => ?_
    exact ⟨hb.1, (Option.some.inj hb.2.1).symm, hb.2.2⟩
  · rw [yields_bindMembers_iff.mp hbs, yields_bindMembers_iff.mp hbs']
    have hassignments := assignments_eq_of_mappedAlike (forall₂_bindings t.members)
      (forall₂_bindings t'.members) halike
    have hfactory : Factory.ofType? t (t.members.filterMap Member.binding?) runtime =
        Factory.ofType? t' (t'.members.filterMap Member.binding?) runtime := by
      rw [Factory.ofType?, Factory.ofType?, hname, hgenerics, hassignments]
    rw [emit, emit, hfactory, hname]

/-- A customer whose fields have other types, and fields that are not mapped beside them. -/
def guardedCustomer : StructItem :=
  { customerStruct with
    fields := .named
      [⟨[], .restricted, some (.plain "owner"), plainTy "String"⟩,
        ⟨[], .anyone, some (.plain "id"), plainTy "u128"⟩,
        ⟨[⟨false, .path ⟨false, [.plain "readonly"]⟩⟩], .anyone, some (.plain "balance"),
          plainTy "u64"⟩,
        ⟨[⟨false, .path ⟨false, [.plain "column"]⟩⟩], .anyone, some (.plain "rank"),
          plainTy "Rank"⟩] }

theorem mapped_fields_determine_artifact_customer :
    let t := AnnotatedType.ofStruct ⟨["crate"]⟩ customerStruct []
    let t' := AnnotatedType.ofStruct ⟨["crate"]⟩ guardedCustomer
      [⟨[], [], .function [] .anyone (.plain "balance")⟩]
    t.name = t'.name ∧ t.generics = t'.generics ∧
      List.Forall₂ Member.MappedAlike t.mapped t'.mapped ∧
      (bindMembers t.members).Yields t.bindings ∧ (bindMembers t'.members).Yields t'.bindings ∧
      ∀ printer, emit t t.bindings defaultRuntime printer =
        emit t' t'.bindings defaultRuntime printer := by
  intro t t'
  have halike : List.Forall₂ Member.MappedAlike t.mapped t'.mapped :=
    .cons ⟨rfl, fun _ _ => rfl⟩ (.cons ⟨rfl, fun _ _ => rfl⟩ .nil)
  have hbs := yields_bindMembers t.members
  have hbs' := yields_bindMembers t'.members
  exact ⟨rfl, rfl, halike, hbs, hbs',
    mapped_fields_determine_artifact.2.2 t t' rfl rfl halike _ _ hbs hbs' defaultRuntime⟩

end RowFactory
