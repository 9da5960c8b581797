import RowFactory.Mapping.Binding
import RowFactory.Proofs.Generation.Pass
import RowFactory.Scan.Discovery

namespace RowFactory

/-- Only what is a field is mapped. -/
theorem binding?_ofImplItem (item : ImplItem) : (Member.ofImplItem item).binding? = none := by
  have hkind : (Member.ofImplItem item).kind ≠ .field := by
    unfold Member.ofImplItem
    split <;> simp
  simp [Member.binding?, Member.isEligible, hkind]

def fieldBindings (fields : List Field) : List ColumnBinding :=
  fields.filterMap fun x => (Member.ofField x).binding?

theorem bindings_ofStruct (m : ModulePath) (s : StructItem) (impls : List ImplItem) :
    (AnnotatedType.ofStruct m s impls).bindings = fieldBindings s.fields.toList := by
  have himpls : (impls.map Member.ofImplItem).filterMap Member.binding? = [] := by
    rw [List.filterMap_map]
    exact List.filterMap_eq_nil_iff.mpr fun item _ => binding?_ofImplItem item
  simp only [AnnotatedType.bindings, AnnotatedType.ofStruct, List.filterMap_append, himpls,
    List.append_nil, List.filterMap_map]
  rfl

theorem name_of_binding? {x : Field} {b : ColumnBinding}
    (h : (Member.ofField x).binding? = some b) : x.name = some b.field ∧ b.type = x.type := by
  unfold Member.binding? at h
  split at h
  · split at h
    · rename_i field type hfield htype
      obtain rfl := Option.some.inj h
      exact ⟨hfield, (Option.some.inj htype).symm⟩
    · simp at h
  · simp at h

theorem binding?_of_isEligible {x : Field} (h : (Member.ofField x).isEligible) :
    ∃ field, x.name = some field ∧
      (Member.ofField x).binding? = some ⟨field, resolveColumnName field x.attrs, x.type⟩ := by
  have hname : x.name.isSome := by
    simp only [Member.isEligible, Bool.and_eq_true] at h
    exact h.1.1.2
  obtain ⟨field, hfield⟩ := Option.isSome_iff_exists.mp hname
  refine ⟨field, hfield, ?_⟩
  rw [Member.binding?, if_pos h]
  simp [Member.ofField, hfield]

theorem mem_fieldBindings {fields : List Field} {b : ColumnBinding} :
    b ∈ fieldBindings fields ↔ ∃ x ∈ fields, (Member.ofField x).binding? = some b :=
  List.mem_filterMap

theorem fieldBindings_cons_none {x : Field} (h : (Member.ofField x).binding? = none)
    (rest : List Field) : fieldBindings (x :: rest) = fieldBindings rest := by
  simp [fieldBindings, h]

theorem fieldBindings_cons_some {x : Field} {b : ColumnBinding}
    (h : (Member.ofField x).binding? = some b) (rest : List Field) :
    fieldBindings (x :: rest) = b :: fieldBindings rest := by
  simp [fieldBindings, h]

theorem sublist_fieldBindings (fields : List Field) :
    ((fieldBindings fields).map (·.field)).Sublist (fields.filterMap (·.name)) := by
  induction fields with
  | nil => exact .slnil
  | cons x rest ih =>
    cases hb : (Member.ofField x).binding? with
    | none =>
      rw [fieldBindings_cons_none hb]
      exact ih.trans ((List.sublist_cons_self x rest).filterMap _)
    | some b =>
      rw [fieldBindings_cons_some hb, List.map_cons,
        List.filterMap_cons_some (name_of_binding? hb).1]
      exact ih.cons_cons b.field

/-- Without cancellation looking at the members one by one gives all bindings. -/
theorem yields_bindMembers (members : List Member) :
    (bindMembers members).Yields (members.filterMap Member.binding?) := by
  induction members with
  | nil => exact Pass.yields_pure []
  | cons m rest ih =>
    refine Pass.yields_check.bind (ih.bind ?_)
    cases h : m.binding? <;> simpa [h] using Pass.yields_pure _

end RowFactory
