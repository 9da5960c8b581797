import RowFactory.Proofs.Factory.Execution
import RowFactory.Proofs.Factory.OfStruct

namespace RowFactory

/-- Where names are distinct, a name belongs to one field. -/
theorem find?_name_eq_some {fields : List Field} {x : Field} {name : Ident}
    (hdistinct : (fields.filterMap (·.name)).Nodup) (hx : x ∈ fields) (hname : x.name = some name) :
    fields.find? (·.name = some name) = some x := by
  induction fields with
  | nil => simp at hx
  | cons y rest ih =>
    have hrest : (rest.filterMap (·.name)).Nodup :=
      hdistinct.sublist ((List.sublist_cons_self y rest).filterMap _)
    rcases List.mem_cons.mp hx with rfl | hx
    · simp [hname]
    · have hne : y.name ≠ some name := by
        intro hy
        rw [List.filterMap_cons_some hy] at hdistinct
        exact (List.nodup_cons.mp hdistinct).1 (List.mem_filterMap.mpr ⟨x, hx, hname⟩)
      rw [List.find?_cons_of_neg (by simpa using hne)]
      exact ih hrest hx

section

variable {τ : Type} {Carrier : τ → Type} {ε : Type} (meaning : Ty → τ)

/-- What a row says of the column of a binding, read as the type of its field. -/
def ColumnBinding.read (b : ColumnBinding) (row : RowOf Carrier ε) :
    Except ε (Carrier (meaning b.type)) :=
  row.get (meaning b.type) b.column

/-- The columns are read in order up to the first that cannot be, and its error is the outcome. -/
def StopsAtFailure (row : RowOf Carrier ε) (bindings : List ColumnBinding)
    (outcome : Except ε (InstanceOf Carrier)) (columns : List String) : Prop :=
  ∃ before b after e, bindings = before ++ b :: after ∧
    (∀ c ∈ before, ∃ v, c.read meaning row = .ok v) ∧ b.read meaning row = .error e ∧
    outcome = .error e ∧ columns = (before ++ [b]).map (·.column)

/-- All columns are read in order. Every field with a binding holds what its own column is
converted to, and every other field what it held at first. -/
def FillsBoundFields (row : RowOf Carrier ε) (fields : List Field) (start : InstanceOf Carrier)
    (outcome : Except ε (InstanceOf Carrier)) (columns : List String) : Prop :=
  ∃ i : InstanceOf Carrier, outcome = .ok i ∧ columns = (fieldBindings fields).map (·.column) ∧
    i.length = start.length ∧
    ∀ (k : Nat) (x : Field), fields[k]? = some x →
      match (Member.ofField x).binding? with
      | some b => ∃ v : Carrier (meaning b.type), b.read meaning row = .ok v ∧
          i[k]? = some (x.name, ⟨meaning b.type, v⟩)
      | none => i[k]? = start[k]?

variable {meaning} {fields : List Field} {start : InstanceOf Carrier} {row : RowOf Carrier ε}

theorem nodup_assignments (hdistinct : (fields.filterMap (·.name)).Nodup) :
    (((fieldBindings fields).map ColumnBinding.assignment).map (·.field)).Nodup := by
  rw [List.map_map]
  exact hdistinct.sublist (sublist_fieldBindings fields)

theorem target?_of_mem_fieldBindings (hdistinct : (fields.filterMap (·.name)).Nodup)
    (hstart : start.fields = fields.map fun x => (x.name, meaning x.type)) {b : ColumnBinding}
    (hb : b ∈ fieldBindings fields) : start.target? b.field = some (meaning b.type) := by
  obtain ⟨x, hx, hbinding⟩ := mem_fieldBindings.mp hb
  obtain ⟨hname, htype⟩ := name_of_binding? hbinding
  rw [InstanceOf.target?_eq_fields, hstart, List.find?_map]
  have hfind : fields.find? ((·.1 = some b.field) ∘ fun x => (x.name, meaning x.type)) = some x :=
    find?_name_eq_some hdistinct hx hname
  rw [hfind, htype]
  rfl

theorem exists_target? (hdistinct : (fields.filterMap (·.name)).Nodup)
    (hstart : start.fields = fields.map fun x => (x.name, meaning x.type)) :
    ∀ a ∈ (fieldBindings fields).map ColumnBinding.assignment,
      ∃ t, start.target? a.field = some t := by
  intro a ha
  obtain ⟨b, hb, rfl⟩ := List.mem_map.mp ha
  exact ⟨_, target?_of_mem_fieldBindings hdistinct hstart hb⟩

theorem read_of_readsAll (hdistinct : (fields.filterMap (·.name)).Nodup)
    (hstart : start.fields = fields.map fun x => (x.name, meaning x.type))
    {bindings : List ColumnBinding} (hsub : bindings ⊆ fieldBindings fields)
    (h : ReadsAll row start (bindings.map ColumnBinding.assignment)) {b : ColumnBinding}
    (hb : b ∈ bindings) : ∃ v, b.read meaning row = .ok v := by
  obtain ⟨t, v, ht, hv⟩ := h b.assignment (List.mem_map_of_mem hb)
  have htype := target?_of_mem_fieldBindings hdistinct hstart (hsub hb)
  obtain rfl : meaning b.type = t := Option.some.inj (htype.symm.trans ht)
  exact ⟨v, hv⟩

/-- A field without a binding shares its name with no field that has one. -/
theorem name_ne_of_binding?_eq_none (hdistinct : (fields.filterMap (·.name)).Nodup) {x : Field}
    (hx : x ∈ fields) (hnone : (Member.ofField x).binding? = none) {b : ColumnBinding}
    (hb : b ∈ fieldBindings fields) : x.name ≠ some b.field := by
  intro hname
  obtain ⟨y, hy, hbinding⟩ := mem_fieldBindings.mp hb
  have hfindx := find?_name_eq_some hdistinct hx hname
  have hfindy := find?_name_eq_some hdistinct hy (name_of_binding? hbinding).1
  obtain rfl : x = y := Option.some.inj (hfindx.symm.trans hfindy)
  simp [hnone] at hbinding

theorem fillsBoundFields_of_readsAll (hdistinct : (fields.filterMap (·.name)).Nodup)
    (hstart : start.fields = fields.map fun x => (x.name, meaning x.type))
    (hall : ReadsAll row start ((fieldBindings fields).map ColumnBinding.assignment)) :
    FillsBoundFields meaning row fields start
      (.ok (((fieldBindings fields).map ColumnBinding.assignment).foldl (.assign row) start))
      (((fieldBindings fields).map ColumnBinding.assignment).map (·.column)) := by
  refine ⟨_, rfl, List.map_map, InstanceOf.length_foldl_assign _ _ _, fun k x hx => ?_⟩
  have hmem : x ∈ fields := List.mem_of_getElem? hx
  have hentry : (start[k]?).map (·.1) = some x.name := by
    have hfields := congrArg (fun l => (l[k]?).map Prod.fst) hstart
    simpa [InstanceOf.fields, hx, Function.comp_def] using hfields
  split
  case h_1 b hb =>
    have hbound : b ∈ fieldBindings fields := mem_fieldBindings.mpr ⟨x, hmem, hb⟩
    obtain ⟨hname, -⟩ := name_of_binding? hb
    obtain ⟨v, hv⟩ := read_of_readsAll hdistinct hstart (List.Subset.refl _) hall hbound
    refine ⟨v, hv, ?_⟩
    rw [hname] at hentry ⊢
    exact InstanceOf.getElem?_foldl_assign_of_mem (nodup_assignments hdistinct)
      (List.mem_map_of_mem hbound) hentry (target?_of_mem_fieldBindings hdistinct hstart hbound) hv
  case h_2 hnone =>
    refine InstanceOf.getElem?_foldl_assign_of_ne fun a ha => ?_
    obtain ⟨b, hb, rfl⟩ := List.mem_map.mp ha
    rw [hentry]
    exact fun heq => name_ne_of_binding?_eq_none hdistinct hmem hnone hb (Option.some.inj heq)

theorem runAssignments_fieldBindings (row : RowOf Carrier ε)
    (hdistinct : (fields.filterMap (·.name)).Nodup)
    (hstart : start.fields = fields.map fun x => (x.name, meaning x.type)) :
    ∃ outcome columns,
      runAssignments row ((fieldBindings fields).map ColumnBinding.assignment) start =
        (outcome, columns) ∧
      (StopsAtFailure meaning row (fieldBindings fields) outcome columns ∨
        FillsBoundFields meaning row fields start outcome columns) := by
  rcases readsAll_or_failure row (exists_target? hdistinct hstart) with hall | hfailure
  · exact ⟨_, _, runAssignments_of_readsAll hall, .inr
      (fillsBoundFields_of_readsAll hdistinct hstart hall)⟩
  · obtain ⟨before, a, after, t, e, hsplit, hbefore, ht, he⟩ := hfailure
    obtain ⟨bs, rest, hbindings, rfl, hrest⟩ := List.map_eq_append_iff.mp hsplit
    obtain ⟨b, cs, rfl, rfl, rfl⟩ := List.map_eq_cons_iff.mp hrest
    have hb : b ∈ fieldBindings fields := by simp [hbindings]
    have hsub : bs ⊆ fieldBindings fields := by simp [hbindings]
    have htype := target?_of_mem_fieldBindings hdistinct hstart hb
    obtain rfl : meaning b.type = t := Option.some.inj (htype.symm.trans ht)
    refine ⟨.error e, (bs ++ [b]).map (·.column), ?_, .inl ⟨bs, b, cs, e, hbindings,
      fun c hc => read_of_readsAll hdistinct hstart hsub hbefore hc, he, rfl, rfl⟩⟩
    rw [hsplit, runAssignments_of_failure hbefore ht he]
    simp [ColumnBinding.assignment]

/-- The factory of a struct reads the columns of the bound fields in the order of the fields, each
once, up to the first that cannot be read, whose error it returns. If all can be read, every bound
field holds what its own column is converted to and every other field what it held at first. Rows
that agree on the bound columns give the same. The tokens of the factory, carried out one statement
after another, do just that and nothing else. -/
theorem factory_runs_until_failure (row : RowOf Carrier ε) {m : ModulePath} {s : StructItem}
    {impls : List ImplItem} {runtime : Path} {f : Factory}
    (hf : Factory.ofType? (.ofStruct m s impls) (AnnotatedType.ofStruct m s impls).bindings
      runtime = .ok f)
    (hdistinct : (s.fields.toList.filterMap (·.name)).Nodup)
    (hstart : start.fields = s.fields.toList.map fun x => (x.name, meaning x.type)) :
    ∃ outcome columns,
      (StopsAtFailure meaning row (fieldBindings s.fields.toList) outcome columns ∨
        FillsBoundFields meaning row s.fields.toList start outcome columns) ∧
      ∀ row' : RowOf Carrier ε,
        (∀ b ∈ fieldBindings s.fields.toList, b.read meaning row' = b.read meaning row) →
        f.runFrom start row' = (outcome, columns) ∧
          ∀ outcome' columns', f.Executes start row' outcome' columns' ↔
            outcome' = outcome ∧ columns' = columns := by
  have hassignments := assignments_of_ofType? hf
  obtain ⟨outcome, columns, hrun, hend⟩ := runAssignments_fieldBindings row hdistinct hstart
  refine ⟨outcome, columns, hend, fun row' hagree => ?_⟩
  have hsame : f.runFrom start row' = (outcome, columns) := by
    unfold Factory.runFrom
    rw [hassignments, ← hrun]
    refine runAssignments_congr fun a ha t ht => ?_
    obtain ⟨b, hb, rfl⟩ := List.mem_map.mp ha
    have htype := target?_of_mem_fieldBindings hdistinct hstart hb
    obtain rfl : meaning b.type = t := Option.some.inj (htype.symm.trans ht)
    exact hagree b hb
  have hfields : ∀ a ∈ f.assignments, ∃ t, start.target? a.field = some t := by
    rw [hassignments]
    exact exists_target? hdistinct hstart
  refine ⟨hsame, fun outcome' columns' => ?_⟩
  rw [Factory.executes_iff hfields, hsame, Prod.mk.injEq, eq_comm, eq_comm (b := columns')]

end

/-- `struct Customer { pub id: i64, cache: String, pub rank: u8 }`. -/
def customerStruct : StructItem :=
  { attrs := []
    visibility := .inherited
    name := .plain "Customer"
    generics := .none
    fields := .named
      [⟨[], .anyone, some (.plain "id"), plainTy "i64"⟩,
        ⟨[], .inherited, some (.plain "cache"), plainTy "String"⟩,
        ⟨[], .anyone, some (.plain "rank"), plainTy "u8"⟩] }

/-- A row without the column of the last field. -/
theorem factory_runs_until_failure_customer :
    let t := AnnotatedType.ofStruct ⟨["crate"]⟩ customerStruct []
    let f : Factory :=
      ⟨⟨false, [.plain (.plain "crate"), .plain (.plain "Customer")]⟩, .none, defaultRuntime,
        [⟨.plain "id", "id"⟩, ⟨.plain "rank", "rank"⟩]⟩
    let meaning := fun ty => (Target.ofTy? ty).getD .value
    let start : Instance := .initial Target.default
      [(some (.plain "id"), .integer .i64), (some (.plain "cache"), .text),
        (some (.plain "rank"), .integer .u8)]
    let row := (Record.ofList [("id", .int 7)]).row
    Factory.ofType? t t.bindings defaultRuntime = .ok f ∧
      (customerStruct.fields.toList.filterMap (·.name)).Nodup ∧
      start.fields = customerStruct.fields.toList.map (fun x => (x.name, meaning x.type)) ∧
      ∃ outcome columns, f.runFrom start row = (outcome, columns) ∧
        (StopsAtFailure meaning row (fieldBindings customerStruct.fields.toList) outcome columns ∨
          FillsBoundFields meaning row customerStruct.fields.toList start outcome columns) := by
  intro t f meaning start row
  have hf : Factory.ofType? t t.bindings defaultRuntime = .ok f := by rfl
  have hdistinct : (customerStruct.fields.toList.filterMap (·.name)).Nodup := by decide
  have hstart : start.fields =
      customerStruct.fields.toList.map (fun x => (x.name, meaning x.type)) := by decide
  obtain ⟨outcome, columns, hend, hrun⟩ :=
    factory_runs_until_failure row hf hdistinct hstart
  exact ⟨hf, hdistinct, hstart, outcome, columns, (hrun row fun _ _ => rfl).1, hend⟩

end RowFactory
