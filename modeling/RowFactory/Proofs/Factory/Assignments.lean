import RowFactory.Factory.Run

namespace RowFactory

variable {τ : Type} {Carrier : τ → Type} {ε : Type}

namespace InstanceOf

/-- The fields with their types, without what they hold. -/
def fields (i : InstanceOf Carrier) : List (Option Ident × τ) :=
  i.map fun (name, v) => (name, v.target)

theorem target?_eq_fields (i : InstanceOf Carrier) (field : Ident) :
    i.target? field = (i.fields.find? (·.1 = some field)).map (·.2) := by
  simp [target?, fields, List.find?_map, Function.comp_def]

theorem getElem?_set (i : InstanceOf Carrier) (field : Ident) (v : TypedOf Carrier) (k : Nat) :
    (i.set field v)[k]? =
      (i[k]?).map fun (name, old) => (name, if name = some field then v else old) :=
  List.getElem?_map

/-- A value of a field's own type changes no field's type. -/
theorem target?_set {i : InstanceOf Carrier} {field : Ident} {v : TypedOf Carrier}
    (h : i.target? field = some v.target) (other : Ident) :
    (i.set field v).target? other = i.target? other := by
  simp only [target?, set, List.find?_map, Function.comp_def, Option.map_map] at h ⊢
  cases hfind : i.find? (·.1 = some other) with
  | none => rfl
  | some found =>
    have hname : found.1 = some other := by simpa using List.find?_some hfind
    by_cases heq : other = field
    · subst heq
      rw [hfind] at h
      simpa [hname] using h.symm
    · simp [hname, heq]

/-- One assignment carried out, if its column can be read. -/
def assign (row : RowOf Carrier ε) (i : InstanceOf Carrier) (a : Assignment) :
    InstanceOf Carrier :=
  match i.target? a.field with
  | none => i
  | some t =>
    match row.get t a.column with
    | .ok v => i.set a.field ⟨t, v⟩
    | .error _ => i

theorem assign_of_get {row : RowOf Carrier ε} {i : InstanceOf Carrier} {a : Assignment} {t : τ}
    {v : Carrier t} (ht : i.target? a.field = some t) (hv : row.get t a.column = .ok v) :
    i.assign row a = i.set a.field ⟨t, v⟩ := by
  simp [assign, ht, hv]

theorem target?_assign (row : RowOf Carrier ε) (i : InstanceOf Carrier) (a : Assignment)
    (other : Ident) : (i.assign row a).target? other = i.target? other := by
  unfold assign
  split
  · rfl
  · rename_i t ht
    split
    · exact target?_set ht other
    · rfl

theorem target?_foldl_assign (row : RowOf Carrier ε) (assignments : List Assignment)
    (i : InstanceOf Carrier) (other : Ident) :
    (assignments.foldl (assign row) i).target? other = i.target? other := by
  induction assignments generalizing i with
  | nil => rfl
  | cons a rest ih => exact (ih (i.assign row a)).trans (target?_assign row i a other)

theorem length_assign (row : RowOf Carrier ε) (i : InstanceOf Carrier) (a : Assignment) :
    (i.assign row a).length = i.length := by
  unfold assign
  split
  · rfl
  · split
    · exact List.length_map _
    · rfl

theorem length_foldl_assign (row : RowOf Carrier ε) (assignments : List Assignment)
    (i : InstanceOf Carrier) : (assignments.foldl (assign row) i).length = i.length := by
  induction assignments generalizing i with
  | nil => rfl
  | cons a rest ih => exact (ih (i.assign row a)).trans (length_assign row i a)

theorem getElem?_assign_of_ne (row : RowOf Carrier ε) {i : InstanceOf Carrier} {a : Assignment}
    {k : Nat} (h : (i[k]?).map (·.1) ≠ some (some a.field)) : (i.assign row a)[k]? = i[k]? := by
  unfold assign
  split
  · rfl
  · split
    · rw [getElem?_set]
      cases hk : i[k]? with
      | none => rfl
      | some entry =>
        have hname : entry.1 ≠ some a.field := by simpa [hk] using h
        simp [hname]
    · rfl

theorem getElem?_foldl_assign_of_ne {row : RowOf Carrier ε} {assignments : List Assignment}
    {i : InstanceOf Carrier} {k : Nat}
    (h : ∀ a ∈ assignments, (i[k]?).map (·.1) ≠ some (some a.field)) :
    (assignments.foldl (assign row) i)[k]? = i[k]? := by
  induction assignments generalizing i with
  | nil => rfl
  | cons a rest ih =>
    have hkeep := getElem?_assign_of_ne row (h a (by simp))
    rw [List.foldl_cons, ih fun b hb => by rw [hkeep]; exact h b (by simp [hb]), hkeep]

/-- A field that one of the assignments names holds the value of that assignment's column. -/
theorem getElem?_foldl_assign_of_mem {row : RowOf Carrier ε} {assignments : List Assignment}
    {i : InstanceOf Carrier} {k : Nat} {a : Assignment} {t : τ} {v : Carrier t}
    (hdistinct : (assignments.map (·.field)).Nodup) (ha : a ∈ assignments)
    (hk : (i[k]?).map (·.1) = some (some a.field)) (ht : i.target? a.field = some t)
    (hv : row.get t a.column = .ok v) :
    (assignments.foldl (assign row) i)[k]? = some (some a.field, ⟨t, v⟩) := by
  induction assignments generalizing i with
  | nil => simp at ha
  | cons b rest ih =>
    obtain ⟨hb, hrest⟩ := List.nodup_cons.mp hdistinct
    rw [List.foldl_cons]
    rcases List.mem_cons.mp ha with rfl | ha
    · obtain ⟨⟨name, old⟩, hentry, rfl⟩ := Option.map_eq_some_iff.mp hk
      have hset : (i.assign row a)[k]? = some (some a.field, ⟨t, v⟩) := by
        simp [assign_of_get ht hv, getElem?_set, hentry]
      rw [getElem?_foldl_assign_of_ne, hset]
      intro c hc heq
      have hsame : a.field = c.field := by simpa [hset] using heq
      exact hb (List.mem_map.mpr ⟨c, hc, hsame.symm⟩)
    · have hne : (i[k]?).map (·.1) ≠ some (some b.field) := by
        intro heq
        have hsame : a.field = b.field := by simpa using hk.symm.trans heq
        exact hb (List.mem_map.mpr ⟨a, ha, hsame⟩)
      have hkeep := getElem?_assign_of_ne row hne
      exact ih hrest ha (by rw [hkeep]; exact hk) ((target?_assign row i b a.field).trans ht)

end InstanceOf

open InstanceOf

/-- The row can read the column of every assignment as the type of its field. -/
def ReadsAll (row : RowOf Carrier ε) (i : InstanceOf Carrier) (assignments : List Assignment) :
    Prop :=
  ∀ a ∈ assignments, ∃ t v, i.target? a.field = some t ∧ row.get t a.column = .ok v

theorem ReadsAll.assign {row : RowOf Carrier ε} {i : InstanceOf Carrier}
    {assignments : List Assignment} (h : ReadsAll row i assignments) (a : Assignment) :
    ReadsAll row (i.assign row a) assignments := by
  intro b hb
  obtain ⟨t, v, ht, hv⟩ := h b hb
  exact ⟨t, v, (target?_assign row i a b.field).trans ht, hv⟩

/-- Assignments whose columns can be read are all carried out, and the others follow. -/
theorem runAssignments_append {row : RowOf Carrier ε} {before : List Assignment}
    {i : InstanceOf Carrier} (h : ReadsAll row i before) (after : List Assignment) :
    runAssignments row (before ++ after) i =
      ((runAssignments row after (before.foldl (InstanceOf.assign row) i)).1,
        before.map (·.column) ++
          (runAssignments row after (before.foldl (InstanceOf.assign row) i)).2) := by
  induction before generalizing i with
  | nil => rfl
  | cons a rest ih =>
    obtain ⟨t, v, ht, hv⟩ := h a (by simp)
    have hrest : ReadsAll row i rest := fun b hb => h b (by simp [hb])
    have hnext := ih (hrest.assign a)
    rw [assign_of_get ht hv] at hnext
    simp [runAssignments, ht, hv, hnext, assign_of_get ht hv]

theorem runAssignments_of_readsAll {row : RowOf Carrier ε} {assignments : List Assignment}
    {i : InstanceOf Carrier} (h : ReadsAll row i assignments) :
    runAssignments row assignments i =
      (.ok (assignments.foldl (InstanceOf.assign row) i), assignments.map (·.column)) := by
  simpa [runAssignments] using runAssignments_append h []

/-- The first column that cannot be read is the last one looked at, and its error is the
outcome. -/
theorem runAssignments_of_failure {row : RowOf Carrier ε} {before after : List Assignment}
    {a : Assignment} {i : InstanceOf Carrier} {t : τ} {e : ε} (h : ReadsAll row i before)
    (ht : i.target? a.field = some t) (he : row.get t a.column = .error e) :
    runAssignments row (before ++ a :: after) i =
      (.error e, (before ++ [a]).map (·.column)) := by
  rw [runAssignments_append h]
  simp [runAssignments, target?_foldl_assign, ht, he]

theorem readsAll_or_failure (row : RowOf Carrier ε) {assignments : List Assignment}
    {i : InstanceOf Carrier} (h : ∀ a ∈ assignments, ∃ t, i.target? a.field = some t) :
    ReadsAll row i assignments ∨
      ∃ before a after t e, assignments = before ++ a :: after ∧ ReadsAll row i before ∧
        i.target? a.field = some t ∧ row.get t a.column = .error e := by
  induction assignments with
  | nil => exact .inl (by simp [ReadsAll])
  | cons a rest ih =>
    obtain ⟨t, ht⟩ := h a (by simp)
    cases hget : row.get t a.column with
    | error e => exact .inr ⟨[], a, rest, t, e, rfl, by simp [ReadsAll], ht, hget⟩
    | ok v =>
      have hfirst : ∀ {others}, ReadsAll row i others → ReadsAll row i (a :: others) := by
        intro others hothers b hb
        rcases List.mem_cons.mp hb with rfl | hb
        · exact ⟨t, v, ht, hget⟩
        · exact hothers b hb
      rcases ih fun b hb => h b (by simp [hb]) with hall | ⟨before, b, after, u, e, rfl, hr, hu, he⟩
      · exact .inl (hfirst hall)
      · exact .inr ⟨a :: before, b, after, u, e, rfl, hfirst hr, hu, he⟩

theorem runAssignments_congr {row row' : RowOf Carrier ε} {assignments : List Assignment}
    {i : InstanceOf Carrier}
    (h : ∀ a ∈ assignments, ∀ t, i.target? a.field = some t →
      row'.get t a.column = row.get t a.column) :
    runAssignments row' assignments i = runAssignments row assignments i := by
  induction assignments generalizing i with
  | nil => rfl
  | cons a rest ih =>
    have hrest : ∀ b ∈ rest, ∀ t, i.target? b.field = some t →
        row'.get t b.column = row.get t b.column := fun b hb => h b (by simp [hb])
    cases ht : i.target? a.field with
    | none => simpa [runAssignments, ht] using ih hrest
    | some t =>
      have hsame := h a (by simp) t ht
      cases hget : row.get t a.column with
      | error e => simp [runAssignments, ht, hsame, hget]
      | ok v =>
        have hnext := ih (i := i.set a.field ⟨t, v⟩) fun b hb u hu =>
          hrest b hb u ((target?_set ht b.field).symm.trans hu)
        simp [runAssignments, ht, hsame, hget, hnext]

end RowFactory
