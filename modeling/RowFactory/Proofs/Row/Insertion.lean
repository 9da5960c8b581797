import Mathlib.Data.Finset.Card
import RowFactory.Proofs.Row.Lookup

namespace RowFactory

/-- A step on a record: a column is set, on the record itself or on the way to another one, or the
record is collected anew from a list. -/
inductive RecordStep where
  | insert (column : String) (v : Value)
  | set (column : String) (v : Value)
  | collect (columns : List (String × Value))

namespace RecordStep

def apply (r : Record) : RecordStep → Record
  | .insert c v => (r.insert c v).1
  | .set c v => r.set c v
  | .collect columns => .ofList columns

/-- What the record was given once the step is taken, after what it was given before. -/
def extend (given : List (String × Value)) : RecordStep → List (String × Value)
  | .insert c v => given ++ [(c, v)]
  | .set c v => given ++ [(c, v)]
  | .collect columns => columns

end RecordStep

/-- The record that the steps lead to, beginning with the empty one. -/
def Record.after (steps : List RecordStep) : Record := steps.foldl RecordStep.apply .empty

/-- The columns that the steps give, from the last on that collects the record anew. -/
def columnsGiven (steps : List RecordStep) : List (String × Value) :=
  steps.foldl RecordStep.extend []

/-- The place of a name among the columns given: that of the first that has it. -/
def firstGiven (given : List (String × Value)) (column : String) : Nat :=
  (given.map (·.1)).idxOf column

namespace Record

theorem names_replace (c : String) (v : Value) (columns : List (String × Value)) :
    (replace c v columns).map (·.1) =
      if c ∈ columns.map (·.1) then columns.map (·.1) else columns.map (·.1) ++ [c] := by
  induction columns with
  | nil => rfl
  | cons first rest ih =>
    obtain ⟨c', old⟩ := first
    by_cases hc : c' = c
    · simp [replace, hc]
    · have hother : c ≠ c' := Ne.symm hc
      rw [replace, if_neg hc, List.map_cons, ih]
      by_cases hrest : c ∈ rest.map (·.1)
      · simp [hrest]
      · simp [hrest, hother]

/-- No other column is touched, nor does it move. -/
theorem getElem?_replace {c c' : String} (h : c' ≠ c) (v w : Value)
    (columns : List (String × Value)) (i : Nat) :
    (replace c v columns)[i]? = some (c', w) ↔ columns[i]? = some (c', w) := by
  induction columns generalizing i with
  | nil => cases i <;> simp [replace, Ne.symm h]
  | cons first rest ih =>
    obtain ⟨d, old⟩ := first
    rw [replace]
    split
    case isTrue hd =>
      subst hd
      cases i with
      | zero => simp [Ne.symm h]
      | succ i => rfl
    case isFalse =>
      cases i with
      | zero => rfl
      | succ i => exact ih i

theorem names_set (r : Record) (c : String) (v : Value) :
    (r.set c v).names = if c ∈ r.names then r.names else r.names ++ [c] :=
  names_replace c v r.columns

theorem ofList_append_singleton (given : List (String × Value)) (c : String) (v : Value) :
    ofList (given ++ [(c, v)]) = (ofList given).set c v := by
  rw [ofList, List.foldl_append]
  rfl

/-- Setting columns one by one and collecting them at once lead to one record. -/
theorem after_eq_ofList (steps : List RecordStep) : after steps = ofList (columnsGiven steps) := by
  induction steps using List.reverseRecOn with
  | nil => rfl
  | append_singleton steps step ih =>
    have hafter : after (steps ++ [step]) = step.apply (after steps) := by simp [after]
    have hgiven : columnsGiven (steps ++ [step]) = step.extend (columnsGiven steps) := by
      simp [columnsGiven]
    rw [hafter, hgiven, ih]
    cases step with
    | insert c v => exact (ofList_append_singleton _ c v).symm
    | set c v => exact (ofList_append_singleton _ c v).symm
    | collect columns => rfl

theorem columnsGiven_inserts (columns : List (String × Value)) :
    columnsGiven (columns.map fun (c, v) => .insert c v) = columns := by
  induction columns using List.reverseRecOn with
  | nil => rfl
  | append_singleton columns column ih =>
    rw [columnsGiven, List.map_append, List.foldl_append, ← columnsGiven, ih]
    rfl

theorem mem_names_ofList {given : List (String × Value)} {c : String} :
    c ∈ (ofList given).names ↔ c ∈ given.map (·.1) := by
  induction given using List.reverseRecOn with
  | nil => rfl
  | append_singleton given column ih =>
    obtain ⟨d, v⟩ := column
    rw [ofList_append_singleton, names_set, List.map_append, List.mem_append, ← ih]
    split
    case isTrue hd =>
      refine ⟨.inl, fun h => h.elim id fun hc => ?_⟩
      obtain rfl : c = d := by simpa using hc
      exact hd
    case isFalse => simp

/-- Names stand in the order in which they were first given. -/
theorem firstGiven_lt_of_names (given : List (String × Value)) :
    (ofList given).names.Pairwise fun a b => firstGiven given a < firstGiven given b := by
  induction given using List.reverseRecOn with
  | nil => exact .nil
  | append_singleton given column ih =>
    obtain ⟨d, v⟩ := column
    have hkept : ∀ c ∈ (ofList given).names,
        firstGiven (given ++ [(d, v)]) c = firstGiven given c := by
      intro c hc
      rw [firstGiven, List.map_append, List.idxOf_append_of_mem (mem_names_ofList.mp hc)]
      rfl
    have hold : (ofList given).names.Pairwise fun a b =>
        firstGiven (given ++ [(d, v)]) a < firstGiven (given ++ [(d, v)]) b :=
      ih.imp_of_mem fun ha hb hlt => by rwa [hkept _ ha, hkept _ hb]
    rw [ofList_append_singleton, names_set]
    split
    case isTrue => exact hold
    case isFalse hd =>
      refine List.pairwise_append.mpr ⟨hold, List.pairwise_singleton _ _, fun a ha b hb => ?_⟩
      obtain rfl : b = d := by simpa using hb
      have hlast : firstGiven (given ++ [(b, v)]) b = given.length := by
        rw [firstGiven, List.map_append, List.idxOf_append_of_notMem (mt mem_names_ofList.mpr hd)]
        simp
      have hfirst : firstGiven given a < given.length := by
        have hlt := List.idxOf_lt_length_of_mem (mem_names_ofList.mp ha)
        simpa [firstGiven] using hlt
      rw [hkept a ha, hlast]
      exact hfirst

theorem nodup_names_ofList (given : List (String × Value)) : (ofList given).names.Nodup :=
  (firstGiven_lt_of_names given).imp fun hlt heq => by simp [heq] at hlt

theorem size_ofList (given : List (String × Value)) :
    (ofList given).size = (given.map (·.1)).toFinset.card := by
  have hsame : (given.map (·.1)).toFinset = (ofList given).names.toFinset := by
    ext c
    rw [List.mem_toFinset, List.mem_toFinset, mem_names_ofList]
  rw [hsame, List.toFinset_card_of_nodup (nodup_names_ofList given), names, List.length_map]
  rfl

end Record

/-- After any steps, a record that was empty at first is the map of the columns that it was given
since it was last collected anew: their names are pairwise distinct and stand in the order in which
they were first given; a column has the value given last, or none if it was not given; there are as
many columns as distinct names. To insert a column answers the value that it had before, and leaves
the values and places of all others. To collect a list is to insert its columns one by one. -/
theorem record_maps_columns_given (steps : List RecordStep) :
    let r := Record.after steps
    let given := columnsGiven steps
    r.names.Nodup ∧
    (∀ c, c ∈ r.names ↔ c ∈ given.map (·.1)) ∧
    (r.names.Pairwise fun a b => firstGiven given a < firstGiven given b) ∧
    (∀ c v, r.value? c = some v ↔ GivesLast given c v) ∧
    (∀ c, r.value? c = none ↔ c ∉ given.map (·.1)) ∧
    r.size = (given.map (·.1)).toFinset.card ∧
    (∀ c v old, (r.insert c v).2 = some old ↔ GivesLast given c old) ∧
    (∀ c v, (r.insert c v).2 = none ↔ c ∉ given.map (·.1)) ∧
    (∀ (c : String) (v : Value) (c' : String) (w : Value) (i : Nat), c' ≠ c →
      ((r.insert c v).1.columns[i]? = some (c', w) ↔ r.columns[i]? = some (c', w))) ∧
    ∀ columns, Record.after (steps ++ [.collect columns]) =
      Record.after (columns.map fun (c, v) => .insert c v) := by
  intro r given
  have hr : r = Record.ofList given := Record.after_eq_ofList steps
  have hvalue : ∀ c, r.value? c = lastValue? given c := by
    intro c
    rw [hr, Record.value?_ofList]
  have hsome : ∀ c v, r.value? c = some v ↔ GivesLast given c v := by
    intro c v
    rw [hvalue, lastValue?_eq_some_iff]
  have hnone : ∀ c, r.value? c = none ↔ c ∉ given.map (·.1) := by
    intro c
    rw [hvalue, lastValue?_eq_none_iff]
  refine ⟨hr ▸ Record.nodup_names_ofList given, fun c => hr ▸ Record.mem_names_ofList,
    hr ▸ Record.firstGiven_lt_of_names given, hsome, hnone, hr ▸ Record.size_ofList given,
    fun c _ old => hsome c old, fun c _ => hnone c,
    fun c v c' w i hc => Record.getElem?_replace hc v w r.columns i, fun columns => ?_⟩
  rw [Record.after_eq_ofList, Record.after_eq_ofList, Record.columnsGiven_inserts]
  simp [columnsGiven, RecordStep.extend]

end RowFactory
