import Std.Data.HashMap.Lemmas
import Std.Data.TreeMap.Lemmas
import RowFactory.Proofs.Factory.Execution

namespace RowFactory

/-- The value that the list gives last for the column. -/
def lastValue? : List (String × Value) → String → Option Value
  | [], _ => none
  | (c, v) :: rest, column => (lastValue? rest column).or (if c = column then some v else none)

/-- The list gives the column this value, and gives it no other later. -/
def GivesLast (columns : List (String × Value)) (column : String) (v : Value) : Prop :=
  ∃ before after, columns = before ++ (column, v) :: after ∧ column ∉ after.map (·.1)

section

variable {columns : List (String × Value)} {column : String} {v : Value}

theorem lastValue?_eq_none_iff : lastValue? columns column = none ↔ column ∉ columns.map (·.1) := by
  induction columns with
  | nil => simp [lastValue?]
  | cons first rest ih =>
    rw [lastValue?, Option.or_eq_none_iff, ih, List.map_cons, List.mem_cons, not_or, and_comm]
    simp [eq_comm]

theorem lastValue?_eq_some_iff :
    lastValue? columns column = some v ↔ GivesLast columns column v := by
  induction columns with
  | nil => simp [lastValue?, GivesLast]
  | cons first rest ih =>
    obtain ⟨c, w⟩ := first
    rw [lastValue?, Option.or_eq_some_iff, ih, lastValue?_eq_none_iff]
    constructor
    · rintro (⟨before, after, rfl, hafter⟩ | ⟨hrest, hfirst⟩)
      · exact ⟨(c, w) :: before, after, rfl, hafter⟩
      · split at hfirst
        case isTrue hc =>
          cases hfirst
          exact ⟨[], rest, by rw [hc, List.nil_append], hrest⟩
        case isFalse => cases hfirst
    · rintro ⟨before, after, heq, hafter⟩
      cases before with
      | nil =>
        cases heq
        exact .inr ⟨hafter, if_pos rfl⟩
      | cons first before =>
        cases heq
        exact .inl ⟨before, after, rfl, hafter⟩

end

/-- Inserting the columns one after another into a container leaves the value given last for each,
as long as one insertion changes just the one column. -/
theorem lookup_foldl_insert {M : Type} {insert : M → String → Value → M}
    (lookup : M → String → Option Value)
    (hinsert : ∀ m c v column,
      lookup (insert m c v) column = if c = column then some v else lookup m column)
    (columns : List (String × Value)) (m : M) (column : String) :
    lookup (columns.foldl (fun m (c, v) => insert m c v) m) column =
      (lastValue? columns column).or (lookup m column) := by
  induction columns generalizing m with
  | nil => rfl
  | cons first rest ih =>
    rw [List.foldl_cons, ih, lastValue?, hinsert]
    cases lastValue? rest column with
    | some v => rfl
    | none => split <;> rfl

theorem lookup_cons_eq_if (c : String) (v : Value) (rest : List (String × Value))
    (column : String) :
    ((c, v) :: rest).lookup column = if c = column then some v else rest.lookup column := by
  by_cases h : c = column
  · simp [h]
  · have hbeq : (column == c) = false := beq_eq_false_iff_ne.mpr (Ne.symm h)
    simp [List.lookup_cons, h, hbeq]

theorem Record.lookup_replace (c : String) (v : Value) (columns : List (String × Value))
    (column : String) :
    (Record.replace c v columns).lookup column =
      if c = column then some v else columns.lookup column := by
  induction columns with
  | nil => exact lookup_cons_eq_if c v [] column
  | cons first rest ih =>
    obtain ⟨c', old⟩ := first
    rw [Record.replace, lookup_cons_eq_if]
    split
    case isTrue heq =>
      subst heq
      rw [lookup_cons_eq_if]
      split <;> rfl
    case isFalse hne =>
      rw [lookup_cons_eq_if, ih]
      by_cases hcolumn : c' = column
      · subst hcolumn
        rw [if_pos rfl, if_neg (Ne.symm hne), if_pos rfl]
      · rw [if_neg hcolumn, if_neg hcolumn]

theorem Record.value?_set (r : Record) (c : String) (v : Value) (column : String) :
    (r.set c v).value? column = if c = column then some v else r.value? column :=
  lookup_replace c v r.columns column

theorem Record.value?_ofList (columns : List (String × Value)) (column : String) :
    (Record.ofList columns).value? column = lastValue? columns column := by
  rw [Record.ofList, lookup_foldl_insert Record.value? Record.value?_set]
  exact Option.or_none

variable {τ : Type} {Carrier : τ → Type}

theorem RowKind.rowOf_eq (kind : RowKind) (convert : ConversionOf Carrier)
    (columns : List (String × Value)) :
    kind.rowOf convert columns = .ofLookup convert (lastValue? columns) := by
  have hrecord :
      (Record.ofList columns).rowOf convert = .ofLookup convert (lastValue? columns) := by
    rw [Record.rowOf, funext (Record.value?_ofList columns)]
  cases kind with
  | record => exact hrecord
  | recordReference => exact hrecord
  | hashMap =>
    have hlookup (column : String) :
        (columns.foldl (fun m (c, v) => m.insert c v) (∅ : Std.HashMap String Value))[column]? =
          lastValue? columns column := by
      rw [lookup_foldl_insert (fun m column => m[column]?)
        (fun m c v column => by simp [Std.HashMap.getElem?_insert])]
      simp
    exact congrArg (RowOf.ofLookup convert) (funext hlookup)
  | treeMap =>
    have hlookup (column : String) :
        (columns.foldl (fun m (c, v) => m.insert c v) (∅ : Std.TreeMap String Value))[column]? =
          lastValue? columns column := by
      rw [lookup_foldl_insert (fun m column => m[column]?)
        (fun m c v column => by simp [Std.TreeMap.getElem?_insert])]
      simp
    exact congrArg (RowOf.ofLookup convert) (funext hlookup)

/-- What a lookup answers: the conversion of the column's value or its error, or that there is no
such column. -/
theorem RowOf.get_ofLookup_eq_ok_iff {convert : ConversionOf Carrier}
    {lookup : String → Option Value} {t : τ} {column : String} {x : Carrier t} :
    (RowOf.ofLookup convert lookup).get t column = .ok x ↔
      ∃ v, lookup column = some v ∧ convert t v = .ok x := by
  cases h : lookup column with
  | none => simp [RowOf.ofLookup, h]
  | some v => cases hv : convert t v <;> simp [RowOf.ofLookup, h, hv, Except.mapError]

theorem RowOf.get_ofLookup_eq_error_iff {convert : ConversionOf Carrier}
    {lookup : String → Option Value} {t : τ} {column : String} {e : RowError} :
    (RowOf.ofLookup convert lookup).get t column = .error e ↔
      (lookup column = none ∧ e = .missingColumn column) ∨
        ∃ v source, lookup column = some v ∧ convert t v = .error source ∧
          e = .conversion column source := by
  cases h : lookup column with
  | none => simp [RowOf.ofLookup, h, eq_comm]
  | some v => cases hv : convert t v <;> simp [RowOf.ofLookup, h, hv, Except.mapError, eq_comm]

/-- A list of columns that is collected in a record, in a hash map or in an ordered map gives one
and the same row, and so does a reference to the record: all answer alike for any type of column,
however its values are converted, and every factory does the same with all of them. A column is read
as the value that the list gives it last is converted; the only errors are that the list does not
have the column, and the one of that conversion, and both name the column. -/
theorem rows_of_one_list_agree (convert : ConversionOf Carrier) (columns : List (String × Value)) :
    (∀ (kind : RowKind) (t : τ) (column : String),
      (∀ x, (kind.rowOf convert columns).get t column = .ok x ↔
        ∃ v, GivesLast columns column v ∧ convert t v = .ok x) ∧
      (∀ e, (kind.rowOf convert columns).get t column = .error e ↔
        (column ∉ columns.map (·.1) ∧ e = .missingColumn column) ∨
          ∃ v source, GivesLast columns column v ∧ convert t v = .error source ∧
            e = .conversion column source) ∧
      ∀ e, (kind.rowOf convert columns).get t column = .error e → e.column = column) ∧
    ∀ kind kind' : RowKind,
      (∀ t column, (kind.rowOf convert columns).get t column =
        (kind'.rowOf convert columns).get t column) ∧
      ∀ (f : Factory) (start : InstanceOf Carrier),
        f.runFrom start (kind.rowOf convert columns) =
          f.runFrom start (kind'.rowOf convert columns) ∧
        ∀ outcome reads, f.Executes start (kind.rowOf convert columns) outcome reads ↔
          f.Executes start (kind'.rowOf convert columns) outcome reads := by
  constructor
  · intro kind t column
    have herror (e : RowError) : (kind.rowOf convert columns).get t column = .error e ↔
        (column ∉ columns.map (·.1) ∧ e = .missingColumn column) ∨
          ∃ v source, GivesLast columns column v ∧ convert t v = .error source ∧
            e = .conversion column source := by
      rw [kind.rowOf_eq, RowOf.get_ofLookup_eq_error_iff]
      simp only [lastValue?_eq_none_iff, lastValue?_eq_some_iff]
    refine ⟨fun x => ?_, herror, fun e he => ?_⟩
    · rw [kind.rowOf_eq, RowOf.get_ofLookup_eq_ok_iff]
      simp only [lastValue?_eq_some_iff]
    · rcases (herror e).mp he with ⟨-, rfl⟩ | ⟨v, source, -, -, rfl⟩ <;> rfl
  · intro kind kind'
    have hsame : kind.rowOf convert columns = kind'.rowOf convert columns :=
      (kind.rowOf_eq convert columns).trans (kind'.rowOf_eq convert columns).symm
    rw [hsame]
    exact ⟨fun _ _ => rfl, fun _ _ => ⟨rfl, fun _ _ => .rfl⟩⟩

end RowFactory
