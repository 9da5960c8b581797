import Mathlib.Algebra.Order.Ring.Int
import Std.Data.String.ToInt
import RowFactory.Row.Conversion

namespace RowFactory

/-- The text of a whole number is the one from which it is read back. -/
theorem ofList_intText (n : Int) : String.ofList (intText n) = n.repr := by
  cases n with
  | ofNat n =>
    rw [intText, if_neg (by simp)]
    exact Nat.repr_eq_ofList_toDigits.symm
  | negSucc n =>
    rw [intText, if_pos (Int.negSucc_lt_zero n), Int.repr, Nat.repr_eq_ofList_toDigits]
    change String.ofList (['-'] ++ natDigits (n + 1)) = _
    exact String.ofList_append

namespace IntegerType

/-- The numbers that the bits of the type stand for, in two's complement where it is signed. -/
def InRange (t : IntegerType) (n : Int) : Prop :=
  if t.isSigned then -2 ^ (t.bits - 1) ≤ n ∧ n < 2 ^ (t.bits - 1) else 0 ≤ n ∧ n < 2 ^ t.bits

theorem contains_iff {t : IntegerType} {n : Int} : t.contains n ↔ t.InRange n := by
  cases t <;> simp [contains, least, greatest, InRange, isSigned, bits] <;> omega

/-- The types whose numbers have a value of their own. -/
def isStored : IntegerType → Bool
  | .i128 | .isize | .u128 | .usize => false
  | _ => true

end IntegerType

section

variable {t : IntegerType} {v : Value}

theorem convertInteger_eq_ok_iff {x : { n : Int // t.contains n }} :
    convertInteger t v = .ok x ↔ v.integer? = some x.val := by
  unfold convertInteger
  cases hv : v.integer? with
  | none => simp
  | some n =>
    by_cases hn : t.contains n
    · simp [hn, Subtype.ext_iff]
    · have hne : n ≠ x.val := fun heq => hn (heq ▸ x.property)
      simp [hn, hne]

theorem convertInteger_eq_outOfRange_iff {text name : String} :
    convertInteger t v = .error (.outOfRange text name) ↔
      ∃ n, v.integer? = some n ∧ ¬ t.InRange n ∧ text = n.repr ∧ name = t.name := by
  unfold convertInteger
  cases hv : v.integer? with
  | none => simp [ValueError.mismatch]
  | some n =>
    by_cases hn : t.contains n
    · simp [hn, IntegerType.contains_iff.mp hn]
    · have hrange : ¬ t.InRange n := mt IntegerType.contains_iff.mpr hn
      simp [hn, hrange, ofList_intText, eq_comm]

theorem convertInteger_eq_typeMismatch_iff {expected found : String} :
    convertInteger t v = .error (.typeMismatch expected found) ↔
      v.integer? = none ∧ expected = t.name ∧ found = v.kind := by
  unfold convertInteger
  cases hv : v.integer? with
  | none => simp [ValueError.mismatch, eq_comm]
  | some n => by_cases hn : t.contains n <;> simp [hn]

end

/-- The types whose values are stored as they are. -/
def Target.isStored : Target → Bool
  | .bool | .text | .bytes => true
  | .integer t => t.isStored
  | _ => false

/-- A whole number is stored in 64 bits without loss. -/
theorem exists_integer?_ofTyped? {t : IntegerType} (ht : t.isStored)
    (x : { n : Int // t.contains n }) :
    ∃ v, Value.ofTyped? (.integer t) x = some v ∧ v.integer? = some x.val := by
  obtain ⟨n, hn⟩ := x
  have hrange := IntegerType.contains_iff.mp hn
  have signed (hlow : -2 ^ 63 ≤ n) (hhigh : n < 2 ^ 63) :
      (Value.int (Int64.ofInt n)).integer? = some n :=
    congrArg some (Int64.toInt_ofInt_of_le hlow hhigh)
  have unsigned (hlow : 0 ≤ n) (hhigh : n < 2 ^ 64) :
      (Value.uint (UInt64.ofNat n.toNat)).integer? = some n := by
    have hsize : n.toNat < UInt64.size := by
      rw [UInt64.size]
      omega
    rw [Value.integer?, UInt64.toNat_ofNat_of_lt' hsize, Int.toNat_of_nonneg hlow]
  cases t with
  | i8 | i16 | i32 | i64 =>
    simp only [IntegerType.InRange, IntegerType.isSigned, IntegerType.bits, ↓reduceIte] at hrange
    exact ⟨_, rfl, signed (by omega) (by omega)⟩
  | u8 | u16 | u32 | u64 =>
    simp only [IntegerType.InRange, IntegerType.isSigned, IntegerType.bits, Bool.false_eq_true,
      ↓reduceIte] at hrange
    exact ⟨_, rfl, unsigned (by omega) (by omega)⟩
  | i128 | isize | u128 | usize => simp [IntegerType.isStored] at ht

/-- What stands for a typed value is not the null value, and is converted back to it. -/
theorem exists_convert_ofTyped? {t : Target} (ht : t.isStored) (x : t.Carrier) :
    ∃ v, Value.ofTyped? t x = some v ∧ v.isNull = false ∧ convert t v = .ok x := by
  cases t with
  | bool | text | bytes => exact ⟨_, rfl, rfl, rfl⟩
  | integer t =>
    obtain ⟨v, hv, hx⟩ := exists_integer?_ofTyped? ht x
    refine ⟨v, hv, ?_, convertInteger_eq_ok_iff.mpr hx⟩
    cases v with
    | null => simp [Value.integer?] at hx
    | bool | int | uint | float | text | bytes => rfl
  | single | double | value | option => simp [Target.isStored] at ht

theorem convert_option {v : Value} (h : v.isNull = false) (t : Target) :
    convert (.option t) v = (convert t v).map some := by
  cases v with
  | null => simp [Value.isNull] at h
  | bool | int | uint | float | text | bytes => rfl

theorem exists_convert_option {t : Target} (ht : t.isStored) (x : Option t.Carrier) :
    ∃ v, Value.ofTyped? (.option t) x = some v ∧ convert (.option t) v = .ok x := by
  cases x with
  | none => exact ⟨.null, rfl, rfl⟩
  | some x =>
    obtain ⟨v, hv, hnull, hx⟩ := exists_convert_ofTyped? ht x
    refine ⟨v, hv, ?_⟩
    rw [convert_option hnull, hx]
    rfl

/-- A signed or unsigned number is converted to the very same number if the target has it in its
range. Otherwise the error names the target and holds the number in decimal, from which it is read
back; a value of another form is an error that names the target and the form. What stands for a
typed value, or for an optional one, is converted back to it. -/
theorem whole_numbers_convert_exactly :
    (∀ (t : IntegerType) (v : Value),
      (∀ n, (∃ x, convert (.integer t) v = .ok x ∧ x.val = n) ↔
        v.integer? = some n ∧ t.InRange n) ∧
      (∀ text name, convert (.integer t) v = .error (.outOfRange text name) ↔
        ∃ n, v.integer? = some n ∧ ¬ t.InRange n ∧ text = n.repr ∧ name = t.name) ∧
      (∀ text name, convert (.integer t) v = .error (.outOfRange text name) →
        text.toInt? = v.integer?) ∧
      ∀ expected found, convert (.integer t) v = .error (.typeMismatch expected found) ↔
        v.integer? = none ∧ expected = t.name ∧ found = v.kind) ∧
    ∀ t : Target, t.isStored →
      (∀ x : t.Carrier, ∃ v, Value.ofTyped? t x = some v ∧ convert t v = .ok x) ∧
      ∀ x : Option t.Carrier,
        ∃ v, Value.ofTyped? (.option t) x = some v ∧ convert (.option t) v = .ok x := by
  constructor
  · intro t v
    refine ⟨fun n => ⟨?_, ?_⟩, fun _ _ => convertInteger_eq_outOfRange_iff, fun text name he => ?_,
      fun _ _ => convertInteger_eq_typeMismatch_iff⟩
    · rintro ⟨x, hx, rfl⟩
      exact ⟨convertInteger_eq_ok_iff.mp hx, IntegerType.contains_iff.mp x.property⟩
    · rintro ⟨hv, hn⟩
      exact ⟨⟨n, IntegerType.contains_iff.mpr hn⟩, convertInteger_eq_ok_iff.mpr hv, rfl⟩
    · obtain ⟨n, hv, -, rfl, -⟩ := convertInteger_eq_outOfRange_iff.mp he
      rw [hv, Int.toInt?_repr]
  · intro t ht
    refine ⟨fun x => ?_, exists_convert_option ht⟩
    obtain ⟨v, hv, -, hx⟩ := exists_convert_ofTyped? ht x
    exact ⟨v, hv, hx⟩

/-- The least number of 64 bits comes back from an optional value, and is too small for 32 bits. -/
theorem whole_numbers_convert_exactly_least :
    Target.isStored (.integer .i64) ∧
      (∃ v, Value.ofTyped? (.option (.integer .i64)) (some ⟨-9223372036854775808, by decide⟩) =
          some v ∧
        convert (.option (.integer .i64)) v = .ok (some ⟨-9223372036854775808, by decide⟩)) ∧
      convert (.integer .i32) (.int (-9223372036854775808)) =
        .error (.outOfRange "-9223372036854775808" "i32") ∧
      "-9223372036854775808".toInt? = some (-9223372036854775808) := by
  have herror : convert (.integer .i32) (.int (-9223372036854775808)) =
      .error (.outOfRange "-9223372036854775808" "i32") :=
    ((whole_numbers_convert_exactly.1 _ _).2.1 _ _).mpr
      ⟨-9223372036854775808, rfl, by simp [IntegerType.InRange, IntegerType.isSigned,
        IntegerType.bits], by decide, rfl⟩
  exact ⟨rfl, (whole_numbers_convert_exactly.2 (.integer .i64) rfl).2 _, herror,
    (whole_numbers_convert_exactly.1 _ _).2.2.1 _ _ herror⟩

end RowFactory
