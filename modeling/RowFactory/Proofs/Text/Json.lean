import Mathlib.Algebra.Order.Ring.Int
import Mathlib.Data.List.Forall2
import RowFactory.Proofs.Text.Quoted
import RowFactory.Text.Json

namespace RowFactory

/-- The unit that a character is written as: itself, or its number if nothing shows it. -/
inductive JsonUnit.Means : JsonUnit → Char → Prop
  | char (c : Char) : Means (.char c) c
  | code {c : Char} : c.toNat < 32 → Means (.code c.toNat) c

theorem joinUnits_of_means {units : List JsonUnit} {cs : List Char}
    (h : List.Forall₂ JsonUnit.Means units cs) : joinUnits units = some cs := by
  induction h with
  | nil => rfl
  | @cons unit c units cs hc _ ih =>
    cases hc with
    | char => rw [joinUnits, ih, Option.map_some]
    | code hlow =>
      have hpair : ¬ 0xD800 ≤ c.toNat := by omega
      have hvalid : c.toNat.isValidChar := c.valid
      have hjoin : joinUnits (.code c.toNat :: units) =
          (joinUnits units).map (Char.ofNat c.toNat :: ·) := by
        cases units with
        | nil => simp [joinUnits, hvalid]
        | cons next rest =>
          cases next with
          | char d => simp [joinUnits, hvalid]
          | code n => simp [joinUnits, hpair, hvalid]
      rw [hjoin, ih, Option.map_some, Char.ofNat_toNat]

theorem hexCode?_jsonCode {n : Nat} (h : n < 65536) :
    ∃ a b c d, jsonCode n = [a, b, c, d] ∧ hexCode? a b c d = some n := by
  refine ⟨_, _, _, _, rfl, ?_⟩
  have hdigit (m : Nat) : hexValue? (m % 16).digitChar = some (m % 16) :=
    hexValue?_digitChar (Nat.mod_lt m (by decide))
  simp only [hexCode?, hdigit, Option.bind_eq_bind, Option.bind_some, Option.pure_def]
  congr 1
  omega

def unitCons (u : JsonUnit) (read : List JsonUnit × List Char) : List JsonUnit × List Char :=
  (u :: read.1, read.2)

theorem readJsonUnits_escape {e c : Char} (h : jsonEscape? e = some c) (cs : List Char) :
    readJsonUnits ('\\' :: e :: cs) = (readJsonUnits cs).map (unitCons (.char c)) := by
  have hu : e ≠ 'u' := by
    rintro rfl
    simp [jsonEscape?] at h
  rw [readJsonUnits]
  · cases hr : readJsonUnits cs with
    | none => simp [h]
    | some read => simp [h, unitCons]
  · exact fun _ _ _ _ _ heq => absurd heq hu

theorem readJsonUnits_code {n : Nat} (h : n < 65536) (cs : List Char) :
    readJsonUnits ('\\' :: 'u' :: jsonCode n ++ cs) =
      (readJsonUnits cs).map (unitCons (.code n)) := by
  obtain ⟨a, b, c, d, hcode, hn⟩ := hexCode?_jsonCode h
  rw [hcode]
  simp only [List.cons_append, List.nil_append, readJsonUnits, hn]
  cases readJsonUnits cs <;> rfl

theorem readJsonUnits_plain {c : Char} (hquote : c ≠ '\x22') (hslash : c ≠ '\\')
    (hlow : ¬ c.toNat < 32) (cs : List Char) :
    readJsonUnits (c :: cs) = (readJsonUnits cs).map (unitCons (.char c)) := by
  rw [readJsonUnits]
  · simp only [hslash, decide_false, Bool.false_or, hlow, Bool.false_eq_true, ↓reduceIte]
    rfl
  all_goals simp [hquote, hslash]

/-- A character is read as one unit that means it. -/
theorem exists_readJsonUnits_jsonChar (c : Char) :
    ∃ u : JsonUnit, u.Means c ∧
      ∀ cs, readJsonUnits (jsonChar c ++ cs) = (readJsonUnits cs).map (unitCons u) := by
  unfold jsonChar
  split_ifs with hquote hslash hback hform hline hcarriage htab hlow
  · subst hquote
    exact ⟨_, .char _, readJsonUnits_escape rfl⟩
  · subst hslash
    exact ⟨_, .char _, readJsonUnits_escape rfl⟩
  · subst hback
    exact ⟨_, .char _, readJsonUnits_escape rfl⟩
  · subst hform
    exact ⟨_, .char _, readJsonUnits_escape rfl⟩
  · subst hline
    exact ⟨_, .char _, readJsonUnits_escape rfl⟩
  · subst hcarriage
    exact ⟨_, .char _, readJsonUnits_escape rfl⟩
  · subst htab
    exact ⟨_, .char _, readJsonUnits_escape rfl⟩
  · exact ⟨_, .code hlow, readJsonUnits_code (by omega)⟩
  · exact ⟨_, .char c, readJsonUnits_plain hquote hslash hlow⟩

theorem exists_readJsonUnits (content rest : List Char) :
    ∃ units, List.Forall₂ JsonUnit.Means units content ∧
      readJsonUnits (content.flatMap jsonChar ++ '\x22' :: rest) = some (units, rest) := by
  induction content with
  | nil => exact ⟨[], .nil, rfl⟩
  | cons c cs ih =>
    obtain ⟨units, hunits, hread⟩ := ih
    obtain ⟨u, hu, hstep⟩ := exists_readJsonUnits_jsonChar c
    refine ⟨u :: units, .cons hu hunits, ?_⟩
    rw [List.flatMap_cons, List.append_assoc, hstep, hread]
    rfl

theorem readJsonString_content (content rest : List Char) :
    readJsonString (content.flatMap jsonChar ++ '\x22' :: rest) = some (content, rest) := by
  obtain ⟨units, hunits, hread⟩ := exists_readJsonUnits content rest
  simp [readJsonString, hread, joinUnits_of_means hunits]

/-- What stands behind a whole number does not go on with it. -/
def EndsNumber (rest : List Char) : Prop :=
  ∀ c ∈ rest.head?, isJsonDigit c = false ∧ c ≠ '.' ∧ c ≠ 'e' ∧ c ≠ 'E'

theorem isJsonDigit_of_mem_natDigits {n : Nat} {c : Char} (h : c ∈ natDigits n) :
    isJsonDigit c := by
  have hdigit : c.isDigit := Nat.isDigit_of_mem_toDigits (by decide) (by decide) h
  simpa [isJsonDigit, Char.isDigit, Char.le_def] using hdigit

theorem exists_natDigits (n : Nat) : ∃ d ds, natDigits n = d :: ds ∧ isJsonDigit d := by
  cases hds : natDigits n with
  | nil => exact absurd hds Nat.toDigits_ne_nil
  | cons d ds =>
    have hmem : d ∈ natDigits n := by simp [hds]
    exact ⟨d, ds, rfl, isJsonDigit_of_mem_natDigits hmem⟩

/-- Only zero is written with a zero in front. -/
theorem eq_zero_of_natDigits {n : Nat} {ds : List Char} (h : natDigits n = '0' :: ds) : n = 0 := by
  induction n using Nat.strongRecOn generalizing ds with
  | ind n ih =>
    rcases Nat.lt_or_ge n 10 with hn | hn
    · have hzero : ∀ d < 10, Nat.digitChar d = '0' → d = 0 := by decide
      rw [natDigits, Nat.toDigits_of_lt_base hn] at h
      exact hzero n hn (List.cons.inj h).1
    · rw [natDigits, Nat.toDigits_of_base_le (by decide) hn] at h
      obtain ⟨d, front, hfront, -⟩ := exists_natDigits (n / 10)
      rw [← natDigits, hfront] at h
      obtain rfl : d = '0' := (List.cons.inj h).1
      have := ih (n / 10) (by omega) hfront
      omega

theorem le_ofDigitChars (ds : List Char) (s : Nat) : s ≤ Nat.ofDigitChars 10 ds s := by
  induction ds generalizing s with
  | nil => simp
  | cons d ds ih =>
    rw [Nat.ofDigitChars_cons]
    exact Nat.le_trans (by omega) (ih _)

theorem takeSignificand_digits {ds rest : List Char} (hds : ∀ c ∈ ds, isJsonDigit c)
    (hrest : EndsNumber rest) (s : Nat) (hlow : Nat.ofDigitChars 10 ds s < 2 ^ 64) :
    takeSignificand s (ds ++ rest) = (Nat.ofDigitChars 10 ds s, ds.length, 0, rest) := by
  induction ds generalizing s with
  | nil =>
    cases rest with
    | nil => rfl
    | cons c cs =>
      have hc : isJsonDigit c = false := (hrest c (by simp)).1
      simp [takeSignificand, hc]
  | cons d ds ih =>
    rw [Nat.ofDigitChars_cons] at hlow
    have hnext : 10 * s + digitValue d < Nat.pow 2 64 :=
      Nat.lt_of_le_of_lt (le_ofDigitChars ds _) hlow
    have hread := ih (fun c hc => hds c (by simp [hc])) (10 * s + digitValue d) hlow
    simp only [List.cons_append, takeSignificand, hds d (by simp), ↓reduceIte, hnext, hread]
    rfl

/-- Digits that write a number of 64 bits are read to their end as its significand. -/
theorem readUnsigned_natDigits {n : Nat} (hn : n < 2 ^ 64) {rest : List Char}
    (hrest : EndsNumber rest) (positive : Bool) :
    readUnsigned positive (natDigits n ++ rest) =
      if positive then some (.natural n, rest)
      else if n = 0 || Nat.pow 2 63 < n then some (.float (-n.toUInt64.toFloat), rest)
      else some (.negative (-(n : Int)), rest) := by
  have hvalue : Nat.ofDigitChars 10 (natDigits n) 0 = n := Nat.ofDigitChars_ten_toDigits
  have hread := takeSignificand_digits (fun c hc => isJsonDigit_of_mem_natDigits hc) hrest 0
    (hvalue.symm ▸ hn)
  rw [hvalue] at hread
  obtain ⟨d, ds, hds, hdigit⟩ := exists_natDigits n
  have hzero : (decide (d = '0') && (ds ++ rest).head?.any isJsonDigit) = false := by
    by_cases hd : d = '0'
    · subst hd
      obtain rfl : n = 0 := eq_zero_of_natDigits hds
      obtain rfl : ds = [] := (List.cons.inj hds).2.symm
      cases rest with
      | nil => rfl
      | cons c cs => simp [(hrest c (by simp)).1]
    · simp [hd]
  rw [hds, List.cons_append] at hread ⊢
  simp only [readUnsigned, List.head?_cons, Option.bind_eq_bind,
    Option.bind_some, List.tail_cons, hdigit, hzero, Bool.not_false, Bool.and_self, guard_true,
    Option.pure_def, hread]
  cases rest with
  | nil => cases positive <;> simp
  | cons c cs =>
    obtain ⟨-, hpoint, hlower, hupper⟩ := hrest c (by simp)
    cases positive <;> simp [hpoint, hlower, hupper]

theorem readJsonNumber_natDigits {n : Nat} (hn : n < 2 ^ 64) {rest : List Char}
    (hrest : EndsNumber rest) : readJsonNumber (natDigits n ++ rest) = some (.natural n, rest) := by
  have hread := readUnsigned_natDigits hn hrest true
  obtain ⟨d, ds, hds, hdigit⟩ := exists_natDigits n
  have hsign : d ≠ '-' := by
    rintro rfl
    exact absurd hdigit (by decide)
  rw [hds, List.cons_append] at hread
  rw [hds, List.cons_append, readJsonNumber, hread]
  · rfl
  · exact fun cs heq => hsign (List.cons.inj heq).1

theorem readJsonNumber_intText {n : Int} (hneg : n < 0) (hn : -2 ^ 63 ≤ n) {rest : List Char}
    (hrest : EndsNumber rest) : readJsonNumber (intText n ++ rest) = some (.negative n, rest) := by
  have hsize : n.natAbs < 2 ^ 64 := by omega
  have hread := readUnsigned_natDigits hsize hrest false
  have hrange : (decide (n.natAbs = 0) || decide (Nat.pow 2 63 < n.natAbs)) = false := by
    have hpow : Nat.pow 2 63 = 2 ^ 63 := rfl
    simp only [hpow, Bool.or_eq_false_iff, decide_eq_false_iff_not]
    omega
  have habs : -(n.natAbs : Int) = n := by omega
  rw [intText, if_pos hneg, List.cons_append, readJsonNumber, hread]
  simp only [Bool.false_eq_true, ↓reduceIte, hrange, habs]

end RowFactory
