import Mathlib.Tactic.SplitIfs
import RowFactory.Source.Literal

namespace RowFactory

/-- What some characters have in common is seen by looking at those. -/
theorem forall_mem_of_all {α : Type} {p : α → Prop} [DecidablePred p] {as : List α}
    (h : as.all (p ·)) : ∀ a ∈ as, p a :=
  fun a ha => of_decide_eq_true (List.all_eq_true.mp h a ha)

theorem hexValue?_digitChar {d : Nat} (h : d < 16) : hexValue? d.digitChar = some d := by
  have hall : ∀ d < 16, hexValue? (Nat.digitChar d) = some d := by decide
  exact hall d h

namespace QuoteRules

variable (rules : QuoteRules)

/-- A character that completes none only moves the reader on. -/
theorem readQuoted_silent {state next : QuoteState} {c : Char}
    (hclose : state.mayClose = false ∨ c ≠ '\x22') (hstep : rules.step state c = some (next, none))
    (cs : List Char) : rules.readQuoted state (c :: cs) = rules.readQuoted next cs := by
  have hopen : ¬(c = '\x22' ∧ state.mayClose = true) := by
    rintro ⟨rfl, hmay⟩
    simp [hmay] at hclose
  simp [readQuoted, hopen, hstep]

/-- A character that completes one puts that one before the rest of the content. -/
theorem readQuoted_complete {state next : QuoteState} {c x : Char}
    (hclose : state.mayClose = false ∨ c ≠ '\x22')
    (hstep : rules.step state c = some (next, some x)) (cs : List Char) :
    rules.readQuoted state (c :: cs) =
      (rules.readQuoted next cs).map fun (content, rest) => (x :: content, rest) := by
  have hopen : ¬(c = '\x22' ∧ state.mayClose = true) := by
    rintro ⟨rfl, hmay⟩
    simp [hmay] at hclose
  simp [readQuoted, hopen, hstep]

/-- Up to six hexadecimal digits are read to the number that they write. -/
theorem readQuoted_toDigits {n : Nat} (h : (Nat.toDigits 16 n).length ≤ 6) (cs : List Char) :
    rules.readQuoted (.digits 0 0) (Nat.toDigits 16 n ++ cs) =
      rules.readQuoted (.digits (Nat.toDigits 16 n).length n) cs := by
  induction n using Nat.strongRecOn generalizing cs with
  | ind n ih =>
    rcases Nat.lt_or_ge n 16 with hn | hn
    · rw [Nat.toDigits_of_lt_base hn]
      refine rules.readQuoted_silent (.inl rfl) ?_ cs
      simp [step, digitStep, hexValue?_digitChar hn]
    · have hlow : n % 16 < 16 := Nat.mod_lt n (by decide)
      have hvalue : 16 * (n / 16) + n % 16 = n := Nat.div_add_mod n 16
      have hdigits := Nat.toDigits_of_base_le (b := 16) (by decide) hn
      have hlength : (Nat.toDigits 16 (n / 16)).length < 6 := by
        rw [hdigits, List.length_append, List.length_singleton] at h
        omega
      rw [hdigits, List.append_assoc, ih (n / 16) (by omega) (by omega),
        List.length_append]
      refine rules.readQuoted_silent (.inl rfl) ?_ cs
      simp only [step, digitStep, hexValue?_digitChar hlow, hvalue]
      rw [if_pos hlength]
      rfl

end QuoteRules

def contentCons (c : Char) (read : List Char × List Char) : List Char × List Char :=
  (c :: read.1, read.2)

theorem readQuoted_escapeByNumber (c : Char) (cs : List Char) :
    QuoteRules.text.readQuoted .plain (escapeByNumber c ++ cs) =
      (QuoteRules.text.readQuoted .plain cs).map (contentCons c) := by
  have hvalid : c.toNat.isValidChar := c.valid
  have hbound : (Nat.toDigits 16 c.toNat).length ≤ 6 := by
    apply (Nat.length_toDigits_le_iff (by decide) (by decide)).mpr
    rcases hvalid with h | h <;> omega
  have hchar : QuoteRules.text.char? c.toNat = some c := by
    simp [QuoteRules.char?, QuoteRules.text, hvalid, Char.ofNat_toNat]
  have hdigits : 0 < (Nat.toDigits 16 c.toNat).length := Nat.length_toDigits_pos
  have hopen : escapeByNumber c ++ cs =
      '\\' :: 'u' :: '\x7b' :: (Nat.toDigits 16 c.toNat ++ '\x7d' :: cs) := by
    simp [escapeByNumber]
  rw [hopen, QuoteRules.text.readQuoted_silent (.inr (by decide)) rfl,
    QuoteRules.text.readQuoted_silent (.inl rfl) rfl,
    QuoteRules.text.readQuoted_silent (.inl rfl) rfl,
    QuoteRules.text.readQuoted_toDigits hbound]
  refine QuoteRules.text.readQuoted_complete (.inl rfl) ?_ cs
  have hbrace : hexValue? '\x7d' = none := by decide
  simp [QuoteRules.step, QuoteRules.digitStep, hbrace, hchar, Nat.ne_of_gt hdigits]

theorem readQuoted_escape {e c : Char}
    (h : QuoteRules.text.escapeStep e = some (.plain, some c)) (cs : List Char) :
    QuoteRules.text.readQuoted .plain ('\\' :: e :: cs) =
      (QuoteRules.text.readQuoted .plain cs).map (contentCons c) := by
  have hstep : QuoteRules.text.step .escape e = some (.plain, some c) := h
  rw [QuoteRules.text.readQuoted_silent (.inr (by decide)) rfl]
  exact QuoteRules.text.readQuoted_complete (.inl rfl) hstep cs

theorem readQuoted_escapeChar (c : Char) (cs : List Char) :
    QuoteRules.text.readQuoted .plain (escapeChar c ++ cs) =
      (QuoteRules.text.readQuoted .plain cs).map (contentCons c) := by
  unfold escapeChar
  split_ifs with hnul htab hcarriage hline hbackslash hquote hnumber
  · rw [hnul]
    exact readQuoted_escape rfl cs
  · rw [htab]
    exact readQuoted_escape rfl cs
  · rw [hcarriage]
    exact readQuoted_escape rfl cs
  · rw [hline]
    exact readQuoted_escape rfl cs
  · rw [hbackslash]
    exact readQuoted_escape rfl cs
  · rw [hquote]
    exact readQuoted_escape rfl cs
  · exact readQuoted_escapeByNumber c cs
  · refine QuoteRules.text.readQuoted_complete (.inr hquote) ?_ cs
    simp [QuoteRules.step, QuoteRules.plainStep, QuoteRules.text, hbackslash, hcarriage]

theorem readQuoted_escapeNul (cs : List Char) :
    QuoteRules.text.readQuoted .plain ('\\' :: 'x' :: '0' :: '0' :: cs) =
      (QuoteRules.text.readQuoted .plain cs).map (contentCons '\x00') := by
  rw [QuoteRules.text.readQuoted_silent (.inr (by decide)) rfl,
    QuoteRules.text.readQuoted_silent (.inl rfl) rfl,
    QuoteRules.text.readQuoted_silent (.inl rfl) rfl]
  exact QuoteRules.text.readQuoted_complete (.inl rfl) rfl cs

theorem readQuoted_escapeLiteral (content rest : List Char) :
    QuoteRules.text.readQuoted .plain (escapeLiteral content ++ '\x22' :: rest) =
      some (content, rest) := by
  induction content with
  | nil => rfl
  | cons c cs ih =>
    rw [escapeLiteral, List.append_assoc]
    split
    case isTrue h =>
      have hnul : c = '\x00' := by
        simp only [Bool.and_eq_true, decide_eq_true_eq] at h
        exact h.1
      subst hnul
      rw [List.cons_append, List.cons_append, List.cons_append, List.cons_append, List.nil_append,
        readQuoted_escapeNul, ih]
      rfl
    case isFalse =>
      rw [readQuoted_escapeChar, ih]
      rfl

/-- The literal written for a text stands for that text. -/
theorem stringValue?_quoteLiteral (content : String) :
    stringValue? (String.ofList (quoteLiteral content.toList)) = some content := by
  have hread := readQuoted_escapeLiteral content.toList []
  simp [stringValue?, quoteLiteral, hread]

/-- A name between quotes stands for itself; NUL before a digit needs no other form there, since a
reader knows no octal escapes. -/
theorem readQuoted_quoteName (content rest : List Char) :
    QuoteRules.text.readQuoted .plain (content.flatMap escapeChar ++ '\x22' :: rest) =
      some (content, rest) := by
  induction content with
  | nil => rfl
  | cons c cs ih =>
    rw [List.flatMap_cons, List.append_assoc, readQuoted_escapeChar, ih]
    rfl

/-- Digits are written from the lowest one, so the induction is on the number. -/
theorem exists_digit_of_mem_toDigits {n : Nat} {c : Char} (h : c ∈ Nat.toDigits 16 n) :
    ∃ d < 16, c = d.digitChar := by
  induction n using Nat.strongRecOn with
  | ind n ih =>
    rcases Nat.lt_or_ge n 16 with hn | hn
    · rw [Nat.toDigits_of_lt_base hn] at h
      exact ⟨n, hn, List.mem_singleton.mp h⟩
    · rw [Nat.toDigits_of_base_le (by decide) hn] at h
      rcases List.mem_append.mp h with h | h
      · exact ih (n / 16) (by omega) h
      · exact ⟨n % 16, Nat.mod_lt n (by decide), List.mem_singleton.mp h⟩

theorem isPrintable_of_ascii {c : Char} (h : 32 ≤ c.toNat ∧ c.toNat ≤ 126) : isPrintable c := by
  have houtside : ∀ interval ∈ unprintableTable, interval.2 < 32 ∨ 126 < interval.1 := by
    decide +kernel
  simp only [isPrintable, CharTable.contains, Bool.not_eq_true', List.any_eq_false,
    Bool.and_eq_true, decide_eq_true_eq]
  intro interval hinterval
  have := houtside interval hinterval
  omega

theorem isPrintable_of_mem_escapeByNumber {c d : Char} (h : d ∈ escapeByNumber c) :
    isPrintable d := by
  have hbraces : ∀ x ∈ ['\\', 'u', '\x7b', '\x7d'], 32 ≤ x.toNat ∧ x.toNat ≤ 126 :=
    forall_mem_of_all (by decide)
  have hdigits : ∀ x < 16, 32 ≤ (Nat.digitChar x).toNat ∧ (Nat.digitChar x).toNat ≤ 126 := by
    decide
  apply isPrintable_of_ascii
  rcases List.mem_append.mp h with h | h
  · rcases List.mem_append.mp h with h | h
    · exact hbraces d (List.mem_append_left ['\x7d'] h)
    · obtain ⟨x, hx, rfl⟩ := exists_digit_of_mem_toDigits h
      exact hdigits x hx
  · exact hbraces d (List.mem_append_right ['\\', 'u', '\x7b'] h)

theorem isPrintable_of_mem_escapeChar {c d : Char} (h : d ∈ escapeChar c) : isPrintable d := by
  have hescape : ∀ e ∈ ['0', 't', 'r', 'n', '\\', '\x22'], d ∈ ['\\', e] → isPrintable d := by
    intro e he hd
    have hascii : ∀ x ∈ ['0', 't', 'r', 'n', '\\', '\x22'], 32 ≤ x.toNat ∧ x.toNat ≤ 126 :=
      forall_mem_of_all (by decide)
    apply isPrintable_of_ascii
    rcases List.mem_cons.mp hd with rfl | hd
    · exact hascii '\\' (by simp)
    · exact hascii d (List.mem_singleton.mp hd ▸ he)
  unfold escapeChar at h
  split_ifs at h with _ _ _ _ _ _ hnumber
  · exact hescape '0' (by simp) h
  · exact hescape 't' (by simp) h
  · exact hescape 'r' (by simp) h
  · exact hescape 'n' (by simp) h
  · exact hescape '\\' (by simp) h
  · exact hescape '\x22' (by simp) h
  · exact isPrintable_of_mem_escapeByNumber h
  · obtain rfl := List.mem_singleton.mp h
    simp only [Bool.or_eq_true, Bool.not_eq_true', not_or, Bool.not_eq_false] at hnumber
    exact hnumber.2

/-- Nothing stands in the text of a name that shows nothing, a line break least of all. -/
theorem isPrintable_of_mem_quoteName {content : List Char} {c : Char} (h : c ∈ quoteName content) :
    isPrintable c := by
  have hquote : isPrintable '\x22' := isPrintable_of_ascii (by decide)
  rcases List.mem_append.mp h with h | h
  · rcases List.mem_cons.mp h with rfl | h
    · exact hquote
    · obtain ⟨d, -, hc⟩ := List.mem_flatMap.mp h
      exact isPrintable_of_mem_escapeChar hc
  · exact List.mem_singleton.mp h ▸ hquote

end RowFactory
