import Mathlib.Data.List.Induction
import Mathlib.Logic.Relation
import RowFactory.Generation.Cancellation

namespace RowFactory

namespace TokenStep

/-- Whether a token is made by the step. -/
def makes : TokenStep → Bool
  | .new => true
  | .clone _ => true
  | .cancel _ => false

/-- The token that the step is taken on. -/
def subject? : TokenStep → Option Nat
  | .new => none
  | .clone token => some token
  | .cancel token => some token

end TokenStep

/-- How many tokens the steps make. The next token to be made has this number. -/
def tokensMade (steps : List TokenStep) : Nat := steps.countP TokenStep.makes

/-- Each step is taken on a token that was made before. -/
def OnMadeTokens (steps : List TokenStep) : Prop :=
  ∀ i (hi : i < steps.length), ∀ token ∈ steps[i].subject?, token < tokensMade (steps.take i)

instance (steps : List TokenStep) : Decidable (OnMadeTokens steps) :=
  inferInstanceAs (Decidable (∀ i (hi : i < steps.length), ∀ token ∈ steps[i].subject?,
    token < tokensMade (steps.take i)))

/-- The token is made as no clone. -/
def IsNew (steps : List TokenStep) (token : Nat) : Prop :=
  ∃ before after, steps = before ++ .new :: after ∧ token = tokensMade before

/-- The second token is made as a clone of the first. -/
def HasClone (steps : List TokenStep) (token clone : Nat) : Prop :=
  ∃ before after, steps = before ++ .clone token :: after ∧ clone = tokensMade before

/-- A chain of clones, each taken in either direction, leads from one token to the other. -/
def SameFamily (steps : List TokenStep) : Nat → Nat → Prop := Relation.EqvGen (HasClone steps)

variable {steps more before after : List TokenStep} {step : TokenStep} {token other family : Nat}

theorem OnMadeTokens.subject_lt (h : OnMadeTokens (before ++ step :: after))
    (hstep : step.subject? = some token) : token < tokensMade before := by
  have hlt := h before.length (by simp) token (by simpa using hstep)
  simpa using hlt

theorem OnMadeTokens.of_append (h : OnMadeTokens (steps ++ more)) : OnMadeTokens steps := by
  intro i hi token htoken
  have hlt := h i (by simp only [List.length_append]; omega) token
    (by rwa [List.getElem_append_left hi])
  rwa [List.take_append_of_le_length (Nat.le_of_lt hi)] at hlt

theorem HasClone.append (h : HasClone steps token other) (more : List TokenStep) :
    HasClone (steps ++ more) token other := by
  obtain ⟨before, after, rfl, rfl⟩ := h
  exact ⟨before, after ++ more, by simp, rfl⟩

theorem IsNew.append (h : IsNew steps token) (more : List TokenStep) :
    IsNew (steps ++ more) token := by
  obtain ⟨before, after, rfl, rfl⟩ := h
  exact ⟨before, after ++ more, by simp, rfl⟩

theorem SameFamily.append (h : SameFamily steps token other) (more : List TokenStep) :
    SameFamily (steps ++ more) token other :=
  Relation.EqvGen.mono (fun _ _ (hclone : HasClone steps _ _) => hclone.append more) _ _ h

namespace TokenTable

variable {t : TokenTable}

theorem step_new (t : TokenTable) :
    t.step .new = { t with families := t.families ++ [t.families.length] } := rfl

theorem step_clone (h : t.families[token]? = some family) :
    t.step (.clone token) = { t with families := t.families ++ [family] } := by
  simp [step, h]

theorem step_cancel (h : t.families[token]? = some family) :
    t.step (.cancel token) = { t with cancelled := family :: t.cancelled } := by
  simp [step, h]

theorem run_concat (steps : List TokenStep) (step : TokenStep) :
    run (steps ++ [step]) = (run steps).step step := by
  simp [run]

/-- A step takes nothing back: no token gets another family, and what is cancelled stays so. -/
theorem step_keeps (t : TokenTable) (step : TokenStep) :
    t.families <+: (t.step step).families ∧ t.cancelled ⊆ (t.step step).cancelled := by
  cases step with
  | new => simp [step_new]
  | clone token =>
    cases h : t.families[token]? with
    | none => simp [TokenTable.step, h]
    | some family => simp [step_clone h]
  | cancel token =>
    cases h : t.families[token]? with
    | none => simp [TokenTable.step, h]
    | some family => simp [step_cancel h]

theorem run_append_keeps (steps more : List TokenStep) :
    (run steps).families <+: (run (steps ++ more)).families ∧
      (run steps).cancelled ⊆ (run (steps ++ more)).cancelled := by
  induction more using List.reverseRecOn with
  | nil => simp
  | append_singleton more step ih =>
    rw [← List.append_assoc, run_concat]
    obtain ⟨hfamilies, hcancelled⟩ := step_keeps (run (steps ++ more)) step
    exact ⟨ih.1.trans hfamilies, List.Subset.trans ih.2 hcancelled⟩

/-- A token keeps its family. -/
theorem family_append_eq (hlt : token < (run steps).families.length) (more : List TokenStep) :
    (run (steps ++ more)).families[token]? = (run steps).families[token]? := by
  obtain ⟨rest, hrest⟩ := (run_append_keeps steps more).1
  rw [← hrest, List.getElem?_append_left hlt]

theorem family_append (h : (run steps).families[token]? = some family) (more : List TokenStep) :
    (run (steps ++ more)).families[token]? = some family := by
  rw [family_append_eq (List.getElem?_eq_some_iff.mp h).1, h]

theorem isCancelled_iff :
    t.isCancelled token ↔ ∃ family, t.families[token]? = some family ∧ family ∈ t.cancelled := by
  cases h : t.families[token]? <;> simp [isCancelled, h]

theorem isCancelled_append (h : (run steps).isCancelled token) (more : List TokenStep) :
    (run (steps ++ more)).isCancelled token := by
  obtain ⟨family, hfamily, hcancelled⟩ := isCancelled_iff.mp h
  exact isCancelled_iff.mpr
    ⟨family, family_append hfamily more, (run_append_keeps steps more).2 hcancelled⟩

/-- Steps on tokens that were made make the tokens that they are meant to make. -/
theorem length_families_run (h : OnMadeTokens steps) :
    (run steps).families.length = tokensMade steps := by
  induction steps using List.reverseRecOn with
  | nil => rfl
  | append_singleton steps step ih =>
    have hlength := ih h.of_append
    rw [run_concat]
    cases step with
    | new => simp [step_new, hlength, tokensMade, TokenStep.makes]
    | clone token =>
      have hlt : token < (run steps).families.length := hlength ▸ h.subject_lt rfl
      simp [step_clone (List.getElem?_eq_getElem hlt), hlength, tokensMade, TokenStep.makes]
    | cancel token =>
      have hlt : token < (run steps).families.length := hlength ▸ h.subject_lt rfl
      simp [step_cancel (List.getElem?_eq_getElem hlt), hlength, tokensMade, TokenStep.makes]

theorem lt_length_of_mem (h : OnMadeTokens steps) (hmem : step ∈ steps)
    (hstep : step.subject? = some token) : token < (run steps).families.length := by
  obtain ⟨before, after, rfl⟩ := List.append_of_mem hmem
  have hlt := h.subject_lt hstep
  rw [length_families_run h, tokensMade, List.countP_append, ← tokensMade]
  omega

theorem exists_family_of_subject (h : OnMadeTokens (before ++ step :: after))
    (hstep : step.subject? = some token) :
    ∃ family, (run before).families[token]? = some family := by
  have hlt := h.subject_lt hstep
  rw [← length_families_run h.of_append] at hlt
  exact ⟨_, List.getElem?_eq_getElem hlt⟩

theorem family_of_isNew (h : OnMadeTokens steps) (hnew : IsNew steps token) :
    (run steps).families[token]? = some token := by
  obtain ⟨before, after, rfl, rfl⟩ := hnew
  have hmade : (run (before ++ [.new])).families[tokensMade before]? =
      some (tokensMade before) := by
    rw [run_concat, step_new, ← length_families_run h.of_append]
    simp
  simpa using family_append hmade after

theorem family_of_hasClone (h : OnMadeTokens steps) (hclone : HasClone steps token other) :
    (run steps).families[token]? = (run steps).families[other]? := by
  obtain ⟨before, after, rfl, rfl⟩ := hclone
  obtain ⟨family, hfamily⟩ := exists_family_of_subject h rfl
  have hmade : (run (before ++ [.clone token])).families[tokensMade before]? = some family := by
    rw [run_concat, step_clone hfamily, ← length_families_run h.of_append]
    simp
  have hkept := family_append hmade after
  rw [List.append_assoc, List.singleton_append] at hkept
  rw [family_append hfamily, hkept]

theorem family_eq_of_sameFamily (h : OnMadeTokens steps) (hsame : SameFamily steps token other) :
    (run steps).families[token]? = (run steps).families[other]? := by
  induction hsame with
  | rel token other hclone => exact family_of_hasClone h hclone
  | refl token => rfl
  | symm token other _ ih => exact ih.symm
  | trans token middle other _ _ ih₁ ih₂ => exact ih₁.trans ih₂

theorem getElem?_concat_eq_some {families : List Nat} {last : Nat}
    (h : (families ++ [last])[token]? = some family) :
    families[token]? = some family ∨ token = families.length ∧ family = last := by
  rcases Nat.lt_trichotomy token families.length with hlt | rfl | hgt
  · exact .inl (by rwa [List.getElem?_append_left hlt] at h)
  · exact .inr ⟨rfl, by simpa using h.symm⟩
  · rw [List.getElem?_eq_none (by simp; omega)] at h
    cases h

/-- A family has the number of its first token, from which all others come by clones. -/
theorem isNew_and_sameFamily (h : OnMadeTokens steps)
    (hfamily : (run steps).families[token]? = some family) :
    IsNew steps family ∧ SameFamily steps token family := by
  induction steps using List.reverseRecOn generalizing token with
  | nil => cases hfamily
  | append_singleton steps step ih =>
    have hkept {old : Nat} (hold : (run steps).families[old]? = some family) :
        IsNew (steps ++ [step]) family ∧ SameFamily (steps ++ [step]) old family := by
      obtain ⟨hnew, hsame⟩ := ih h.of_append hold
      exact ⟨hnew.append _, hsame.append _⟩
    have hmade := length_families_run h.of_append
    rw [run_concat] at hfamily
    cases step with
    | new =>
      rw [step_new] at hfamily
      rcases getElem?_concat_eq_some hfamily with hold | ⟨rfl, rfl⟩
      · exact hkept hold
      · exact ⟨⟨steps, [], rfl, hmade⟩, .refl _⟩
    | clone original =>
      obtain ⟨shared, hshared⟩ := exists_family_of_subject h rfl
      rw [step_clone hshared] at hfamily
      rcases getElem?_concat_eq_some hfamily with hold | ⟨rfl, rfl⟩
      · exact hkept hold
      · obtain ⟨hnew, hsame⟩ := hkept hshared
        have hclone : HasClone (steps ++ [.clone original]) original (run steps).families.length :=
          ⟨steps, [], rfl, hmade⟩
        exact ⟨hnew, .trans _ _ _ (.symm _ _ (.rel _ _ hclone)) hsame⟩
    | cancel subject =>
      obtain ⟨shared, hshared⟩ := exists_family_of_subject h rfl
      rw [step_cancel hshared] at hfamily
      exact hkept hfamily

theorem mem_cancelled_run_iff (h : OnMadeTokens steps) :
    family ∈ (run steps).cancelled ↔
      ∃ token, .cancel token ∈ steps ∧ (run steps).families[token]? = some family := by
  induction steps using List.reverseRecOn with
  | nil => simp [run, empty]
  | append_singleton steps step ih =>
    have hkept : family ∈ (run steps).cancelled ↔ ∃ token, .cancel token ∈ steps ∧
        (run (steps ++ [step])).families[token]? = some family := by
      rw [ih h.of_append]
      refine exists_congr fun token => and_congr_right fun hmem => ?_
      rw [family_append_eq (lt_length_of_mem h.of_append hmem rfl)]
    cases step with
    | new => simpa [run_concat, step_new] using hkept
    | clone original =>
      obtain ⟨shared, hshared⟩ := exists_family_of_subject h rfl
      simpa [run_concat, step_clone hshared] using hkept
    | cancel subject =>
      obtain ⟨shared, hshared⟩ := exists_family_of_subject h rfl
      rw [run_concat, step_cancel hshared] at hkept ⊢
      rw [List.mem_cons, hkept]
      simp only [List.mem_append, List.mem_singleton, TokenStep.cancel.injEq, or_and_right,
        exists_or, exists_eq_left, hshared, Option.some.injEq]
      rw [or_comm, eq_comm]

theorem isCancelled_run_iff (h : OnMadeTokens steps) :
    (run steps).isCancelled token ↔
      ∃ other, SameFamily steps token other ∧ .cancel other ∈ steps := by
  rw [isCancelled_iff]
  constructor
  · rintro ⟨family, hfamily, hcancelled⟩
    obtain ⟨other, hmem, hother⟩ := (mem_cancelled_run_iff h).mp hcancelled
    have htoken := (isNew_and_sameFamily h hfamily).2
    exact ⟨other, htoken.trans _ _ _ ((isNew_and_sameFamily h hother).2.symm _ _), hmem⟩
  · rintro ⟨other, hsame, hmem⟩
    have hother := List.getElem?_eq_getElem (lt_length_of_mem h hmem rfl)
    exact ⟨_, (family_eq_of_sameFamily h hsame).trans hother,
      (mem_cancelled_run_iff h).mpr ⟨other, hmem, hother⟩⟩

/-- A family is begun once. -/
theorem existsUnique_isNew (h : OnMadeTokens steps) (hlt : token < tokensMade steps) :
    ∃! first, IsNew steps first ∧ SameFamily steps token first := by
  rw [← length_families_run h] at hlt
  have hfamily := List.getElem?_eq_getElem hlt
  refine ⟨_, isNew_and_sameFamily h hfamily, ?_⟩
  rintro first ⟨hnew, hsame⟩
  have hfirst := (family_eq_of_sameFamily h hsame).trans (family_of_isNew h hnew)
  exact Option.some.inj (hfirst.symm.trans hfamily)

/-- What a token was is not changed by steps that cancel none of its family. -/
theorem isCancelled_append_eq (h : OnMadeTokens (steps ++ more)) (hlt : token < tokensMade steps)
    (hmore : ∀ other, SameFamily (steps ++ more) token other → .cancel other ∉ more) :
    (run (steps ++ more)).isCancelled token = (run steps).isCancelled token := by
  rw [Bool.eq_iff_iff]
  refine ⟨fun hcancelled => ?_, fun hcancelled => isCancelled_append hcancelled more⟩
  obtain ⟨other, hsame, hmem⟩ := (isCancelled_run_iff h).mp hcancelled
  have hbefore : .cancel other ∈ steps :=
    (List.mem_append.mp hmem).resolve_right (hmore other hsame)
  have hother := lt_length_of_mem h.of_append hbefore rfl
  rw [← length_families_run h.of_append] at hlt
  have hfamily := family_eq_of_sameFamily h hsame
  rw [family_append_eq hlt, family_append_eq hother, List.getElem?_eq_getElem hother] at hfamily
  exact isCancelled_iff.mpr ⟨_, hfamily, (mem_cancelled_run_iff h.of_append).mpr
    ⟨other, hbefore, List.getElem?_eq_getElem hother⟩⟩

theorem states_eq (t : TokenTable) :
    t.states = (List.range t.families.length).map t.isCancelled := by
  refine List.ext_getElem (by simp [states]) fun i hi _ => ?_
  have hlt : i < t.families.length := by simpa [states] using hi
  simp [states, isCancelled, hlt]

theorem check_eq_error_iff {message : String} :
    t.check token = .error message ↔ t.isCancelled token ∧ message = cancelledMessage := by
  cases h : t.isCancelled token with
  | true => simp [check, h, eq_comm]
  | false => simp [check, h]

theorem check_eq_ok_iff : t.check token = .ok () ↔ ¬ t.isCancelled token := by
  cases h : t.isCancelled token <;> simp [check, h]

end TokenTable

/-- After any steps on tokens made before, the states are those of the tokens made, in order. A
token is cancelled exactly if one of its family was, at whatever step, be it before or after the
clones were made. Each token's family has one token that was made as no clone, so that tokens made
each on its own are in families of their own; and steps that cancel none of a token's family leave
the token as it is. A cancelled token stays cancelled. The check fails, with its message, on exactly
the cancelled tokens. -/
theorem family_cancelled_as_a_whole {steps : List TokenStep} (h : OnMadeTokens steps) :
    let t := TokenTable.run steps
    t.states = (List.range (tokensMade steps)).map t.isCancelled ∧
    (∀ token, t.isCancelled token ↔
      ∃ other, SameFamily steps token other ∧ .cancel other ∈ steps) ∧
    (∀ token < tokensMade steps, ∃! first, IsNew steps first ∧ SameFamily steps token first) ∧
    (∀ more, OnMadeTokens (steps ++ more) → ∀ token < tokensMade steps,
      (∀ other, SameFamily (steps ++ more) token other → .cancel other ∉ more) →
      (TokenTable.run (steps ++ more)).isCancelled token = t.isCancelled token) ∧
    (∀ more token, t.isCancelled token → (TokenTable.run (steps ++ more)).isCancelled token) ∧
    ∀ token, (∀ message, t.check token = .error message ↔
      t.isCancelled token ∧ message = cancelledMessage) ∧
      (t.check token = .ok () ↔ ¬ t.isCancelled token) := by
  intro t
  refine ⟨?_, fun token => TokenTable.isCancelled_run_iff h,
    fun token hlt => TokenTable.existsUnique_isNew h hlt,
    fun more hmore token hlt hnone => TokenTable.isCancelled_append_eq hmore hlt hnone,
    fun more token hcancelled => TokenTable.isCancelled_append hcancelled more,
    fun token => ⟨fun message => TokenTable.check_eq_error_iff, TokenTable.check_eq_ok_iff⟩⟩
  rw [TokenTable.states_eq, TokenTable.length_families_run h]

/-- Two families; of the first, a clone is made before and one after it is cancelled. -/
theorem family_cancelled_as_a_whole_late_clone :
    let steps : List TokenStep := [.new, .clone 0, .new, .cancel 1, .clone 0, .clone 2]
    let t := TokenTable.run steps
    OnMadeTokens steps ∧ SameFamily steps 3 1 ∧ t.isCancelled 3 ∧ t.check 4 = .ok () ∧
      (¬ ∃ other, SameFamily steps 4 other ∧ .cancel other ∈ steps) ∧
      (TokenTable.run (steps ++ [.cancel 4])).isCancelled 3 ∧
      t.states = [true, true, false, true, false] := by
  intro steps t
  have hmade : OnMadeTokens steps := by decide
  have hearly : HasClone steps 0 1 := ⟨[.new], _, rfl, rfl⟩
  have hlate : HasClone steps 0 3 := ⟨[.new, .clone 0, .new, .cancel 1], _, rfl, rfl⟩
  have hsame : SameFamily steps 3 1 := .trans _ _ _ (.symm _ _ (.rel _ _ hlate)) (.rel _ _ hearly)
  obtain ⟨-, hfamily, -, -, hstays, hcheck⟩ := family_cancelled_as_a_whole hmade
  have hcancelled : t.isCancelled 3 := (hfamily 3).mpr ⟨1, hsame, by decide⟩
  have hlive : ¬ t.isCancelled 4 := by decide
  exact ⟨hmade, hsame, hcancelled, (hcheck 4).2.mpr hlive, fun h => hlive ((hfamily 4).mpr h),
    hstays [.cancel 4] 3 hcancelled, by decide⟩

end RowFactory
