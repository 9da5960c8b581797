import RowFactory.Factory.Basic
import RowFactory.Proofs.Source.ItemNames
import RowFactory.Proofs.Source.Separated

namespace RowFactory

/-- A comma or the closing bracket stands behind what is in front. -/
def ClosedBehind (front ts : List Token) : Prop :=
  ∃ c rest, ts = front ++ .punct c false :: rest ∧ (c = ',' ∨ c = '>')

/-- The parameter is a blank alone. -/
def GenericParam.isBlank : GenericParam → Bool
  | .type [] name _ _ => name = .plain "_"
  | _ => false

/-- The parameters, as they are written, begin with a blank. -/
def Generics.opensBlank (g : Generics) : Bool :=
  !g.params.any (·.isLifetime) && g.params.head?.any (·.isBlank)

/-- The name of a parameter that stands for a type is no reserved word but that of a blank. -/
def GenericParam.HasName : GenericParam → Prop
  | .type _ name _ _ => name.isKeyword = false ∨ name = .plain "_"
  | _ => True

theorem GenericParam.IsDeclared.hasName {p : GenericParam} (h : p.IsDeclared) : p.HasName := by
  cases p with
  | type attrs name bs trailing => exact h.imp_right And.left
  | _ => exact trivial

theorem startsGenerics_name {name : Ident} (hname : name.isKeyword = false) {third : List Token}
    (hthird : (isOperator ">" third || isOperator "," third || isOperator "=" third ||
      (isOperator ":" third && !isOperator "::" third)) = true) :
    startsGenerics (.punct '<' false :: .ident name :: third) = true := by
  have hident : isIdent (.ident name :: third) = true := by simp [isIdent, hname]
  simp only [startsGenerics, List.drop_succ_cons, List.drop_zero, hident, hthird, Bool.or_true,
    Bool.and_true]
  rfl

/-- Parameters begin in one of the ways in which none but parameters begin, unless it is with a
blank. -/
theorem GenericParam.startsGenerics_tokens {p : GenericParam} (hp : p.HasName) {ts : List Token}
    (h : ClosedBehind p.tokens ts) : startsGenerics (.punct '<' false :: ts) = !p.isBlank := by
  obtain ⟨c, rest, rfl, hc⟩ := h
  cases p with
  | lifetime param =>
    obtain ⟨attrs, name, bounds, trailing⟩ := param
    cases attrs with
    | cons a attrs => rfl
    | nil =>
      cases bounds with
      | cons b bounds => rfl
      | nil => rcases hc with rfl | rfl <;> rfl
  | type attrs name bounds trailing =>
    cases attrs with
    | cons a attrs => rfl
    | nil =>
      obtain hname | rfl := hp
      · have hblank : isBlank (.type [] name bounds trailing) = false := by
          simp only [isBlank, decide_eq_false_iff_not]
          rintro rfl
          cases hname
        rw [hblank]
        refine startsGenerics_name hname ?_
        cases bounds with
        | cons b bounds => rfl
        | nil => rcases hc with rfl | rfl <;> rfl
      · rfl
  | const attrs name type =>
    cases attrs <;> rfl

/-- Only the first of the parameters, as they are written, matters. -/
theorem Generics.opensBlank_eq (g : Generics) : g.opensBlank = g.ordered.head?.any (·.isBlank) := by
  unfold opensBlank ordered lifetimesAhead
  cases hlifetimes : g.params.filter (·.isLifetime) with
  | nil =>
    have hnone : g.params.any (·.isLifetime) = false := by simpa using hlifetimes
    have hall : g.params.filter (!·.isLifetime) = g.params := by
      simpa [List.filter_eq_self] using hlifetimes
    simp [hnone, hall]
  | cons p later =>
    have hp : p ∈ g.params.filter (·.isLifetime) := hlifetimes ▸ List.mem_cons_self
    obtain ⟨hmem, hlifetime⟩ := List.mem_filter.mp hp
    have hsome : g.params.any (·.isLifetime) = true := List.any_eq_true.mpr ⟨p, hmem, hlifetime⟩
    have hblank : p.isBlank = false := by
      cases p with
      | lifetime => rfl
      | _ => cases hlifetime
    simp [hsome, hblank]

theorem Generics.startsGenerics_declarationTokens {g : Generics}
    (hparams : ∀ p ∈ g.params, p.HasName) (h : g.params ≠ []) (after : List Token) :
    startsGenerics (g.declarationTokens ++ after) = !g.opensBlank := by
  obtain ⟨p, later, hordered⟩ : ∃ p later, g.ordered = p :: later := by
    obtain ⟨p, hp⟩ := List.exists_mem_of_ne_nil _ h
    exact List.exists_cons_of_ne_nil (List.ne_nil_of_mem (mem_ordered.mpr hp))
  have hp : p ∈ g.params := mem_ordered.mp (hordered ▸ List.mem_cons_self)
  have htokens : g.declarationTokens ++ after = .punct '<' false ::
      (joinTokens "," g.commaTrails (p.tokens :: later.map GenericParam.tokens) ++
        .punct '>' false :: after) := by
    simp [declarationTokens, angled_eq, h, hordered]
  have hclosed : ClosedBehind p.tokens
      (joinTokens "," g.commaTrails (p.tokens :: later.map GenericParam.tokens) ++
        .punct '>' false :: after) := by
    rw [joinTokens_cons]
    cases hcomma : g.commaTrails || !(later.map GenericParam.tokens).isEmpty with
    | true => exact ⟨',', _, rfl, .inl rfl⟩
    | false =>
      have hnil : later = [] := by simpa using (Bool.or_eq_false_iff.mp hcomma).2
      subst hnil
      exact ⟨'>', after, rfl, .inr rfl⟩
  rw [htokens, p.startsGenerics_tokens (hparams p hp) hclosed, opensBlank_eq, hordered]
  rfl

namespace Factory

theorem declarationTokens_implGenerics (f : Factory) :
    f.implGenerics.declarationTokens = f.generics.declarationTokens := by
  unfold implGenerics
  split <;> rfl

end Factory

end RowFactory
