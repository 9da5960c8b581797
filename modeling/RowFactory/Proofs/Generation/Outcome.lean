import Mathlib.Data.List.Forall2
import RowFactory.Proofs.Generation.Interruption

namespace RowFactory

open PassEvent

/-- The artifact of a type. -/
def Emits (config : Config) (printer : Printer) (t : AnnotatedType) (a : Artifact) : Prop :=
  emit t t.bindings config.runtime printer = .ok a

variable {config : Config} {printer : Printer} {types : List AnnotatedType} {p : Progress}

theorem replay_never_of_emits {artifacts : List Artifact}
    (h : List.Forall₂ (Emits config printer) types artifacts) :
    ∃ checks, replay .never p (types.flatMap (typeEvents config printer)) =
      (none, ⟨checks, p.delivered ++ artifacts⟩) := by
  induction h generalizing p with
  | nil => exact ⟨p.checks, by simp [replay]⟩
  | @cons t a types artifacts hemit _ ih =>
    obtain ⟨checks, hrest⟩ := ih (p := ⟨p.checks + (t.members.length + 2), p.delivered ++ [a]⟩)
    rw [Emits] at hemit
    refine ⟨checks, ?_⟩
    rw [List.flatMap_cons, replay_typeEvents .never t _ fun _ => rfl, hemit]
    simpa using hrest

theorem emits_of_replay_never
    (h : (replay .never p (types.flatMap (typeEvents config printer))).1 = none) :
    ∃ artifacts, List.Forall₂ (Emits config printer) types artifacts := by
  induction types generalizing p with
  | nil => exact ⟨[], .nil⟩
  | cons t rest ih =>
    rw [List.flatMap_cons, replay_typeEvents .never t _ fun _ => rfl] at h
    cases hemit : emit t t.bindings config.runtime printer with
    | error e => simp [hemit] at h
    | ok a =>
      simp only [hemit] at h
      obtain ⟨artifacts, hrest⟩ := ih h
      exact ⟨a :: artifacts, .cons hemit hrest⟩

theorem run_generatePass_of_emits {units : List SourceUnit} {artifacts : List Artifact}
    (h : List.Forall₂ (Emits config printer) (markedTypes units config) artifacts) :
    (generatePass units config printer).run .never =
      (.ok (markedTypes units config).length, artifacts) := by
  obtain ⟨checks, hreplay⟩ := replay_never_of_emits h
    (p := ⟨0 + (units.length + (declaredStructs units).length + 1), []⟩)
  rw [(follows_generatePass units config printer).run .never, generationEvents_eq,
    replay_checks .never _ _ fun _ => rfl, Progress.start, hreplay]
  rfl

/-- What each artifact has from its type alone. -/
theorem map_eq_of_emits {γ : Type} {artifacts : List Artifact} {ofArtifact : Artifact → γ}
    {ofType : AnnotatedType → γ} (heq : ∀ t a, Emits config printer t a → ofArtifact a = ofType t)
    (h : List.Forall₂ (Emits config printer) types artifacts) :
    artifacts.map ofArtifact = types.map ofType := by
  induction h with
  | nil => rfl
  | cons hemit _ ih => rw [List.map_cons, List.map_cons, ih, heq _ _ hemit]

/-- Everything is generated exactly if every type has an artifact. -/
theorem generate_eq_ok_iff {units : List SourceUnit} {artifacts : List Artifact} :
    generate units config printer = .ok artifacts ↔
      List.Forall₂ (Emits config printer) (markedTypes units config) artifacts := by
  constructor
  · intro h
    have hend : ∃ artifacts,
        List.Forall₂ (Emits config printer) (markedTypes units config) artifacts := by
      rw [generate, Pass.collect, (follows_generatePass units config printer).run .never,
        generationEvents_eq, replay_checks .never _ _ fun _ => rfl] at h
      refine emits_of_replay_never
        (p := ⟨0 + (units.length + (declaredStructs units).length + 1), []⟩) ?_
      cases hreplay : (replay .never
          ⟨0 + (units.length + (declaredStructs units).length + 1), []⟩
          ((markedTypes units config).flatMap (typeEvents config printer))).1 with
      | none => rfl
      | some e =>
        simp only [Progress.start, hreplay, Option.elim_some] at h
        cases h
    obtain ⟨emitted, hemitted⟩ := hend
    rw [generate, Pass.collect, run_generatePass_of_emits hemitted] at h
    obtain rfl := Except.ok.inj h
    exact hemitted
  · intro h
    rw [generate, Pass.collect, run_generatePass_of_emits h]
    rfl

/-- Replayed to the end, or to the first type that has no artifact. -/
theorem outcome_replay_never :
    (replay .never p (types.flatMap (typeEvents config printer))).1.elim
        (.ok (replay .never p (types.flatMap (typeEvents config printer))).2.delivered) .error =
      (types.mapM fun t => emit t t.bindings config.runtime printer).map (p.delivered ++ ·) := by
  induction types generalizing p with
  | nil => simp [replay, Except.map, pure, Except.pure]
  | cons t rest ih =>
    rw [List.flatMap_cons, replay_typeEvents .never t _ fun _ => rfl, List.mapM_cons]
    cases emit t t.bindings config.runtime printer with
    | error e => rfl
    | ok a =>
      have hrest := ih (p := ⟨p.checks + (t.members.length + 2), p.delivered ++ [a]⟩)
      dsimp only at hrest ⊢
      rw [hrest]
      cases rest.mapM fun t => emit t t.bindings config.runtime printer <;>
        simp [Except.map, bind, Except.bind, pure, Except.pure]

/-- The types are gone through one after another, up to the first that has no artifact. -/
theorem generate_eq_mapM (units : List SourceUnit) (config : Config) (printer : Printer) :
    generate units config printer =
      (markedTypes units config).mapM fun t => emit t t.bindings config.runtime printer := by
  rw [generate, (follows_generatePass units config printer).collect, generationEvents_eq,
    replay_checks .never _ _ fun _ => rfl, outcome_replay_never]
  cases (markedTypes units config).mapM fun t => emit t t.bindings config.runtime printer <;> rfl

end RowFactory
