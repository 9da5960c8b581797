import RowFactory.Proofs.Generation.Replay

namespace RowFactory

open PassEvent

theorem name_of_emit {t : AnnotatedType} {bindings : List ColumnBinding} {runtime : Path}
    {printer : Printer} {a : Artifact} (h : emit t bindings runtime printer = .ok a) :
    a.name = t.name ∧ a.hint = t.name.hintName := by
  unfold emit at h
  split at h
  · cases h
  · cases h
  · split at h
    · obtain rfl := Except.ok.inj h
      exact ⟨rfl, rfl⟩
    · cases h
    · cases h

/-- Checks at which the signal is not set change nothing but their number. -/
theorem replay_checks (signal : Signal) {p : Progress} (n : Nat) (rest : List PassEvent)
    (h : ∀ i, signal i p.delivered.length = false) :
    replay signal p (List.replicate n .check ++ rest) =
      replay signal { p with checks := p.checks + n } rest := by
  induction n generalizing p with
  | zero => rfl
  | succ n ih =>
    rw [List.replicate_succ, List.cons_append, replay, h]
    simp only [Bool.false_eq_true, ↓reduceIte]
    rw [ih (p := { p with checks := p.checks + 1 }) h, Nat.add_right_comm, Nat.add_assoc]

theorem typeEvents_eq (config : Config) (printer : Printer) (t : AnnotatedType) :
    typeEvents config printer t =
      List.replicate (t.members.length + 2) .check ++ [emission config printer t] := by
  rw [typeEvents, List.map_const', List.replicate_succ, List.replicate_succ']
  simp

theorem generationEvents_eq (units : List SourceUnit) (config : Config) (printer : Printer) :
    generationEvents units config printer =
      List.replicate (units.length + (declaredStructs units).length + 1) .check ++
        (markedTypes units config).flatMap (typeEvents config printer) := by
  rw [generationEvents, List.map_const', List.map_const', List.replicate_succ,
    ← List.replicate_append_replicate]
  rfl

/-- A type at none of whose checks the signal is set is generated for, or fails. -/
theorem replay_typeEvents {config : Config} {printer : Printer} (signal : Signal) {p : Progress}
    (t : AnnotatedType) (rest : List PassEvent) (h : ∀ i, signal i p.delivered.length = false) :
    replay signal p (typeEvents config printer t ++ rest) =
      match emit t t.bindings config.runtime printer with
      | .ok a => replay signal ⟨p.checks + (t.members.length + 2), p.delivered ++ [a]⟩ rest
      | .error e => (some e, { p with checks := p.checks + (t.members.length + 2) }) := by
  rw [typeEvents_eq, List.append_assoc, replay_checks signal _ _ h, emission]
  cases emit t t.bindings config.runtime printer <;> rfl

variable {config : Config} {printer : Printer} {types : List AnnotatedType} {p : Progress}

/-- Once the signal is set, no further type is generated for. -/
theorem replay_types_of_set {signal : Signal} (h : ∀ i, signal i p.delivered.length = true) :
    ∃ checks, replay signal p (types.flatMap (typeEvents config printer)) =
      (if types.length = 0 then none else some .cancelled, ⟨checks, p.delivered⟩) := by
  cases types with
  | nil => exact ⟨p.checks, rfl⟩
  | cons t rest => exact ⟨p.checks + 1, by simp [typeEvents, replay, h]⟩

/-- A pass that is not cancelled and does not fail hands over one artifact for each type. -/
theorem names_of_replay_never
    (h : (replay .never p (types.flatMap (typeEvents config printer))).1 = none) :
    (replay .never p (types.flatMap (typeEvents config printer))).2.delivered.map (·.name) =
      p.delivered.map (·.name) ++ types.map (·.name) := by
  induction types generalizing p with
  | nil => simp [replay]
  | cons t rest ih =>
    rw [List.flatMap_cons, replay_typeEvents .never t _ fun _ => rfl] at h ⊢
    cases hemit : emit t t.bindings config.runtime printer with
    | error e => simp [hemit] at h
    | ok a =>
      simp only [hemit] at h ⊢
      rw [ih h]
      simp [(name_of_emit hemit).1]

/-- The receiver of artifact `k` cancels: the artifacts up to that one remain, and the pass is only
complete if there is no further type. -/
theorem replay_afterArtifact {k : Nat} (hmore : p.delivered.length < k)
    (hk : k ≤ (replay .never p (types.flatMap (typeEvents config printer))).2.delivered.length) :
    ∃ checks, replay (.afterArtifact k) p (types.flatMap (typeEvents config printer)) =
      (if p.delivered.length + types.length = k then none else some .cancelled,
        ⟨checks,
          (replay .never p (types.flatMap (typeEvents config printer))).2.delivered.take k⟩) := by
  induction types generalizing p with
  | nil =>
    simp only [List.flatMap_nil, replay] at hk
    omega
  | cons t rest ih =>
    have hunset : ∀ i, Signal.afterArtifact k i p.delivered.length = false := by
      intro i
      simp [Signal.afterArtifact, hmore]
    rw [List.flatMap_cons, replay_typeEvents .never t _ fun _ => rfl] at hk ⊢
    rw [replay_typeEvents (.afterArtifact k) t _ hunset]
    cases hemit : emit t t.bindings config.runtime printer with
    | error e =>
      simp only [hemit] at hk
      omega
    | ok a =>
      simp only [hemit] at hk ⊢
      have hlength : (p.delivered ++ [a]).length = p.delivered.length + 1 := by simp
      have hcount : p.delivered.length + (t :: rest).length =
          (p.delivered ++ [a]).length + rest.length := by
        rw [hlength, List.length_cons]
        omega
      rw [hcount]
      rcases Nat.lt_or_ge (p.delivered ++ [a]).length k with hlt | hge
      · exact ih hlt hk
      · have hk' : k = (p.delivered ++ [a]).length := by omega
        obtain ⟨checks, hset⟩ : ∃ checks, replay (.afterArtifact k)
            ⟨p.checks + (t.members.length + 2), p.delivered ++ [a]⟩
            (rest.flatMap (typeEvents config printer)) =
              (if rest.length = 0 then none else some .cancelled, ⟨checks, p.delivered ++ [a]⟩) :=
          replay_types_of_set fun i => by simp [Signal.afterArtifact, hk']
        obtain ⟨later, hlater⟩ := delivered_isPrefix_replay .never
          ⟨p.checks + (t.members.length + 2), p.delivered ++ [a]⟩
          (rest.flatMap (typeEvents config printer))
        refine ⟨checks, hset.trans ?_⟩
        rw [← hlater, hk', List.take_left]
        simp

/-- For each check of a pass, how many artifacts have been handed over when it is made. -/
def deliveredAtChecks (units : List SourceUnit) (config : Config) (printer : Printer) : List Nat :=
  marks 0 (generationEvents units config printer)

/-- A pass is the one that is never cancelled, cut off at the first check that fails. -/
theorem run_generatePass_eq_cut (units : List SourceUnit) (config : Config) (printer : Printer)
    (signal : Signal) :
    (generatePass units config printer).run signal =
      match (deliveredAtChecks units config printer).zipIdx.find? fun (d, n) => signal n d with
      | none => (generatePass units config printer).run .never
      | some (d, _) =>
        (.error .cancelled, ((generatePass units config printer).run .never).2.take d) := by
  have hrun := (follows_generatePass units config printer).run
  have hcut := replay_eq_cut signal .start (generationEvents units config printer)
  rw [hrun signal, hrun .never, hcut, deliveredAtChecks]
  simp only [Progress.start, List.length_nil]
  cases (marks 0 (generationEvents units config printer)).zipIdx.find? fun (d, n) => signal n d <;>
    rfl

/-- A pass that gives a count has handed over one artifact for each type. -/
theorem names_of_run_generatePass {units : List SourceUnit} {config : Config} {printer : Printer}
    {n : Nat} (h : ((generatePass units config printer).run .never).1 = .ok n) :
    n = (markedTypes units config).length ∧
      ((generatePass units config printer).run .never).2.map (·.name) =
        (markedTypes units config).map (·.name) := by
  rw [(follows_generatePass units config printer).run .never] at h ⊢
  rw [generationEvents_eq, replay_checks .never _ _ fun _ => rfl] at h ⊢
  cases hend : (replay .never ⟨0 + (units.length + (declaredStructs units).length + 1), []⟩
      ((markedTypes units config).flatMap (typeEvents config printer))).1 with
  | none =>
    rw [Progress.start, hend] at h
    exact ⟨(Except.ok.inj h).symm, names_of_replay_never hend⟩
  | some e =>
    rw [Progress.start, hend] at h
    cases h

theorem run_afterArtifact (units : List SourceUnit) (config : Config) (printer : Printer) {k : Nat}
    (hpos : 0 < k) (hk : k ≤ ((generatePass units config printer).run .never).2.length) :
    (generatePass units config printer).run (.afterArtifact k) =
      (if (markedTypes units config).length = k then .ok k else .error .cancelled,
        ((generatePass units config printer).run .never).2.take k) := by
  rw [(follows_generatePass units config printer).run .never] at hk ⊢
  rw [(follows_generatePass units config printer).run (.afterArtifact k)]
  rw [generationEvents_eq, replay_checks .never _ _ fun _ => rfl] at hk ⊢
  rw [replay_checks (.afterArtifact k) _ _ fun i => by simp [Signal.afterArtifact, Progress.start]]
  obtain ⟨checks, h⟩ := replay_afterArtifact (by simpa [Progress.start] using hpos) hk
  rw [h]
  have hstart : Progress.start.delivered.length + (markedTypes units config).length =
      (markedTypes units config).length := Nat.zero_add _
  rw [hstart]
  split
  next heq => rw [heq]; rfl
  next => rfl

/-- Whatever the signal, a pass is the uncancelled one up to the first check that fails, and nothing
after it: the artifacts are a prefix of all artifacts, and the outcome is that it was cancelled. A
count stands only for all types. If the receiver of artifact `k` cancels, exactly `k` artifacts have
been handed over. What is collected is everything or an error. -/
theorem cancelled_pass_hands_over_prefix (units : List SourceUnit) (config : Config)
    (printer : Printer) :
    let pass := generatePass units config printer
    let whole := pass.run .never
    let types := markedTypes units config
    (discover units config).run .never = (.ok types, []) ∧
    (∀ signal, pass.run signal =
      match (deliveredAtChecks units config printer).zipIdx.find? fun (d, n) => signal n d with
      | none => whole
      | some (d, _) => (.error .cancelled, whole.2.take d)) ∧
    (∀ signal, (pass.run signal).2 <+: whole.2) ∧
    (∀ signal n, (pass.run signal).1 = .ok n →
      n = types.length ∧ (pass.run signal).2.map (·.name) = types.map (·.name)) ∧
    (∀ k, 0 < k → k ≤ whole.2.length → pass.run (.afterArtifact k) =
      (if types.length = k then .ok k else .error .cancelled, whole.2.take k)) ∧
    ∀ signal, (∃ e, pass.collect signal = .error e) ∨
      (pass.collect signal = .ok whole.2 ∧ whole.2.map (·.name) = types.map (·.name)) := by
  intro pass whole types
  have hcut := run_generatePass_eq_cut units config printer
  have hcomplete : ∀ signal n, (pass.run signal).1 = .ok n → pass.run signal = whole := by
    intro signal n hn
    rw [hcut signal] at hn ⊢
    split at hn
    · rfl
    · cases hn
  have hnames : ∀ signal n, (pass.run signal).1 = .ok n →
      n = types.length ∧ (pass.run signal).2.map (·.name) = types.map (·.name) := by
    intro signal n hn
    have hwhole := hcomplete signal n hn
    rw [hwhole] at hn ⊢
    exact names_of_run_generatePass hn
  refine ⟨(yields_discover units config).run, hcut, ?_, hnames,
    fun k => run_afterArtifact units config printer, ?_⟩
  · intro signal
    rw [hcut signal]
    split
    · exact List.prefix_rfl
    · exact List.take_prefix _ _
  · intro signal
    cases hout : (pass.run signal).1 with
    | error e => exact .inl ⟨e, by simp [Pass.collect, hout, Except.map]⟩
    | ok n =>
      have hwhole := hcomplete signal n hout
      refine .inr ⟨?_, hwhole ▸ (hnames signal n hout).2⟩
      rw [hwhole] at hout
      simp [Pass.collect, hwhole, hout, Except.map]

end RowFactory
