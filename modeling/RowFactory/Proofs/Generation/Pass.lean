import RowFactory.Generation.Pass

namespace RowFactory

namespace Pass

variable {α β : Type}

/-- The outcome of a pass that continues another, which made some progress. -/
def runFrom (p : Pass α) (signal : Signal) (start : Progress) :
    Except GenerationError α × Progress :=
  (ReaderT.run p signal).run start

theorem runFrom_bind (p : Pass α) (f : α → Pass β) (signal : Signal) (start : Progress) :
    (p >>= f).runFrom signal start =
      match p.runFrom signal start with
      | (.ok a, progress) => (f a).runFrom signal progress
      | (.error e, progress) => (.error e, progress) := by
  change (match p.runFrom signal start with
    | (r, progress) => (ExceptT.bindCont (fun a => ReaderT.run (f a) signal) r).run progress) = _
  rcases p.runFrom signal start with ⟨_ | _, progress⟩ <;> rfl

theorem runFrom_check (signal : Signal) (start : Progress) :
    check.runFrom signal start =
      (if signal start.checks start.delivered.length then .error .cancelled else .ok (),
        { start with checks := start.checks + 1 }) := by
  change ((if signal start.checks start.delivered.length = true then throw .cancelled
    else pure () : Pass Unit).runFrom signal { start with checks := start.checks + 1 }) = _
  cases signal start.checks start.delivered.length <;> rfl

/-- Without cancellation the pass returns `a` and hands nothing over. -/
def Yields (p : Pass α) (a : α) : Prop :=
  ∀ start, ∃ checks, p.runFrom .never start = (.ok a, ⟨checks, start.delivered⟩)

theorem yields_pure (a : α) : (pure a : Pass α).Yields a :=
  fun start => ⟨start.checks, rfl⟩

theorem Yields.bind {p : Pass α} {a : α} {f : α → Pass β} {b : β} (hp : p.Yields a)
    (hf : (f a).Yields b) : (p >>= f).Yields b := by
  intro start
  obtain ⟨n, hn⟩ := hp start
  obtain ⟨k, hk⟩ := hf ⟨n, start.delivered⟩
  exact ⟨k, by rw [runFrom_bind, hn]; exact hk⟩

theorem yields_check : check.Yields () :=
  fun start => ⟨start.checks + 1, by simp [runFrom_check, Signal.never]⟩

theorem yields_forM_check (xs : List β) : (xs.forM fun _ => check).Yields () := by
  induction xs with
  | nil => exact yields_pure ()
  | cons x rest ih => exact yields_check.bind ih

theorem Yields.run {p : Pass α} {a : α} (h : p.Yields a) : p.run .never = (.ok a, []) := by
  obtain ⟨n, hn⟩ := h .start
  change ((p.runFrom .never .start).1, (p.runFrom .never .start).2.delivered) = _
  rw [hn]
  rfl

end Pass

end RowFactory
