import RowFactory.Factory.Artifact

namespace RowFactory

inductive GenerationError where
  | cancelled
  /-- The factory of a type cannot be printed. -/
  | render (name : QualifiedName)
  /-- A name that cannot stand where it must: a module's that is no identifier, or a blank as the
  only parameter. -/
  | unnameable (name : String)
deriving DecidableEq

/-- Whether the token is cancelled when a check is made, given how many checks were made before it
and how many artifacts have been handed over. -/
abbrev Signal := Nat → Nat → Bool

def Signal.never : Signal := fun _ _ => false

def Signal.always : Signal := fun _ _ => true

/-- Cancelled by whoever receives the artifacts, on receiving the one with the given number. -/
def Signal.afterArtifact (n : Nat) : Signal := fun _ delivered => n ≠ 0 && n ≤ delivered

structure Progress where
  checks : Nat
  delivered : List Artifact
deriving Inhabited

def Progress.start : Progress := ⟨0, []⟩

abbrev Pass := ReaderT Signal (ExceptT GenerationError (StateM Progress))

namespace Pass

/-- Stops the pass if its token is cancelled. -/
def check : Pass Unit := do
  let signal ← read
  let p ← getThe Progress
  set { p with checks := p.checks + 1 }
  if signal p.checks p.delivered.length then throw .cancelled

def deliver (a : Artifact) : Pass Unit :=
  modifyThe Progress fun p => { p with delivered := p.delivered ++ [a] }

/-- The outcome, and what was handed over before it. -/
def run {α : Type} (p : Pass α) (signal : Signal) : Except GenerationError α × List Artifact :=
  let (outcome, progress) := (ReaderT.run p signal).run Progress.start
  (outcome, progress.delivered)

/-- All that was handed over, or the first error. -/
def collect {α : Type} (p : Pass α) (signal : Signal) : Except GenerationError (List Artifact) :=
  let (outcome, artifacts) := p.run signal
  outcome.map fun _ => artifacts

end Pass

end RowFactory
