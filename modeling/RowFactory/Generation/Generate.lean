import RowFactory.Factory.Pretty
import RowFactory.Scan.Discovery

namespace RowFactory

/-- The artifact of one type with the given bindings. -/
def emit (t : AnnotatedType) (bindings : List ColumnBinding) (runtime : Path)
    (printer : Printer) : Except GenerationError Artifact :=
  match Factory.ofType? t bindings runtime with
  | .error (.unnameable segment) => .error (.unnameable segment)
  | .error (.reserved _) => .error (.render t.name)
  | .ok factory =>
    match printer.print factory with
    | .ok text => .ok ⟨t.name, t.name.hintName, artifactHeader t.name ++ "\n" ++ text⟩
    | .error .invalid => .error (.render t.name)
    | .error .stray => .error (.unnameable "_")

/-- Generates for one type, which yields an artifact or nothing. -/
def generateType (config : Config) (printer : Printer) (t : AnnotatedType) : Pass Unit := do
  Pass.check
  let bindings ← bindMembers t.members
  Pass.check
  let artifact ← liftExcept (emit t bindings config.runtime printer)
  Pass.deliver artifact
where
  liftExcept {α : Type} : Except GenerationError α → Pass α
    | .ok a => return a
    | .error e => throw e

/-- The whole pass, and the number of artifacts it hands over. -/
def generatePass (units : List SourceUnit) (config : Config) (printer : Printer) : Pass Nat := do
  let types ← discover units config
  types.forM (generateType config printer)
  return types.length

/-- All artifacts of the units, or the first error. -/
def generate (units : List SourceUnit) (config : Config) (printer : Printer) :
    Except GenerationError (List Artifact) :=
  (generatePass units config printer).collect .never

end RowFactory
