import RowFactory.Name.QualifiedName

namespace RowFactory

structure Artifact where
  name : QualifiedName
  /-- The name of the file that the text goes to. -/
  hint : String
  source : String
deriving DecidableEq, Inhabited

/-- The first line of every generated text. -/
def artifactHeader (name : QualifiedName) : String :=
  "// @generated by rowmap-codegen from " ++ name.text ++ ". Do not edit."

end RowFactory
