import RowFactory.Text.Blank

namespace RowFactory

/-- Names are kept without `r#`. The empty path stands for a place that is not known. -/
structure ModulePath where
  segments : List String
deriving DecidableEq, Hashable, Inhabited

/-- Every `r#` in front is dropped. -/
def dropRawMarks : List Char → List Char
  | 'r' :: '#' :: cs => dropRawMarks cs
  | cs => cs

/-- The words of a path given as text: between `::`, without blanks around them. -/
def pathWords (text : String) : List (List Char) :=
  (splitColons text.toList).map trimBlank

namespace ModulePath

def root : ModulePath := ⟨["crate"]⟩

/-- A path that does not begin at the root is taken to be below it. -/
def anchored (segments : List String) : ModulePath :=
  if segments.head? = some "crate" then ⟨segments⟩ else ⟨"crate" :: segments⟩

/-- The path that a text such as `a::b` or `crate::a::b` names. Empty words count for nothing. -/
def ofText (text : String) : ModulePath :=
  anchored <| ((pathWords text).map dropRawMarks |>.filter (!·.isEmpty)).map String.ofList

def child (m : ModulePath) (name : String) : ModulePath := ⟨m.segments ++ [name]⟩

/-- The enclosing module; neither the root nor the empty path has one. -/
def parent? (m : ModulePath) : Option ModulePath :=
  if m.segments.length < 2 then none else some ⟨m.segments.dropLast⟩

def isEmpty (m : ModulePath) : Bool := m.segments.isEmpty

def text (m : ModulePath) : String := "::".intercalate m.segments

/-- The enclosing modules, innermost first. -/
def parents (m : ModulePath) : List ModulePath :=
  ((List.range m.segments.length).drop 1).reverse.map fun n => ⟨m.segments.take n⟩

end ModulePath

end RowFactory
