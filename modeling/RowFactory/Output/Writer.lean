import RowFactory.Factory.Artifact
import RowFactory.Output.FileTree
import RowFactory.Text.Quoted

namespace RowFactory

def indexFileName : String := "rowmap.rs"

structure Writer where
  directory : String
  /-- The name of the index, if there is to be one. -/
  index : Option String
deriving DecidableEq, Inhabited

def Writer.into (directory : String) : Writer := ⟨directory, some indexFileName⟩

/-- The line of the index that includes one file. -/
def includeLine (hint : String) : List Char :=
  "include!(".toList ++ quoteName hint.toList ++ ");\n".toList

def indexText (hints : List String) : String :=
  String.ofList
    ("// @generated by rowmap-codegen. Do not edit.\n".toList ++ hints.flatMap includeLine)

/-- The files to write, with their texts: the artifacts in order, then the index. -/
def Writer.targets (w : Writer) (artifacts : List Artifact) : List (String × String) :=
  artifacts.map (fun a => (joinPath w.directory a.hint, a.source)) ++
    (w.index.map fun name =>
      (joinPath w.directory name, indexText (artifacts.map (·.hint)))).toList

structure WriteReport where
  /-- The files that were dealt with, in order. -/
  touched : List (String × Touch)
  /-- The file or directory at which writing ended early. -/
  failed : Option String
deriving DecidableEq, Inhabited

/-- How many files were written. -/
def WriteReport.written (r : WriteReport) : Nat := r.touched.countP (·.2 = .written)

/-- Updates files one after another until one fails. -/
def updateAll (t : FileTree) : List (String × String) → WriteReport × FileTree
  | [] => (⟨[], none⟩, t)
  | (path, text) :: rest =>
    match t.update? path text with
    | none => (⟨[], some path⟩, t)
    | some (touch, t) =>
      let (report, t) := updateAll t rest
      (⟨(path, touch) :: report.touched, report.failed⟩, t)

def Writer.write (w : Writer) (artifacts : List Artifact) (t : FileTree) :
    WriteReport × FileTree :=
  match t.makeDirectories w.directory with
  | (t, false) => (⟨[], some w.directory⟩, t)
  | (t, true) => updateAll t (w.targets artifacts)

end RowFactory
