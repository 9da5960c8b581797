import Std.Data.TreeMap

namespace RowFactory

/-- The names on the way from the root of a tree. -/
abbrev Place := List String

inductive FileNode where
  | directory
  | file (content : ByteArray)
deriving Inhabited

/-- What stands at each place below the root, which is a directory. -/
structure FileTree where
  nodes : Std.TreeMap Place FileNode

/-- What a path leads to. -/
inductive Location where
  | directory
  | file (place : Place) (content : ByteArray)
  /-- Nothing yet, in a directory that exists. -/
  | vacant (place : Place)
  | nowhere

def pathNames (path : String) : List String :=
  (path.toList.splitOn '/').map String.ofList

def staysInPlace (name : String) : Bool := name = "" || name = "."

/-- What a file or directory may be called. -/
def isFileName (name : String) : Bool :=
  name.utf8ByteSize ≤ 255 && !name.toList.contains '\x00'

/-- The path without the names at its ends that lead nowhere. -/
def trimPath (path : String) : String :=
  let names := (pathNames path).dropWhile staysInPlace
  "/".intercalate (names.reverse.dropWhile staysInPlace).reverse

/-- A path inside a directory; one that begins with a slash is taken from the root. -/
def joinPath (directory name : String) : String :=
  if name.toList.head? = some '/' || directory.isEmpty then name
  else if directory.toList.getLast? = some '/' then directory ++ name
  else directory ++ "/" ++ name

namespace FileTree

def empty : FileTree := ⟨∅⟩

def node? (t : FileTree) (place : Place) : Option FileNode := t.nodes[place]?

def set (t : FileTree) (place : Place) (n : FileNode) : FileTree := ⟨t.nodes.insert place n⟩

/-- The place and everything below it is gone. -/
def remove (t : FileTree) (place : Place) : FileTree :=
  ⟨t.nodes.filter fun p _ => !place.isPrefixOf p⟩

def walk (t : FileTree) (here : Place) : List String → Location
  | [] => .directory
  | name :: rest =>
    if staysInPlace name then t.walk here rest
    else if name = ".." then
      if here.isEmpty then .nowhere else t.walk here.dropLast rest
    else if !isFileName name then .nowhere
    else
      let next := here ++ [name]
      match t.node? next with
      | some .directory => t.walk next rest
      | some (.file content) => if rest.isEmpty then .file next content else .nowhere
      | none => if rest.isEmpty then .vacant next else .nowhere

def locate (t : FileTree) (path : String) : Location := t.walk [] (pathNames path)

/-- Makes the directories that are missing on the way, and says whether the end was reached. -/
def makeAlong (t : FileTree) (here : Place) : List String → FileTree × Bool
  | [] => (t, true)
  | name :: rest =>
    if staysInPlace name then t.makeAlong here rest
    else if name = ".." then
      if here.isEmpty then (t, false) else t.makeAlong here.dropLast rest
    else if !isFileName name then (t, false)
    else
      let next := here ++ [name]
      match t.node? next with
      | some .directory => t.makeAlong next rest
      | some (.file _) => (t, false)
      | none => (t.set next .directory).makeAlong next rest

def makeDirectories (t : FileTree) (path : String) : FileTree × Bool :=
  if path.toList.contains '\x00' then (t, false) else t.makeAlong [] (pathNames path)

/-- Everything in the tree by its path, in the order of the paths' characters. -/
def listing (t : FileTree) : List (String × FileNode) :=
  (t.nodes.toList.map fun (place, n) => ("/".intercalate place, n)).mergeSort
    fun a b => a.1 ≤ b.1

end FileTree

/-- Whether a file had to be written. -/
inductive Touch where
  | written
  | unchanged
deriving DecidableEq, Inhabited

/-- Gives a file the text, unless it has it already. Fails where no file can be, or where there is
one that holds no text. -/
def FileTree.update? (t : FileTree) (path text : String) : Option (Touch × FileTree) :=
  match t.locate path with
  | .vacant place => some (.written, t.set place (.file text.toUTF8))
  | .file place content =>
    (String.fromUTF8? content).map fun old =>
      if old = text then (.unchanged, t) else (.written, t.set place (.file text.toUTF8))
  | .directory | .nowhere => none

end RowFactory
