import RowFactory.Row.Conversion
import Std.Data.HashMap
import Std.Data.TreeMap

namespace RowFactory

/-- A row reads a column as a type of a family, or says why it cannot. -/
structure RowOf {τ : Type} (Carrier : τ → Type) (ε : Type) where
  get : (t : τ) → String → Except ε (Carrier t)

/-- A row that reads its columns as the types of targets. -/
abbrev Row (ε : Type) := RowOf Target.Carrier ε

inductive RowError where
  | missingColumn (column : String)
  | conversion (column : String) (source : ValueError)
deriving DecidableEq, Inhabited

namespace RowError

def column : RowError → String
  | .missingColumn c => c
  | .conversion c _ => c

def message : RowError → String
  | .missingColumn c => "column `" ++ c ++ "` is not present in the row"
  | .conversion c source => "column `" ++ c ++ "` could not be converted: " ++ source.message

end RowError

/-- How values are converted to the types of a family. -/
abbrev ConversionOf {τ : Type} (Carrier : τ → Type) :=
  (t : τ) → Value → Except ValueError (Carrier t)

namespace RowOf

variable {τ : Type} {Carrier : τ → Type}

/-- A row that looks its columns up and converts what it finds. -/
def ofLookup (convert : ConversionOf Carrier) (lookup : String → Option Value) :
    RowOf Carrier RowError where
  get t column :=
    match lookup column with
    | none => .error (.missingColumn column)
    | some v => (convert t v).mapError (.conversion column)

/-- A reference to a row is read as the row is. -/
def reference {ε : Type} (row : RowOf Carrier ε) : RowOf Carrier ε := ⟨fun t => row.get t⟩

/-- A hash map from names to values. -/
def ofHashMap (convert : ConversionOf Carrier) (m : Std.HashMap String Value) :
    RowOf Carrier RowError :=
  .ofLookup convert (m[·]?)

/-- An ordered map from names to values. -/
def ofTreeMap (convert : ConversionOf Carrier) (m : Std.TreeMap String Value) :
    RowOf Carrier RowError :=
  .ofLookup convert (m[·]?)

end RowOf

structure Record where
  columns : List (String × Value)
deriving BEq, Inhabited

namespace Record

def empty : Record := ⟨[]⟩

/-- The value of the first column with the name. -/
def value? (r : Record) (column : String) : Option Value := r.columns.lookup column

/-- The column's value is replaced in its place, or the column is added at the end. -/
def replace (column : String) (v : Value) : List (String × Value) → List (String × Value)
  | [] => [(column, v)]
  | (c, old) :: rest => if c = column then (c, v) :: rest else (c, old) :: replace column v rest

/-- The record with the column set, and the value that the column had. -/
def insert (r : Record) (column : String) (v : Value) : Record × Option Value :=
  (⟨replace column v r.columns⟩, r.value? column)

def set (r : Record) (column : String) (v : Value) : Record := (r.insert column v).1

def ofList (columns : List (String × Value)) : Record :=
  columns.foldl (fun r (c, v) => r.set c v) empty

def names (r : Record) : List String := r.columns.map (·.1)

def size (r : Record) : Nat := r.columns.length

def isEmpty (r : Record) : Bool := r.columns.isEmpty

def rowOf {τ : Type} {Carrier : τ → Type} (convert : ConversionOf Carrier) (r : Record) :
    RowOf Carrier RowError :=
  .ofLookup convert r.value?

def row (r : Record) : Row RowError := r.rowOf convert

end Record

/-- What a list of columns may be collected in to be read as a row. -/
inductive RowKind where
  | record
  | recordReference
  | hashMap
  | treeMap
deriving DecidableEq, Inhabited

/-- The row of a list of columns; a later column replaces an earlier one of the same name. -/
def RowKind.rowOf {τ : Type} {Carrier : τ → Type} (convert : ConversionOf Carrier) (kind : RowKind)
    (columns : List (String × Value)) : RowOf Carrier RowError :=
  match kind with
  | .record => (Record.ofList columns).rowOf convert
  | .recordReference => ((Record.ofList columns).rowOf convert).reference
  | .hashMap => .ofHashMap convert (columns.foldl (fun m (c, v) => m.insert c v) ∅)
  | .treeMap => .ofTreeMap convert (columns.foldl (fun m (c, v) => m.insert c v) ∅)

def RowKind.row (kind : RowKind) (columns : List (String × Value)) : Row RowError :=
  kind.rowOf convert columns

end RowFactory
