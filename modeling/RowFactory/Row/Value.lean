import RowFactory.Text.Decimal

namespace RowFactory

inductive Value where
  | null
  | bool (b : Bool)
  | int (n : Int64)
  | uint (n : UInt64)
  | float (x : Float)
  | text (s : String)
  | bytes (bs : List UInt8)
deriving BEq, Inhabited

namespace Value

/-- The name of a value's form in messages. -/
def kind : Value → String
  | .null => "null"
  | .bool _ => "bool"
  | .int _ => "int"
  | .uint _ => "uint"
  | .float _ => "float"
  | .text _ => "text"
  | .bytes _ => "bytes"

def isNull : Value → Bool
  | .null => true
  | _ => false

/-- The number of a whole value. -/
def integer? : Value → Option Int
  | .int n => some n.toInt
  | .uint n => some n.toNat
  | _ => none

end Value

end RowFactory
