import RowFactory.Row.Value

namespace RowFactory

inductive IntegerType where
  | i8 | i16 | i32 | i64 | i128 | isize
  | u8 | u16 | u32 | u64 | u128 | usize
deriving DecidableEq, Inhabited

namespace IntegerType

def all : List IntegerType :=
  [.i8, .i16, .i32, .i64, .i128, .isize, .u8, .u16, .u32, .u64, .u128, .usize]

def name : IntegerType → String
  | .i8 => "i8"
  | .i16 => "i16"
  | .i32 => "i32"
  | .i64 => "i64"
  | .i128 => "i128"
  | .isize => "isize"
  | .u8 => "u8"
  | .u16 => "u16"
  | .u32 => "u32"
  | .u64 => "u64"
  | .u128 => "u128"
  | .usize => "usize"

def isSigned : IntegerType → Bool
  | .i8 | .i16 | .i32 | .i64 | .i128 | .isize => true
  | _ => false

def bits : IntegerType → Nat
  | .i8 | .u8 => 8
  | .i16 | .u16 => 16
  | .i32 | .u32 => 32
  | .i64 | .u64 | .isize | .usize => 64
  | .i128 | .u128 => 128

def least (t : IntegerType) : Int :=
  if t.isSigned then -(Nat.pow 2 (t.bits - 1) : Int) else 0

def greatest (t : IntegerType) : Int :=
  (Nat.pow 2 (if t.isSigned then t.bits - 1 else t.bits) : Int) - 1

/-- The numbers of the type. -/
def contains (t : IntegerType) (n : Int) : Bool := t.least ≤ n && n ≤ t.greatest

end IntegerType

inductive Target where
  | bool
  | integer (t : IntegerType)
  | single
  | double
  | text
  | bytes
  | value
  | option (t : Target)
deriving DecidableEq, Inhabited

namespace Target

/-- What a conversion to the target yields. -/
@[reducible] def Carrier : Target → Type
  | .bool => Bool
  | .integer t => { n : Int // t.contains n }
  | .single => Float32
  | .double => Float
  | .text => String
  | .bytes => List UInt8
  | .value => Value
  | .option t => Option t.Carrier

/-- What a field of the type holds before anything is assigned. -/
def default : (t : Target) → t.Carrier
  | .bool => false
  | .integer t => ⟨0, by cases t <;> decide⟩
  | .single => 0
  | .double => 0
  | .text => ""
  | .bytes => []
  | .value => Value.null
  | .option _ => none

end Target

inductive ValueError where
  | typeMismatch (expected found : String)
  | outOfRange (value : String) (target : String)
deriving DecidableEq, Inhabited

def ValueError.message : ValueError → String
  | .typeMismatch expected found => "expected " ++ expected ++ ", found " ++ found
  | .outOfRange value target => "value " ++ value ++ " is out of range for " ++ target

def ValueError.mismatch (expected : String) (found : Value) : ValueError :=
  .typeMismatch expected found.kind

/-- A whole value of the right range. -/
def convertInteger (t : IntegerType) (v : Value) : Except ValueError { n : Int // t.contains n } :=
  match v.integer? with
  | some n =>
    if h : t.contains n then .ok ⟨n, h⟩
    else .error (.outOfRange (String.ofList (intText n)) t.name)
  | none => .error (.mismatch t.name v)

/-- A number as a double; a whole one is rounded to the nearest. -/
def convertDouble : Value → Except ValueError Float
  | .float x => .ok x
  | .int n => .ok n.toFloat
  | .uint n => .ok n.toFloat
  | v => .error (.mismatch "f64" v)

/-- The value as the target has it. A single is rounded from a double, and its errors speak of
one. -/
def convert : (t : Target) → Value → Except ValueError t.Carrier
  | .bool, .bool b => .ok b
  | .bool, v => .error (.mismatch "bool" v)
  | .integer t, v => convertInteger t v
  | .double, v => convertDouble v
  | .single, v => (convertDouble v).map Float.toFloat32
  | .text, .text s => .ok s
  | .text, v => .error (.mismatch "String" v)
  | .bytes, .bytes bs => .ok bs
  | .bytes, v => .error (.mismatch "Vec<u8>" v)
  | .value, v => .ok v
  | .option _, .null => .ok none
  | .option t, v => (convert t v).map some

/-- The value that stands for a typed one, for the types that have one. -/
def Value.ofTyped? : (t : Target) → t.Carrier → Option Value
  | .bool, b => some (.bool b)
  | .integer t, n =>
    match t with
    | .i8 | .i16 | .i32 | .i64 => some (.int (Int64.ofInt n.val))
    | .u8 | .u16 | .u32 | .u64 => some (.uint (UInt64.ofNat n.val.toNat))
    | _ => none
  | .single, x => some (.float x.toFloat)
  | .double, x => some (.float x)
  | .text, s => some (.text s)
  | .bytes, bs => some (.bytes bs)
  | .value, v => some v
  | .option _, none => some .null
  | .option t, some x => Value.ofTyped? t x

end RowFactory
