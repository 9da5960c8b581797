namespace RowFactory

def natDigits (n : Nat) : List Char := Nat.toDigits 10 n

def intText (n : Int) : List Char :=
  if n < 0 then '-' :: natDigits n.natAbs else natDigits n.natAbs

/-- A whole number with its sign, a plus included. -/
def signedText (n : Int) : List Char :=
  if n < 0 then intText n else '+' :: intText n

/-- The number written by decimal digits, the first of which counts most. -/
def digitsValue (ds : List Char) : Nat :=
  ds.foldl (fun n c => 10 * n + (c.toNat - '0'.toNat)) 0

/-- The number `digits · 10 ^ exponent`. -/
structure Decimal where
  digits : Nat
  exponent : Int
deriving DecidableEq, Inhabited

/-- The fraction `num / den`. -/
structure Fraction where
  num : Nat
  den : Nat

/-- The fraction `a · 2 ^ e`. -/
def Fraction.ofBinary (a : Nat) (e : Int) : Fraction :=
  if 0 ≤ e then ⟨a * Nat.pow 2 e.toNat, 1⟩ else ⟨a, Nat.pow 2 (-e).toNat⟩

/-- Measured in units of `10 ^ k`. -/
def Fraction.inTens (x : Fraction) (k : Int) : Fraction :=
  if 0 ≤ k then ⟨x.num, x.den * Nat.pow 10 k.toNat⟩
  else ⟨x.num * Nat.pow 10 (-k).toNat, x.den⟩

/-- The numbers that are read as one and the same binary fraction: its value and the ends of the
interval, which belong to it or not. -/
structure Rounding where
  value : Fraction
  low : Fraction
  high : Fraction
  closed : Bool

/-- The rounding interval of `m · 2 ^ e`. Below a power of two the next fraction is half as far
away, unless the power is the least one. -/
def Rounding.ofBinary (m : Nat) (e : Int) (narrow : Bool) : Rounding :=
  { value := .ofBinary (4 * m) (e - 2)
    low := .ofBinary (4 * m - (if narrow then 1 else 2)) (e - 2)
    high := .ofBinary (4 * m + 2) (e - 2)
    closed := m % 2 = 0 }

/-- Whether `n` units of `10 ^ k` lie in the interval. -/
def Rounding.admits (r : Rounding) (k : Int) (n : Nat) : Bool :=
  let low := r.low.inTens k
  let high := r.high.inTens k
  if r.closed then low.num ≤ n * low.den && n * high.den ≤ high.num
  else low.num < n * low.den && n * high.den < high.num

/-- The whole number of units of `10 ^ k` in the interval that is nearest the value, the even one
of two. -/
def Rounding.nearest? (r : Rounding) (k : Int) : Option Nat :=
  let v := r.value.inTens k
  let below := v.num / v.den
  let rest := 2 * (v.num % v.den)
  let upFirst := v.den < rest || (rest = v.den && below % 2 = 1)
  let order := if upFirst then [below + 1, below] else [below, below + 1]
  order.find? fun n => n != 0 && r.admits k n

/-- The coarsest grid from `10 ^ k` down that has a point in the interval. -/
def Rounding.shortestFrom (r : Rounding) : Nat → Int → Decimal
  | 0, k => ⟨0, k⟩
  | fuel + 1, k =>
    match r.nearest? k with
    | some n => ⟨n, k⟩
    | none => r.shortestFrom fuel (k - 1)

/-- The shortest decimal that is read as `m · 2 ^ e`, for `m` of at most 53 binary digits. -/
def shortestDecimal (m : Nat) (e : Int) (narrow : Bool) : Decimal :=
  let bits : Int := m.log2 + 1 + e
  let top := Int.fdiv (bits * 30103) 100000 + 2
  (Rounding.ofBinary m e narrow).shortestFrom 25 top

/-- A decimal with a point or an exponent: positional from a hundred-thousandth up to sixteen
digits before the point. -/
def Decimal.text (d : Decimal) : List Char :=
  let ds := natDigits d.digits
  let point : Int := ds.length + d.exponent
  if 0 ≤ d.exponent && point ≤ 16 then
    ds ++ List.replicate d.exponent.toNat '0' ++ ['.', '0']
  else if 0 < point && point ≤ 16 then
    ds.take point.toNat ++ '.' :: ds.drop point.toNat
  else if -5 < point && point ≤ 0 then
    ['0', '.'] ++ List.replicate (-point).toNat '0' ++ ds
  else
    ds.take 1 ++ (if ds.length = 1 then [] else '.' :: ds.drop 1) ++ 'e' :: signedText (point - 1)

/-- The mantissa and exponent of a finite double of at least zero given by its bits, and whether
the double below it is nearer than the one above. -/
def decodeDouble (bits : Nat) : Nat × Int × Bool :=
  let fraction : Nat := bits % Nat.pow 2 52
  let biased : Nat := bits / Nat.pow 2 52 % Nat.pow 2 11
  if biased = 0 then (fraction, -1074, false)
  else (fraction + Nat.pow 2 52, (biased : Int) - 1075, fraction = 0 && 1 < biased)

/-- The shortest decimal text that is read back as the finite double with the given bits. -/
def doubleText (bits : UInt64) : List Char :=
  let n := bits.toNat
  let sign := if Nat.pow 2 63 ≤ n then ['-'] else []
  let (m, e, narrow) := decodeDouble (n % Nat.pow 2 63)
  sign ++ if m = 0 then ['0', '.', '0'] else (shortestDecimal m e narrow).text

end RowFactory
