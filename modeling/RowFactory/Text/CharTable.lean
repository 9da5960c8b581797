namespace RowFactory

/-- Closed intervals of code points. -/
abbrev CharTable := List (Nat × Nat)

/-- A character belongs to a table if its code point lies in one of the intervals. -/
def CharTable.contains (table : CharTable) (c : Char) : Bool :=
  table.any fun interval => interval.1 ≤ c.toNat && c.toNat ≤ interval.2

end RowFactory
