import RowFactory.Text.CharTable

namespace RowFactory

/-- The code points of the property White_Space. -/
def blankTable : CharTable :=
  [(9, 13), (32, 32), (133, 133), (160, 160), (5760, 5760), (8192, 8202), (8232, 8233),
    (8239, 8239), (8287, 8287), (12288, 12288)]

def isBlank (c : Char) : Bool := blankTable.contains c

/-- Blanks at both ends are dropped. -/
def trimBlank (cs : List Char) : List Char :=
  ((cs.dropWhile isBlank).reverse.dropWhile isBlank).reverse

/-- The words between the separators `::`, read from the left; there is one more word than
there are separators. -/
def splitColons : List Char → List (List Char)
  | [] => [[]]
  | [c] => [[c]]
  | c :: d :: rest =>
    if c = ':' ∧ d = ':' then [] :: splitColons rest
    else match splitColons (d :: rest) with
      | [] => [[c]]
      | word :: words => (c :: word) :: words

end RowFactory
