import RowFactory.Text.Decimal

namespace RowFactory

/-- The fraction is greater than `num / den`. -/
def Fraction.exceeds (x : Fraction) (num den : Nat) : Bool := num * x.den < x.num * den

/-- Equal characters match if their positions are no further apart than this. -/
def matchReach (a b : List Char) : Nat := max a.length b.length / 2 - 1

/-- The first position in `b` that matches the character `c` at position `i` and is not taken. -/
def partner? (reach : Nat) (b : List Char) (taken : List Nat) (i : Nat) (c : Char) : Option Nat :=
  (List.range b.length).find? fun j =>
    i ≤ j + reach && j ≤ i + reach && b[j]? = some c && !taken.contains j

/-- The characters that have a partner in `b`, each with the partner's position. The characters
begin at position `i`, and each takes the first partner left. -/
def partnersFrom (reach : Nat) (b : List Char) (taken : List Nat) (i : Nat) :
    List Char → List (Char × Nat)
  | [] => []
  | c :: cs =>
    match partner? reach b taken i c with
    | some j => (c, j) :: partnersFrom reach b (j :: taken) (i + 1) cs
    | none => partnersFrom reach b taken (i + 1) cs

/-- The mean of three shares: of each word that is matched, and of the matches that come in the
same order in both words. -/
def jaroSimilarity (a b : List Char) : Fraction :=
  let partners := partnersFrom (matchReach a b) b [] 0 a
  let positions := partners.map (·.2)
  let matched := (b.zipIdx.filter fun (_, j) => positions.contains j).map (·.1)
  let displaced := ((partners.map (·.1)).zip matched).countP fun (c, d) => c != d
  let m := partners.length
  if m = 0 then ⟨0, 1⟩
  else
    ⟨m * m * b.length + m * m * a.length + (m - displaced / 2) * a.length * b.length,
      3 * m * a.length * b.length⟩

/-- The length of the common beginning. -/
def commonStart : List Char → List Char → Nat
  | c :: cs, d :: ds => if c = d then commonStart cs ds + 1 else 0
  | _, _ => 0

/-- Words that are alike to begin with gain a tenth of the difference for each of at most four
characters that they begin with in common. -/
def similarity (a b : List Char) : Fraction :=
  let s := jaroSimilarity a b
  if s.exceeds 7 10 then
    ⟨10 * s.num + min 4 (commonStart a b) * (s.den - s.num), 10 * s.den⟩
  else s

/-- So much alike that one may have been meant for the other. -/
def isNearMiss (a b : String) : Bool := (similarity a.toList b.toList).exceeds 4 5

end RowFactory
