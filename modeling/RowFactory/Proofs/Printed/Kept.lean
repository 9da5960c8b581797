import RowFactory.Proofs.Printed.Embedded
import RowFactory.Proofs.Printed.Lists
import RowFactory.Proofs.Source.ReadsClause

namespace RowFactory

open RowFactory.Parser RowFactory.Grammar

section

variable {plus : Bool} {j rest : List Token}

theorem typeEnds_nil : TypeEnds plus j [] where
  segment := rfl
  angle := rfl
  round := rfl
  bracket := rfl
  call := rfl
  arrow := rfl
  mark := rfl
  plus := nofun
  bound := nofun

/-- A type ends in front of these signs. -/
theorem typeEnds_punct {c : Char} (hc : c ∈ [',', '>', ';', '=', ':']) :
    TypeEnds plus j (.punct c false :: rest) := by
  simp only [List.mem_cons, List.not_mem_nil, or_false] at hc
  rcases hc with rfl | rfl | rfl | rfl | rfl <;>
    exact ⟨⟨rfl, rfl⟩, rfl, rfl, rfl, rfl, rfl, nofun, nofun⟩

/-- A bound ends in front of braces. -/
theorem typeEnds_brace (body : List Token) : TypeEnds plus j (.group .brace body :: rest) :=
  ⟨⟨rfl, rfl⟩, rfl, rfl, rfl, rfl, rfl, nofun, nofun⟩

theorem EndsParam.typeEnds (h : EndsParam rest) : TypeEnds plus j rest := by
  cases h <;> exact typeEnds_punct (by decide)

theorem Grammar.EndsFnParam.typeEnds (h : EndsFnParam rest) : TypeEnds plus j rest := by
  cases h with
  | comma rest => exact typeEnds_punct (by decide)
  | none => exact typeEnds_nil

/-- A bound ends in front of a `+` if one stood behind it. -/
theorem typeEnds_plus (hj : isOperator "+" j = true) (hrest : isOperator "+" rest = true) :
    TypeEnds false j rest := by
  match rest with
  | .punct c joint :: ts =>
    obtain rfl : '+' = c := by simpa [isOperator, startsOperator] using hrest
    cases joint <;> refine ⟨⟨?_, ?_⟩, ?_, ?_, ?_, ?_, ?_, fun _ => ⟨rfl, hj⟩, ?_⟩ <;>
      simp [beforeSegment, beforeAngle, beforeRound, startsBound, isOperator, startsOperator,
        isGroup, isAnyIdent, isLifetime]
  | [] | .ident _ :: _ | .lifetime _ :: _ | .literal _ :: _ | .group _ _ :: _ => cases hrest

/-- The word between a type and its trait ends the type. -/
theorem typeEnds_as (hj : startsBound j = true) : TypeEnds plus j (.word "as" :: rest) := by
  refine ⟨⟨?_, ?_⟩, ?_, ?_, ?_, ?_, ?_, ?_, fun _ => hj⟩ <;>
    simp [beforeSegment, beforeAngle, beforeRound, isOperator, startsOperator, isGroup, Token.word]

theorem TypeEnds.weaken (h : TypeEnds plus j rest) : TypeEnds false j rest :=
  { h with plus := fun hrest => ⟨rfl, (h.plus hrest).2⟩ }

/-- Where no `+` was left, none goes on with the type. -/
theorem TypeEnds.plus_eq_false (h : TypeEnds plus j rest) (hj : isOperator "+" j = false) :
    isOperator "+" rest = false :=
  Bool.eq_false_iff.mpr fun hrest => by simp [(h.plus hrest).2] at hj

theorem TypeEnds.colons (h : TypeEnds plus j rest) : isOperator "::" rest = false := by
  have hsegment := h.segment
  have hround := h.round
  simp only [beforeSegment, beforeRound, Bool.or_eq_false_iff] at hsegment hround
  cases hcolons : isOperator "::" rest with
  | false => rfl
  | true =>
    rw [hcolons, Bool.true_and] at hsegment hround
    simp [hround.2] at hsegment

end

/-- Whatever is deep enough reads the tokens as `a`, up to where `Ends` holds, if what is embedded
in them is read back. -/
def ReadsAgain {α : Type} (p : Grammar → Parser α) (Ends : List Token → Prop) (ts : List Token)
    (embedded : List Embedded) (a : α) : Prop :=
  ∀ n, Token.sizeAll ts ≤ n → (∀ e ∈ embedded, e.IsReadBack) → ∀ rest, Ends rest →
    (p (atDepth n)).Reads (ts ++ rest) rest (· = a)

/-- The bound stands in parentheses, and what is read there is the bound, or a type that is. -/
def Bound.IsKeptInParens (b : Bound) : Prop :=
  ∃ content, b.tokens = [.group .paren content] ∧
    ∀ n, Token.sizeAll content < n → (∀ e ∈ b.embedded, e.IsReadBack) →
      ∃ ty, (atDepth n).parenContent.Reads content [] (· = ty) ∧
        (ty = .object false [b.ordered] false ∨
          ∃ first, ty = .paren first ∧ parenBound? first = some b.ordered)

/-- What is written for a type that was read from `i` up to `j` begins as `i` does, where it matters
what begins there. -/
structure Ty.KeepsFront (plus : Bool) (i : List Token) (ty : Ty) (j : List Token) : Prop where
  /-- Only a type that was read from a lifetime on is written so. -/
  lifetime : isLifetime ty.tokens = true → isLifetime i = true
  binder : isWord "for" ty.tokens = true → isWord "for" i = true
  /-- Only a name is written as a name. -/
  name : ∀ name : Ident, name.isKeyword = false → ty.tokens = [.ident name] →
    i = .ident name :: j
  /-- Only what began as parameters do is written so. -/
  generics : isOperator "<" ty.tokens = true → (∀ e ∈ ty.embedded plus, e.IsReadBack) →
    ∀ rest, startsGenerics (ty.tokens ++ rest) = true → startsGenerics i = true

/-- A type that was read from `i` up to `j` is read back. -/
structure Ty.IsKept (plus : Bool) (i : List Token) (ty : Ty) (j : List Token) : Prop
    extends Ty.KeepsFront plus i ty j where
  again : ReadsAgain (·.oneType plus) (TypeEnds plus j) ty.tokens (ty.embedded plus) ty.ordered
  /-- What the type is as a bound is read back for that. -/
  bound : plus = true → ∀ b, parenBound? ty = some b → b.IsKeptInParens

/-- A bound that was read up to `j` is read back, and begins as `starts` says. -/
def Bound.IsKept (bound : Grammar → Parser Bound) (starts : List Token → Bool) (b : Bound)
    (j : List Token) : Prop :=
  ∀ n, Token.sizeAll b.tokens ≤ n → (∀ e ∈ b.embedded, e.IsReadBack) → ∀ rest,
    TypeEnds false j rest →
    (bound (atDepth n)).Reads (b.tokens ++ rest) rest (· = b.ordered) ∧
      starts (b.tokens ++ rest) = true

/-- What has been read with the grammar is read back. -/
structure Grammar.Keeps (g : Grammar) : Prop where
  type : ∀ {plus i ty j}, (g.type plus).Gives i ty j → ty.IsKept plus i j
  bound : ∀ {i b j}, g.bound.Gives i b j → b.IsKept (·.oneBound true) startsOpaqueBound j
  param : ∀ {i p j}, g.param.Gives i (.lifetime p) j →
    ReadsAgain genericParam EndsParam p.tokens (Attribute.allEmbedded p.attrs) (.lifetime p)

theorem Ty.IsKept.reads {plus : Bool} {i j rest : List Token} {ty : Ty} (h : ty.IsKept plus i j)
    {n : Nat} (hsize : Token.sizeAll ty.tokens < n) (hes : ∀ e ∈ ty.embedded plus, e.IsReadBack)
    (hrest : TypeEnds plus j rest) :
    ((atDepth n).type plus).Reads (ty.tokens ++ rest) rest (· = ty.ordered) := by
  obtain ⟨n, rfl⟩ := Nat.exists_eq_add_one.mpr (Nat.zero_lt_of_lt hsize)
  exact Reads.writtenAs _ (h.again n (Nat.le_of_lt_succ hsize) hes rest hrest)

theorem Bound.IsKept.reads {j rest : List Token} {b : Bound}
    (h : b.IsKept (·.oneBound true) startsOpaqueBound j)
    {n : Nat} (hsize : Token.sizeAll b.tokens < n) (hes : ∀ e ∈ b.embedded, e.IsReadBack)
    (hrest : TypeEnds false j rest) :
    (atDepth n).bound.Reads (b.tokens ++ rest) rest (· = b.ordered) ∧
      startsOpaqueBound (b.tokens ++ rest) = true := by
  obtain ⟨n, rfl⟩ := Nat.exists_eq_add_one.mpr (Nat.zero_lt_of_lt hsize)
  obtain ⟨hread, hstarts⟩ := h n (Nat.le_of_lt_succ hsize) hes rest hrest
  exact ⟨Reads.writtenAs _ hread, hstarts⟩

end RowFactory
