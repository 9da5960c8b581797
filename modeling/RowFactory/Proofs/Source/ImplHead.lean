import RowFactory.Proofs.Source.Reads
import RowFactory.Source.ItemGrammar

namespace RowFactory

open RowFactory.Parser

/-- An `impl` block up to its braces. -/
structure ImplHead where
  generics : Generics
  isConst : Bool
  /-- The trait where there is one, else what the items belong to. -/
  first : Ty
  /-- What has the trait. -/
  target : Option Ty

/-- The item that a block is, by what stands before its braces. -/
def ImplHead.item (h : ImplHead) (visibility : Visibility) (items : List ImplItem) :
    Item :=
  let named := match h.first with
    | .path none _ _ _ => true
    | _ => false
  if h.isConst || visibility != .inherited || (h.target.isSome && !named) then .verbatim
  else if h.target.isSome then .unnamed
  else .inherentImpl h.first items

namespace Grammar

variable (g : Grammar)

/-- The parameters that a block declares. -/
def implParams : Parser Generics := do
  if ← sees startsGenerics then g.genericParams else return .none

/-- A block from behind its parameters up to its braces. -/
def implHeadAfter (generics : Generics) : Parser ImplHead := do
  let isConst ← sees fun ts =>
    isWord "const" ts || (isOperator "?" ts && isWord "const" (ts.drop 1))
  if isConst then
    let _ ← operator? "?"
    word "const"
  let negative ← sees fun ts => isOperator "!" ts && !isGroup .brace (ts.drop 1)
  if negative then operator "!"
  let first ← g.type true
  let ofTrait ← word? "for"
  guard (ofTrait || !negative)
  let target ← if ofTrait then some <$> g.type true else pure none
  return ⟨← g.whereClause generics, isConst, first, target⟩

/-- An `impl` block up to its braces. -/
def implHead : Parser ImplHead := do
  let _ ← word? "default"
  let _ ← word? "unsafe"
  word "impl"
  g.implHeadAfter (← g.implParams)

/-- The items of a block in their braces. -/
def implRest (visibility : Visibility) (head : ImplHead) : Parser Item := do
  return head.item visibility (← g.bracedAll g.implItem)

theorem implBlock_eq (visibility : Visibility) :
    g.implBlock visibility = g.implHead >>= g.implRest visibility := by
  unfold implBlock implHead
  iterate 3 rw [Parser.bind_assoc]; refine congrArg _ (funext fun _ => ?_)
  rw [Parser.bind_assoc, implParams, Parser.bind_assoc]
  refine congrArg _ (funext fun _ => ?_)
  extract_lets blockAfter
  suffices h : ∀ generics,
      blockAfter generics = g.implHeadAfter generics >>= g.implRest visibility by
    split <;> exact congrArg _ (funext h)
  intro generics
  unfold blockAfter implHeadAfter
  rw [Parser.bind_assoc]
  refine congrArg _ (funext fun isConst => ?_)
  extract_lets blockAfter headAfter
  suffices h : ∀ x, blockAfter x = headAfter x >>= g.implRest visibility by
    split
    · iterate 2 rw [Parser.bind_assoc]; refine congrArg _ (funext fun _ => ?_)
      exact h ()
    · exact h ()
  intro _
  unfold blockAfter headAfter
  rw [Parser.bind_assoc]
  refine congrArg _ (funext fun negative => ?_)
  extract_lets blockAfter headAfter
  suffices h : ∀ x, blockAfter x = headAfter x >>= g.implRest visibility by
    split
    · rw [Parser.bind_assoc]
      exact congrArg _ (funext h)
    · exact h ()
  intro _
  unfold blockAfter headAfter
  rw [Parser.bind_assoc]
  refine congrArg _ (funext fun first => ?_)
  rw [Parser.bind_assoc]
  refine congrArg _ (funext fun ofTrait => ?_)
  rw [Parser.bind_assoc]
  refine congrArg _ (funext fun _ => ?_)
  extract_lets named blockAfter headAfter
  have h (target : Option Ty) : headAfter target >>= g.implRest visibility =
      g.whereClause generics >>= fun generics =>
        g.implRest visibility ⟨generics, isConst, first, target⟩ := Parser.bind_assoc _ _ _
  cases ofTrait with
  | true =>
    change _ = (g.type true >>= fun target => pure (some target)) >>= headAfter >>= _
    rw [Parser.bind_assoc, Parser.bind_assoc]
    exact congrArg (g.type true >>= ·) (funext fun target => (h (some target)).symm)
  | false => exact (h none).symm

end Grammar

end RowFactory
