import RowFactory.Proofs.Printed.Ordered
import RowFactory.Proofs.Source.Gives
import RowFactory.Proofs.Source.ReadsGenerics
import RowFactory.Source.StatementGrammar

namespace RowFactory

open RowFactory.Parser

/-- The type that ended in front of `j` ends in front of `rest` as well. -/
structure TypeEnds (plus : Bool) (j rest : List Token) : Prop extends EndsPath false rest where
  round : beforeRound rest = false
  bracket : isGroup .bracket rest = false
  call : isOperator "!" rest = false
  arrow : isOperator "->" rest = false
  mark : isOperator "#" rest = false
  plus : isOperator "+" rest = true → plus = false ∧ isOperator "+" j = true
  bound : startsBound rest = true → startsBound j = true

/-- A literal alone; a number may have its minus. -/
def isLoneLiteral : List Token → Bool
  | [.literal _] => true
  | [.ident i] => i = .plain "true" || i = .plain "false"
  | [.punct '-' false, .literal text] => text.toList.head?.any fun c => '0' ≤ c && c ≤ '9'
  | _ => false

/-- A form in a type that is not taken apart. -/
inductive Embedded where
  /-- The size of an array. -/
  | size (tokens : List Token)
  /-- A constant in braces. -/
  | block (body : List Token)
  /-- The value of an attribute. -/
  | value (kind : ExprKind) (tokens : List Token)
  /-- A parameter of a binder that is no lifetime. -/
  | binderParam (tokens : List Token)
  /-- A type that is only carried through; the flag says whether a `+` may continue it. -/
  | type (plus : Bool) (tokens : List Token)
  /-- A bound that is only carried through. -/
  | bound (tokens : List Token)
  /-- A parameter of a function type that is only carried through. -/
  | fnParam (first : Bool) (tokens : List Token)

namespace Grammar

/-- The value of an attribute. -/
def attributeValue (g : Grammar) : Parser (ExprKind × List Token) := do
  let literal ← attempt do
    let value ← literalValue
    require List.isEmpty
    return value
  match literal with
  | some value => return (.literal, value)
  | none =>
    require fun ts => !(isOperator "#" ts && isGroup .bracket (ts.drop 1))
    withWritten g.anyExpr

/-- Dots `...`, perhaps after a name, begin here. -/
def startsVariadic (ts : List Token) : Bool :=
  isOperator "..." ts ||
    (isNameOrBlank ts && isOperator ":" (ts.drop 1) && isOperator "..." (ts.drop 2))

/-- A parameter of a function type ends here: a comma follows, or nothing. -/
inductive EndsFnParam : List Token → Prop
  | comma (rest : List Token) : EndsFnParam (.comma :: rest)
  | none : EndsFnParam []

end Grammar

open Grammar

/-- Whatever is deep enough reads the form, as it has been written, as it has been read. Of a form
that ends where the tokens behind it say so, this is said where they say the same as before. -/
def Embedded.IsReadBack : Embedded → Prop
  | .size ts => ∀ n, Token.sizeAll ts ≤ n →
    (withWritten (atDepth n).anyExpr).Reads ts [] (·.2 = ts)
  | .block body => ∀ n, Token.sizeAll body < n → ∀ rest,
    (atDepth n).constant.Reads (.group .brace body :: rest) rest (· = [.group .brace body])
  | .value kind ts => ∀ n, Token.sizeAll ts ≤ n →
    (atDepth n).attributeValue.Reads ts [] (· = (kind, ts))
  | .binderParam ts => ∀ n, Token.sizeAll ts < n →
    ReadsItem (atDepth n).binderParam (isOperator ">") EndsParam ts
      fun | .other us => us = ts | .lifetime _ => False
  | .type plus ts => ∀ k i o, ((atDepth k).oneType plus).Gives i (.verbatim ts) o →
    ∀ n, Token.sizeAll ts ≤ n → ∀ rest, TypeEnds plus o rest →
      ((atDepth n).oneType plus).Reads (ts ++ rest) rest (· = .verbatim ts)
  | .bound ts => ∀ k i o, ((atDepth k).oneBound true).Gives i (.verbatim ts) o →
    ∀ n, Token.sizeAll ts ≤ n → ∀ rest, TypeEnds false o rest →
      ((atDepth n).oneBound true).Reads (ts ++ rest) rest (· = .verbatim ts) ∧
        startsOpaqueBound (ts ++ rest) = true
  | .fnParam first ts => ∀ n, Token.sizeAll ts ≤ n → ∀ attrs rest, EndsFnParam rest →
    ((atDepth n).functionParam attrs first).Reads (ts ++ rest) rest
        (· = .mk attrs none (.verbatim ts)) ∧
      startsVariadic (ts ++ rest) = false

def MetaItem.embedded : MetaItem → List Embedded
  | .value _ kind ts => if kind = .literal && isLoneLiteral ts then [] else [.value kind ts]
  | _ => []

def Attribute.allEmbedded (attrs : List Attribute) : List Embedded :=
  attrs.flatMap (·.content.embedded)

def BinderParam.embedded : BinderParam → List Embedded
  | .lifetime p => Attribute.allEmbedded p.attrs
  | .other ts => [.binderParam ts]

/-- What is embedded in the parameters of a binder. -/
def binderEmbedded : Option Binder → List Embedded
  | none => []
  | some (params, _) => params.flatMap BinderParam.embedded

/-- What is embedded in a constant: nothing in a literal. -/
def constantEmbedded : List Token → List Embedded
  | [.group .brace body] => [.block body]
  | _ => []

mutual

/-- What is embedded in a type; the flag says whether a `+` may continue it. -/
def Ty.embedded (plus : Bool) : Ty → List Embedded
  | .path none _ _ segments => Segment.allEmbedded segments
  | .path (some self) _ _ segments => self.embedded true ++ Segment.allEmbedded segments
  | .reference _ _ target => target.embedded false
  | .pointer _ target => target.embedded false
  | .slice element => element.embedded true
  | .array element size =>
    element.embedded true ++ if isLoneLiteral size then [] else [.size size]
  | .tuple elements _ => Ty.allEmbedded elements
  | .paren inner => inner.embedded true
  | .never => []
  | .infer => []
  | .object _ bounds _ => Bound.allEmbedded bounds
  | .impl bounds _ => Bound.allEmbedded bounds
  | .function binder _ _ params _ variadic output =>
    binderEmbedded binder ++ FnParam.allEmbedded true params ++
      (variadic.toList.flatMap fun (attrs, _, _) => Attribute.allEmbedded attrs) ++
      Ty.outputEmbedded output
  | .call _ _ _ => []
  | .verbatim tokens => [.type plus tokens]

def Ty.outputEmbedded : Option Ty → List Embedded
  | none => []
  | some ty => ty.embedded false

def Ty.allEmbedded : List Ty → List Embedded
  | [] => []
  | ty :: rest => ty.embedded true ++ Ty.allEmbedded rest

def Segment.embedded : Segment → List Embedded
  | .plain _ => []
  | .angle _ _ arguments _ => Argument.allEmbedded arguments
  | .round _ inputs _ output => Ty.allEmbedded inputs ++ Ty.outputEmbedded output

def Segment.allEmbedded : List Segment → List Embedded
  | [] => []
  | s :: rest => s.embedded ++ Segment.allEmbedded rest

def Argument.embedded : Argument → List Embedded
  | .lifetime _ => []
  | .type type => type.embedded true
  | .const value => constantEmbedded value
  | .assocType owner type => owner.embedded ++ type.embedded true
  | .assocConst owner value => owner.embedded ++ constantEmbedded value
  | .constraint owner bounds _ => owner.embedded ++ Bound.allEmbedded bounds

def Argument.allEmbedded : List Argument → List Embedded
  | [] => []
  | a :: rest => a.embedded ++ Argument.allEmbedded rest

def Bound.embedded : Bound → List Embedded
  | .trait _ _ binder _ segments => binderEmbedded binder ++ Segment.allEmbedded segments
  | .lifetime _ => []
  | .capture _ => []
  | .verbatim tokens => [.bound tokens]

def Bound.allEmbedded : List Bound → List Embedded
  | [] => []
  | b :: rest => b.embedded ++ Bound.allEmbedded rest

def FnParam.embedded (first : Bool) : FnParam → List Embedded
  | .mk attrs none (.verbatim tokens) => Attribute.allEmbedded attrs ++ [.fnParam first tokens]
  | .mk attrs _ type => Attribute.allEmbedded attrs ++ type.embedded true

def FnParam.allEmbedded (first : Bool) : List FnParam → List Embedded
  | [] => []
  | p :: rest => p.embedded first ++ FnParam.allEmbedded false rest

end

theorem Ty.allEmbedded_eq (types : List Ty) :
    Ty.allEmbedded types = types.flatMap (·.embedded true) := by
  induction types with
  | nil => rfl
  | cons ty rest ih => rw [allEmbedded, ih, List.flatMap_cons]

theorem Segment.allEmbedded_eq (segments : List Segment) :
    Segment.allEmbedded segments = segments.flatMap Segment.embedded := by
  induction segments with
  | nil => rfl
  | cons s rest ih => rw [allEmbedded, ih, List.flatMap_cons]

theorem Argument.allEmbedded_eq (arguments : List Argument) :
    Argument.allEmbedded arguments = arguments.flatMap Argument.embedded := by
  induction arguments with
  | nil => rfl
  | cons a rest ih => rw [allEmbedded, ih, List.flatMap_cons]

theorem Bound.allEmbedded_eq (bounds : List Bound) :
    Bound.allEmbedded bounds = bounds.flatMap Bound.embedded := by
  induction bounds with
  | nil => rfl
  | cons b rest ih => rw [allEmbedded, ih, List.flatMap_cons]

end RowFactory
