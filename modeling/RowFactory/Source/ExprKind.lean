namespace RowFactory

/-- The outermost form of an expression. -/
inductive ExprKind where
  | array
  | assignment
  | asyncBlock
  | await
  | binary
  /-- Two operands with a comparison between them. -/
  | comparison
  | block
  | exit
  | call
  | cast
  | closure
  | constBlock
  | continuation
  | field
  | forLoop
  | conditional
  | index
  | infer
  | binding
  | literal
  | loop
  | macroCall
  | selection
  | methodCall
  | paren
  | path
  | range
  | rawAddress
  | reference
  | repetition
  | result
  | struct
  | propagation
  | tryBlock
  | tuple
  | unary
  | unsafeBlock
  | verbatim
  | whileLoop
  | yielding
deriving DecidableEq, Inhabited

namespace ExprKind

/-- The form ends in a block of its own, and so a statement does at its end. -/
def isBlockLike : ExprKind → Bool
  | .conditional | .selection | .block | .unsafeBlock | .whileLoop | .loop | .forLoop | .tryBlock
  | .constBlock => true
  | _ => false

/-- The word for the form in messages. -/
def description : ExprKind → String
  | .array => "array"
  | .assignment => "assign"
  | .asyncBlock => "async"
  | .await => "await"
  | .binary | .comparison => "binary"
  | .block => "block"
  | .exit => "break"
  | .call => "call"
  | .cast => "cast"
  | .closure => "closure"
  | .constBlock => "const"
  | .continuation => "continue"
  | .field => "field"
  | .forLoop => "for_loop"
  | .conditional => "if"
  | .index => "index"
  | .infer => "infer"
  | .binding => "let"
  | .literal => "lit"
  | .loop => "loop"
  | .macroCall => "macro"
  | .selection => "match"
  | .methodCall => "method_call"
  | .paren => "paren"
  | .path => "path"
  | .range => "range"
  | .rawAddress => "unknown"
  | .reference => "reference"
  | .repetition => "repeat"
  | .result => "return"
  | .struct => "struct"
  | .propagation => "try"
  | .tryBlock => "try_block"
  | .tuple => "tuple"
  | .unary => "unary"
  | .unsafeBlock => "unsafe"
  | .verbatim => "verbatim"
  | .whileLoop => "while"
  | .yielding => "yield"

end ExprKind

end RowFactory
