/-!
# Operators of expressions

The operators that can stand in an embedded expression. Each has one symbol, the spelling used for
it in diagnostics, whichever of its spellings the template used.
-/

namespace Interpolation

/-- The operators with one operand. -/
inductive UnaryOp where
  /-- Numeric negation. -/
  | minus
  | not
  /-- The test for emptiness. -/
  | empty
  deriving DecidableEq

def UnaryOp.symbol : UnaryOp → String
  | .minus => "-"
  | .not => "not"
  | .empty => "empty"

/-- The operators with two operands. -/
inductive BinaryOp where
  | and
  | or
  | eq
  | notEq
  | gt
  | lt
  deriving DecidableEq

def BinaryOp.symbol : BinaryOp → String
  | .and => "&&"
  | .or => "||"
  | .eq => "=="
  | .notEq => "!="
  | .gt => ">"
  | .lt => "<"

end Interpolation
