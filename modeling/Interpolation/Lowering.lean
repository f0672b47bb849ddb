import Interpolation.Code.Basic
import Interpolation.Diagnostic
import Interpolation.Template.Basic

/-!
# From templates to code

Every item of a template becomes a piece of code, and the pieces are concatenated from left to
right. A template without items is the empty string. The test for emptiness becomes a call of a
function whose name is an argument here. Numeric negation has no meaning and makes the whole
template fail.
-/

namespace Interpolation

/-- The operator on code that an operator on expressions becomes. -/
def BinaryOp.lower : BinaryOp → Code.Op
  | .and => .and
  | .or => .or
  | .eq => .equal
  | .notEq => .notEqual
  | .gt => .greater
  | .lt => .less

/-- The text between the quotation marks of a string. -/
def unquote (raw : Text) : Text := raw.tail.dropLast

def Atom.lower : Atom → Code
  | .boolean value => .boolean value
  | .integer digits => .number digits
  | .string raw => .string (unquote raw)
  | .name n => .name n

def Path.lower (p : Path) : Code := p.properties.foldl .property p.atom.lower

/-- The code of an operator and the code of its operand. -/
def UnaryOp.lower (helper : Text) (operand : Code) : UnaryOp → Except LoweringError Code
  | .minus => .error (.unsupportedOperator .minus)
  | .not => .ok (.not operand)
  | .empty => .ok (.call helper [operand])

/-- The code of an expression, where `helper` tests for emptiness. -/
def Expr.lower (helper : Text) : Expr → Except LoweringError Code
  | .path p => .ok p.lower
  | .unary op operand => do op.lower helper (← operand.lower helper)
  | .binary op lhs rhs => return .binary op.lower (← lhs.lower helper) (← rhs.lower helper)
  | .ternary condition consequent alternate =>
    return .conditional (← condition.lower helper) (← consequent.lower helper)
      (← alternate.lower helper)

def Item.lower (helper : Text) : Item → Except LoweringError Code
  | .literal text => .ok (.string text)
  | .embedded _ e => e.lower helper

/-- Concatenates the code of items to the code before them. -/
def Template.lowerFrom (helper : Text) (before : Code) : Template → Except LoweringError Code
  | [] => .ok before
  | x :: xs => do lowerFrom helper (before.concat (← x.lower helper)) xs

def Template.lower (helper : Text) : Template → Except LoweringError Code
  | [] => .ok (.string [])
  | x :: xs => do lowerFrom helper (← x.lower helper) xs

end Interpolation
