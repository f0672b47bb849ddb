import Interpolation.Token.Basic

/-!
# Templates

A template is a list of items, each literal text or an embedded expression. An expression is kept
the way it was written: strings with their quotation marks, integers with all their digits.
Operators bind to the right, so the first operand of a binary operator and the condition of a
conditional are always paths in a template that was read from text; the types do not insist on it.
-/

namespace Interpolation

/-- What a path starts with. -/
inductive Atom where
  | boolean (value : Bool)
  /-- A number, by its digits. -/
  | integer (digits : Text)
  /-- A string, with its quotation marks. -/
  | string (raw : Text)
  | name (name : Text)
  deriving DecidableEq

/-- A value, and the properties that are taken from it one after the other. -/
structure Path where
  atom : Atom
  properties : List Text
  deriving DecidableEq

inductive Expr where
  | path (path : Path)
  /-- An operator before its operand. -/
  | unary (op : UnaryOp) (operand : Expr)
  /-- An operator between its operands. -/
  | binary (op : BinaryOp) (lhs rhs : Expr)
  | ternary (condition consequent alternate : Expr)
  deriving DecidableEq

/-- A part of a template. -/
inductive Item where
  /-- Text that stands for itself. -/
  | literal (text : Text)
  /-- An expression between delimiters. -/
  | embedded (delimiter : Delimiter) (expr : Expr)
  deriving DecidableEq

/-- A template, item by item. -/
abbrev Template := List Item

end Interpolation
