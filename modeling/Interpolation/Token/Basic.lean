import Interpolation.Operator
import Interpolation.Text.Basic

/-!
# Tokens

A template is cut into tokens before it is read. Outside expressions there are only literal text and
the two-character marks that open an expression; inside an expression there are names, literals,
operators and punctuation. Which of the two alphabets applies is the *mode*, and a token remembers
the mode it was found in.

Operators, delimiters and quotation marks are parameters of a kind and not kinds of their own, so
that a reader of tokens gets the operator by matching on the kind.
-/

namespace Interpolation

/-! ## Delimiters, quotation marks, modes -/

/-- The two ways to open an expression. Both enclose the same expressions. -/
inductive Delimiter where
  /-- The expression is opened by `#`. -/
  | deferred
  /-- The expression is opened by `$`. -/
  | dynamic
  deriving DecidableEq

namespace Delimiter

/-- The character that stands before the opening brace. -/
def mark : Delimiter → Char
  | .deferred => '#'
  | .dynamic => '$'

/-- The delimiter that a character before an opening brace stands for. -/
def ofMark? (c : Char) : Option Delimiter :=
  if c = '#' then some .deferred else if c = '$' then some .dynamic else none

def name : Delimiter → String
  | .deferred => "Deferred"
  | .dynamic => "Dynamic"

end Delimiter

/-- The two kinds of quotation marks around a string. -/
inductive Quote where
  /-- The quotation mark `"`. -/
  | double
  /-- The apostrophe. -/
  | single
  deriving DecidableEq

def Quote.char : Quote → Char
  | .double => '"'
  | .single => '\''

theorem Quote.char_ne_backslash (q : Quote) : q.char ≠ '\\' := by
  cases q <;> decide

/-- What kind of text is being scanned. -/
inductive Mode where
  /-- Text outside every expression. -/
  | outer
  /-- The inside of an expression with the given delimiter. -/
  | inside (delimiter : Delimiter)
  deriving DecidableEq

def Mode.name : Mode → String
  | .outer => "Outer"
  | .inside d => d.name

/-! ## Kinds -/

/-- The kinds of tokens. -/
inductive Token.Kind where
  /-- White space inside an expression. -/
  | whitespace
  /-- The words `true` and `false`. -/
  | boolean
  /-- A string, with its quotation marks. -/
  | string (quote : Quote)
  | integer
  /-- Text outside every expression. -/
  | literal
  /-- The mark that opens an expression. -/
  | opening (delimiter : Delimiter)
  /-- The brace that closes an expression. -/
  | closing
  /-- The separator between the branches of a conditional. -/
  | colon
  /-- The separator between a value and its property. -/
  | dot
  /-- The mark after the condition of a conditional. -/
  | question
  | unary (op : UnaryOp)
  | binary (op : BinaryOp)
  /-- A name that is no word of the language. -/
  | identifier
  /-- A left parenthesis, which no expression uses. -/
  | leftParen
  /-- A right parenthesis, which no expression uses. -/
  | rightParen
  deriving DecidableEq

namespace Token.Kind

/-- What diagnostics call a token of the kind. -/
def label : Kind → String
  | .whitespace => "whitespace"
  | .boolean => "boolean literal"
  | .string _ => "string literal"
  | .integer => "integer literal"
  | .literal => "literal text"
  | .opening .deferred => "'#\x7b'"
  | .opening .dynamic => "'$\x7b'"
  | .closing => "'\x7d'"
  | .colon => "':'"
  | .dot => "'.'"
  | .question => "'?'"
  | .unary .minus => "'-'"
  | .unary .not => "'not'"
  | .unary .empty => "'empty'"
  | .binary .or => "'or'"
  | .binary .and => "'and'"
  | .binary .eq => "'=='"
  | .binary .notEq => "'!='"
  | .binary .gt => "'>'"
  | .binary .lt => "'<'"
  | .identifier => "identifier"
  | .leftParen => "'('"
  | .rightParen => "')'"

/-- The name of a kind in listings. -/
def name : Kind → String
  | .whitespace => "Whitespace"
  | .boolean => "BooleanLiteral"
  | .string .double => "DoubleQuoteString"
  | .string .single => "SingleQuoteString"
  | .integer => "Integer"
  | .literal => "LiteralText"
  | .opening .deferred => "StartDeferred"
  | .opening .dynamic => "StartDynamic"
  | .closing => "RCurl"
  | .colon => "Colon"
  | .dot => "Dot"
  | .question => "Question"
  | .unary .minus => "Minus"
  | .unary .not => "Not"
  | .unary .empty => "Empty"
  | .binary .or => "Or"
  | .binary .and => "And"
  | .binary .eq => "Eq"
  | .binary .notEq => "NotEq"
  | .binary .gt => "Gt"
  | .binary .lt => "Lt"
  | .identifier => "Identifier"
  | .leftParen => "LParen"
  | .rightParen => "RParen"

end Token.Kind

/-! ## Tokens -/

/-- A token of a template. -/
structure Token where
  kind : Token.Kind
  /-- The text of the token, as written in the template. -/
  text : Text
  /-- The mode that the token was found in. -/
  mode : Mode
  /-- Where the token starts, in bytes from the start of the template. -/
  offset : Nat
  deriving DecidableEq

end Interpolation
