import Interpolation.Token.Basic

/-!
# Diagnostics

Why a template is refused. Each stage of a compilation has its own type of causes; a `CompileError`
is a cause together with the stage it comes from. The wording of a cause is in its function
`message`, and the sentences with holes in them are in the namespace `Wording`.
-/

namespace Interpolation

/-! ## Wording -/

namespace Wording

/-- A token that does not fit, given what was expected, what was found, its text and its offset. -/
def unexpected (expected found text : String) (offset : Nat) : String :=
  s!"expected {expected}, found {found} '{text}' at offset {offset}"

/-- The end of the template where something was expected. -/
def unexpectedEnd (expected : String) : String := s!"expected {expected}, found end of input"

/-- An operator that has no meaning. -/
def unsupportedOperator (symbol : String) : String := s!"unsupported operator '{symbol}'"

end Wording

/-! ## Causes -/

/-- Why a text cannot be cut into tokens. -/
inductive LexError where
  /-- No token starts with the character. -/
  | unexpectedCharacter (character : Char) (offset : Nat)
  /-- A closing brace where no expression is open. -/
  | unbalancedBrace (offset : Nat)
  deriving DecidableEq

namespace LexError

/-- Where the trouble is, in bytes from the start of the template. -/
def offset : LexError → Nat
  | .unexpectedCharacter _ offset => offset
  | .unbalancedBrace offset => offset

/-- The cause in words. -/
def message : LexError → String
  | .unexpectedCharacter character offset =>
    s!"unexpected character '{character}' at offset {offset}"
  | .unbalancedBrace offset => s!"unbalanced '\x7d' at offset {offset}: no expression is open"

end LexError

/-- What a template could go on with at some place. -/
inductive Expectation where
  /-- A token of the kind. -/
  | token (kind : Token.Kind)
  /-- The start of an expression. -/
  | expression
  /-- The name of a property. -/
  | property
  /-- The start of an item. -/
  | item
  deriving DecidableEq

/-- What diagnostics call the expectation. -/
def Expectation.label : Expectation → String
  | .token kind => kind.label
  | .expression => "an expression"
  | .property => "identifier after '.'"
  | .item => "literal text, '#\x7b' or '$\x7b'"

/-- Why a list of tokens is no template. -/
inductive ParseError where
  /-- A token that does not fit. -/
  | unexpected (expected : Expectation) (found : Token.Kind) (text : Text) (offset : Nat)
  /-- The end of the tokens where more was expected. -/
  | unexpectedEnd (expected : Expectation)
  /-- Expressions nested deeper than allowed. -/
  | tooDeep (limit offset : Nat)
  deriving DecidableEq

def ParseError.message : ParseError → String
  | .unexpected expected found text offset =>
    Wording.unexpected expected.label found.label (String.ofList text) offset
  | .unexpectedEnd expected => Wording.unexpectedEnd expected.label
  | .tooDeep limit offset => s!"expression nesting exceeds the limit of {limit} at offset {offset}"

/-- Why a template has no meaning. -/
inductive LoweringError where
  /-- The operator can be written but has no meaning. -/
  | unsupportedOperator (op : UnaryOp)
  deriving DecidableEq

def LoweringError.message : LoweringError → String
  | .unsupportedOperator op => Wording.unsupportedOperator op.symbol

/-! ## Stages -/

/-- The stages of a compilation that can fail. -/
inductive Stage where
  /-- Cutting the text into tokens. -/
  | lexing
  /-- Reading the tokens as a template. -/
  | parsing
  /-- Giving the template its meaning. -/
  | lowering
  deriving DecidableEq

/-- A message with the stage in front of it. -/
def Stage.report : Stage → String → String
  | .lexing, message => "lex error: " ++ message
  | .parsing, message => "parse error: " ++ message
  | .lowering, message => "translate error: " ++ message

/-- Why a compilation fails. -/
inductive CompileError where
  /-- The text cannot be cut into tokens. -/
  | lex (cause : LexError)
  /-- The tokens are no template. -/
  | parse (cause : ParseError)
  /-- The template has no meaning. -/
  | lower (cause : LoweringError)
  /-- The text has more bytes than allowed. -/
  | inputTooLarge (size limit : Nat)
  deriving DecidableEq

def CompileError.message : CompileError → String
  | .lex cause => Stage.lexing.report cause.message
  | .parse cause => Stage.parsing.report cause.message
  | .lower cause => Stage.lowering.report cause.message
  | .inputTooLarge size limit => s!"input of {size} bytes exceeds the limit of {limit} bytes"

end Interpolation
