/-!
# The manual

The texts that the command line shows on request: an overview, and one page for each topic. A text
is kept as the list of its lines.
-/

namespace Interpolation

/-- The topics of the manual. -/
inductive Topic where
  /-- Text, delimiters and values. -/
  | templates
  /-- Operators and how they bind. -/
  | operators
  /-- What can go wrong. -/
  | errors
  deriving DecidableEq

namespace Topic

/-- The topic with the given name. Letters count as the same in upper and lower case; those beyond
ASCII occur in no name, nor does any of them become one that does. -/
def ofName? (name : String) : Option Topic :=
  match name.toLower with
  | "syntax" => some .templates
  | "operators" | "ops" => some .operators
  | "errors" | "error" => some .errors
  | _ => none

end Topic

namespace Manual

/-- The overview, line by line. -/
def overview : List String :=
  ["ELC DOCUMENTATION",
    "",
    "elc compiles template text with embedded #\x7b...\x7d and $\x7b...\x7d expressions into",
    "an expression tree, printed as TypeScript-style source or as JSON.",
    "",
    "DOCUMENTATION CATEGORIES",
    "",
    "  syntax            Literal text, delimiters, values and property paths",
    "  operators         Unary, binary and ternary operators and how they bind",
    "  errors            Lex, parse and translate errors",
    "",
    "QUICK REFERENCE",
    "",
    "  Hello #\x7bname\x7d     Literal text followed by an expression",
    "  $\x7ba.b.c\x7d          Property path",
    "  #\x7bnot a\x7d          Negation",
    "  #\x7bempty list\x7d     isEmpty(list)",
    "  #\x7ba ? b : c\x7d      Conditional",
    "",
    "Run 'elc doc <category>' for detailed documentation."]

/-- The page on text, delimiters and values. -/
def templates : List String :=
  ["SYNTAX - Template Text and Values",
    "",
    "COMPOSITE EXPRESSIONS",
    "  Input is a sequence of literal text and bracketed expressions:",
    "",
    "    Dear #\x7buser.name\x7d, your order $\x7border.id\x7d has shipped",
    "",
    "  Several items are concatenated left to right with +:",
    "",
    "    \"Dear \" + user.name + \", your order \" + order.id + \" has shipped\"",
    "",
    "DELIMITERS",
    "  #\x7b ... \x7d          Deferred expression",
    "  $\x7b ... \x7d          Dynamic expression",
    "  Both take the same grammar and compile to the same tree.",
    "",
    "  A # or $ not followed by \x7b is plain text:  Price: 5$",
    "  Braces outside an expression are errors:  a \x7b b",
    "",
    "VALUES",
    "  true false        Boolean literals",
    "  123               Integer literal (digits kept as written)",
    "  \"apple\" 'apple'   String literals, both compile to \"apple\"",
    "  name              Identifier",
    "  a.b.c             Property path on any value"]

def operators : List String :=
  ["OPERATORS - Unary, Binary and Ternary",
    "",
    "UNARY",
    "  not a   !a        Logical negation        => !a",
    "  empty a           Emptiness check         => isEmpty(a)",
    "  -a                Parsed, but rejected when compiling",
    "",
    "BINARY",
    "  and  &&           Logical and             => &&",
    "  or   ||           Logical or              => ||",
    "  eq   ==           Equality                => ===",
    "  ne   !=           Inequality              => !==",
    "  gt   >            Greater than            => >",
    "  lt   <            Less than               => <",
    "",
    "TERNARY",
    "  cond ? a : b      Conditional",
    "",
    "BINDING",
    "  The right side of a binary operator is a whole expression, and a ternary",
    "  follows the binary part. Everything binds to the right:",
    "",
    "    #\x7ba && b ? c : d == e\x7d   =>   a && (b ? c : d === e)",
    "    #\x7bnot a or b\x7d            =>   !(a || b)"]

/-- The page on what can go wrong. -/
def errors : List String :=
  ["ERRORS - What Can Go Wrong",
    "",
    "LEX ERRORS",
    "  unexpected character      No token matches, e.g. #\x7ba = b\x7d or #\x7ba \x7b\x7d",
    "  unbalanced '\x7d'            A \x7d with no open #\x7b or $\x7b, e.g. a\x7db",
    "",
    "PARSE ERRORS",
    "  expected '\x7d'              Unterminated expression, e.g. #\x7bfoobar",
    "  expected an expression    Missing operand, e.g. #\x7ba &&\x7d",
    "  nesting exceeds limit     Deeper than --max-depth",
    "",
    "TRANSLATE ERRORS",
    "  unsupported operator '-'  Numeric negation has no translation yet",
    "",
    "Errors never produce a partial tree. Use 'elc compile --fallback' to emit",
    "the input as a string constant instead."]

def page : Topic → List String
  | .templates => templates
  | .operators => operators
  | .errors => errors

def text (lines : List String) : String := String.join (lines.map (· ++ "\n"))

end Manual

end Interpolation
