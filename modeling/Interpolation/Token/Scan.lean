import Interpolation.Token.Scanner

/-!
# The tokens of a template

A `Scan` is what a scanner finds when it is asked for tokens until the template ends or no token
fits. It keeps the tokens found before a failure, because the log reports them, and the number of
expressions that are still open. What the rest of the library works with is `tokenize`: the tokens
without white space, or the failure.
-/

namespace Interpolation

/-- The tokens that a scanner finds, up to the end of the template or the first failure. -/
structure Scan where
  /-- The tokens, white space included. -/
  tokens : List Token
  /-- The failure, unless the end was reached. -/
  error : Option LexError
  /-- The number of expressions that are open where the scan stopped. -/
  openCount : Nat
  deriving DecidableEq

/-- The scan from a place on, when `before` holds the tokens before it, the last one first. -/
def Scanner.scanFrom (before : List Token) (s : Scanner) : Scan :=
  match _h : s.step with
  | .ok (some (token, s')) => scanFrom (token :: before) s'
  | .ok none => ⟨before.reverse, none, s.openCount⟩
  | .error e => ⟨before.reverse, some e, s.openCount⟩
termination_by s.rest.length
decreasing_by exact length_rest_lt _h

namespace Scan

def ofText (s : Text) : Scan := Scanner.scanFrom [] (.ofText s)

/-- The tokens that matter, or the failure. White space inside expressions does not matter. -/
def result (scan : Scan) : Except LexError (List Token) :=
  match scan.error with
  | some e => .error e
  | none => .ok (scan.tokens.filter (·.kind ≠ .whitespace))

end Scan

/-- The tokens of a template without white space. -/
def tokenize (s : Text) : Except LexError (List Token) := (Scan.ofText s).result

end Interpolation
