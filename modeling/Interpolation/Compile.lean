import Interpolation.Lowering
import Interpolation.Options
import Interpolation.Template.Parse
import Interpolation.Token.Line
import Interpolation.Token.Scan

/-!
# Compiling a template

`compile` runs the stages one after the other and stops at the first that fails; a template that is
too long is refused before all of them. `check` runs the stages that look at the form of a template
only, whatever its length, and `compileOrKeep` never fails: a template that cannot be compiled
stands for its own text. `listing` runs the first stage alone and shows what it found.
-/

namespace Interpolation

/-- The template that a text stands for, where expressions nest at most `limit` levels deep. -/
def readTemplate (limit : Nat) (input : Text) : Except CompileError Template := do
  let tokens ← (tokenize input).mapError .lex
  (parse limit tokens).mapError .parse

def compile (o : Options) (input : Text) : Except CompileError Code :=
  if o.maxInputLen < Text.byteSize input then
    .error (.inputTooLarge (Text.byteSize input) o.maxInputLen)
  else do
    let template ← readTemplate o.maxDepth input
    (Template.lower o.emptyHelper template).mapError .lower

/-- The number of items of the template that a text stands for. -/
def check (o : Options) (input : Text) : Except CompileError Nat :=
  (readTemplate o.maxDepth input).map List.length

/-- The tokens of a text, a line for each, where the `hidden` characters are written by their
number. -/
def listingBy (hidden : Char → Bool) (input : Text) : Except CompileError (List Text) := do
  let tokens ← (tokenize input).mapError .lex
  return tokens.map (Token.lineBy hidden)

def listing (input : Text) : Except CompileError (List Text) := listingBy Text.isHidden input

/-- The code that a text is compiled to, or the text itself as a string. -/
def compileOrKeep (o : Options) (input : Text) : Code :=
  match compile o input with
  | .ok code => code
  | .error _ => .string input

end Interpolation
