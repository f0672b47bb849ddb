import Interpolation.Text.Basic

/-!
# Options

What a compilation can be told: how deep expressions may nest, how long a template may be, and which
function tests for emptiness.
-/

namespace Interpolation

/-- The options of a compilation. -/
structure Options where
  /-- The deepest nesting of expressions that is accepted. -/
  maxDepth : Nat := 256
  /-- The greatest size of a template that is accepted, in bytes. -/
  maxInputLen : Nat := 1048576
  /-- The name of the function that tests for emptiness. -/
  emptyHelper : Text := "isEmpty".toList
  deriving DecidableEq

/-- The options where nothing was said. -/
def Options.default : Options := {}

end Interpolation
