import Interpolation.Code.Basic
import Interpolation.Text.Builder
import Interpolation.Text.White

/-!
# Code as source text

Code is written with as few parentheses as its shape allows. Every construct has a level, higher for
those that bind tighter, and a place in the text asks for a least level; code of a lower level is
put between parentheses there. The operators associate to the left, so the right operand of one has
to bind tighter than the operator itself.

A number before a dot is put between parentheses whatever its level, since its digits and the dot
would be read as a decimal fraction.
-/

namespace Interpolation.Code

open Text (Builder)

/-! ## Levels -/

namespace Level

-- From the loosest construct to the tightest: code of a lower level is bracketed where a higher
-- one is asked for.
abbrev conditional : Nat := 1
abbrev disjunction : Nat := 2
abbrev conjunction : Nat := 3
abbrev equality : Nat := 4
abbrev comparison : Nat := 5
abbrev sum : Nat := 6
abbrev negation : Nat := 7
abbrev access : Nat := 8
abbrev atom : Nat := 9

end Level

def Op.level : Op → Nat
  | .or => Level.disjunction
  | .and => Level.conjunction
  | .equal | .notEqual => Level.equality
  | .greater | .less => Level.comparison
  | .add => Level.sum

/-- The level of the outermost construct of a piece of code. -/
def level : Code → Nat
  | .conditional _ _ _ => Level.conditional
  | .binary op _ _ => op.level
  | .not _ => Level.negation
  | .property _ _ | .call _ _ => Level.access
  | .string _ | .number _ | .boolean _ | .name _ => Level.atom

/-! ## Strings -/

def escape (c : Char) : Text :=
  match c with
  | '"' => ['\\', '"']
  | '\\' => ['\\', '\\']
  | '\n' => ['\\', 'n']
  | '\r' => ['\\', 'r']
  | '\t' => ['\\', 't']
  | c => if Text.isControl c then '\\' :: 'u' :: Text.hex4 c.toNat else [c]

/-- A string between quotation marks. -/
def quote (s : Text) : Text := '"' :: s.flatMap escape ++ ['"']

/-! ## Parentheses -/

def parenthesize (s : Builder) : Builder := .ofText ['('] ++ s ++ .ofText [')']

/-- The text `s` of the code `c`, at a place that asks for at least the level `floor`. -/
def atLeast (floor : Nat) (c : Code) (s : Builder) : Builder :=
  if c.level < floor then parenthesize s else s

/-! ## Source text

A piece of code is written in one call, which makes a call for each piece below it. What a call does
besides is up to whoever runs the function: `call` wraps every call but the first, in any monad. -/

section

variable {m : Type → Type} [Monad m]

/-- The text of the code `c` at the place before a dot. A number needs no call there. -/
def beforeDot (c : Code) (text : m Builder) : m Builder :=
  match c with
  | .number digits => return parenthesize (.ofText digits)
  | _ => return atLeast Level.access c (← text)

mutual

/-- Writes a piece of code, with `call` around every call for a piece below it. -/
def writeBy (call : m Builder → m Builder) : Code → m Builder
  | .string s => return .ofText (quote s)
  | .number digits => return .ofText digits
  | .boolean true => return .ofText "true".toList
  | .boolean false => return .ofText "false".toList
  | .name n => return .ofText n
  | .property object n =>
    return (← beforeDot object (call (writeBy call object))) ++ .ofText ('.' :: n)
  | .binary op left right =>
    return atLeast op.level left (← call (writeBy call left)) ++
      .ofText (' ' :: op.symbol.toList ++ [' ']) ++
      atLeast (op.level + 1) right (← call (writeBy call right))
  | .not operand =>
    return .ofText ['!'] ++ atLeast Level.negation operand (← call (writeBy call operand))
  | .conditional test consequent alternate =>
    return atLeast Level.disjunction test (← call (writeBy call test)) ++ .ofText " ? ".toList ++
      atLeast Level.conditional consequent (← call (writeBy call consequent)) ++
      .ofText " : ".toList ++
      atLeast Level.conditional alternate (← call (writeBy call alternate))
  | .call callee arguments =>
    return .ofText callee ++
      parenthesize (.separated ", ".toList (← writeArgumentsBy call arguments))

def writeArgumentsBy (call : m Builder → m Builder) : List Code → m (List Builder)
  | [] => return []
  | c :: cs =>
    return atLeast Level.conditional c (← call (writeBy call c)) :: (← writeArgumentsBy call cs)

end

end

def write (c : Code) : Builder := Id.run (c.writeBy id)

def source (c : Code) : Text := c.write.toText

end Interpolation.Code
