import Interpolation.Text.DefaultIgnorable
import Interpolation.Text.GraphemeExtend
import Interpolation.Text.Unprintable

/-!
# Quoted text

A text between double quotation marks, on one line and with nothing invisible in it: the usual
escapes with a backslash, and the number of every other character that cannot be shown on its own.
-/

namespace Interpolation.Text

/-- Whether quoted text writes the character by its number. -/
def isHidden (c : Char) : Bool := isAttached c || isDefaultIgnorable c || isUnprintable c

/-- One character of a quoted text, where the `hidden` characters are written by their number. -/
def quotedChar (hidden : Char → Bool) (c : Char) : Text :=
  match c with
  | '\x00' => ['\\', '0']
  | '\t' => ['\\', 't']
  | '\r' => ['\\', 'r']
  | '\n' => ['\\', 'n']
  | '"' => ['\\', '"']
  | '\\' => ['\\', '\\']
  | c => if hidden c then ['\\', 'u', '{'] ++ hex c.toNat ++ ['}'] else [c]

/-- The text between quotation marks, where the `hidden` characters are written by their number. -/
def quotedBy (hidden : Char → Bool) (s : Text) : Text :=
  '"' :: s.flatMap (quotedChar hidden) ++ ['"']

/-- The text between quotation marks. -/
def quoted (s : Text) : Text := quotedBy isHidden s

end Interpolation.Text
