import Interpolation.Text.Quoted
import Interpolation.Token.Basic

/-!
# Tokens in a listing

A listing has one line for each token: where it starts, the mode it was found in, its kind and its
text, the first three in columns. The text comes last and is quoted, so that the line stays one line
and the text can be recovered from it.
-/

namespace Interpolation.Token

/-- The line of a token in a listing, where the `hidden` characters of its text are written by their
number. -/
def lineBy (hidden : Char → Bool) (t : Token) : Text :=
  Text.alignRight 4 (Text.decimal t.offset) ++ ' ' :: Text.alignLeft 8 t.mode.name.toList ++
    ' ' :: Text.alignLeft 18 t.kind.name.toList ++ ' ' :: Text.quotedBy hidden t.text

def line (t : Token) : Text := t.lineBy Text.isHidden

end Interpolation.Token
