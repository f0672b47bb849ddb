import Interpolation.Text.Builder

/-!
# JSON texts

The values that expression trees are written with, and their two layouts. Both come from one
function: a `Layout` says what stands between the parts of an array or an object, and the compact
layout is the one where that is nothing. White space outside strings is thus the only difference
there can be.

The members of an object are written in the order in which it lists them.
-/

namespace Interpolation

open Text (Builder)

/-- A JSON value, of the kinds that expression trees need. -/
inductive Json where
  | bool (value : Bool)
  | string (value : Text)
  | array (elements : List Json)
  /-- An object, as a list of names and values. -/
  | object (members : List (Text × Json))

namespace Json

/-! ## Strings -/

def escape (c : Char) : Text :=
  match c with
  | '"' => ['\\', '"']
  | '\\' => ['\\', '\\']
  | '\x08' => ['\\', 'b']
  | '\x0c' => ['\\', 'f']
  | '\n' => ['\\', 'n']
  | '\r' => ['\\', 'r']
  | '\t' => ['\\', 't']
  | c => if c.toNat < 0x20 then '\\' :: 'u' :: Text.hex4 c.toNat else [c]

/-- A string between quotation marks. -/
def quote (s : Text) : Text := '"' :: s.flatMap escape ++ ['"']

/-! ## Layouts -/

/-- What is written between the parts of a value. -/
structure Layout where
  /-- The end of a line, and the indentation of the next one at some depth. -/
  lineBreak : (depth : Nat) → Text
  /-- What follows the name of a member. -/
  colon : Text

namespace Layout

/-- Everything on one line, without a space. -/
def compact : Layout := ⟨fun _ ↦ [], [':']⟩

/-- Every part on a line of its own, two spaces deeper than the value that it belongs to. -/
def pretty : Layout := ⟨fun depth ↦ '\n' :: List.replicate (2 * depth) ' ', [':', ' ']⟩

/-- The parts of a value between its brackets. -/
def enclose (l : Layout) (depth : Nat) (left right : Char) : List Builder → Builder
  | [] => .ofText [left, right]
  | parts =>
    .ofText (left :: l.lineBreak (depth + 1)) ++
      .separated (',' :: l.lineBreak (depth + 1)) parts ++ .ofText (l.lineBreak depth ++ [right])

end Layout

/-! ## Writing -/

mutual

/-- Writes a value that stands at some depth. -/
def write (l : Layout) (depth : Nat) : Json → Builder
  | .bool true => .ofText "true".toList
  | .bool false => .ofText "false".toList
  | .string s => .ofText (quote s)
  | .array elements => l.enclose depth '[' ']' (writeElements l (depth + 1) elements)
  | .object members => l.enclose depth '{' '}' (writeMembers l (depth + 1) members)

def writeElements (l : Layout) (depth : Nat) : List Json → List Builder
  | [] => []
  | j :: js => write l depth j :: writeElements l depth js

def writeMembers (l : Layout) (depth : Nat) : List (Text × Json) → List Builder
  | [] => []
  | (name, j) :: members =>
    (.ofText (quote name ++ l.colon) ++ write l depth j) :: writeMembers l depth members

end

/-- The value on one line. -/
def compact (j : Json) : Text := (j.write .compact 0).toText

/-- The value on several lines. -/
def pretty (j : Json) : Text := (j.write .pretty 0).toText

end Json

end Interpolation
