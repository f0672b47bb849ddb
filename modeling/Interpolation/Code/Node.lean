import Interpolation.Code.Basic
import Interpolation.Json

/-!
# Code as JSON

Every construct is an object with a member `type` that names it and a member for each of its parts.
The members of an object stand in ascending order of their names.
-/

namespace Interpolation.Code

/-- An object that is given by the names and values of its members. -/
def node (members : List (String × Json)) : Json :=
  .object (members.map fun (key, value) ↦ (key.toList, value))

/-- A string of JSON that is known beforehand. -/
def tag (s : String) : Json := .string s.toList

section

variable {m : Type → Type} [Monad m]

mutual

/-- The code as a JSON value, with `call` around every call for a piece below it. -/
def toJsonBy (call : m Json → m Json) : Code → m Json
  | .string s => return node [("type", tag "StringLiteral"), ("value", .string s)]
  | .number digits => return node [("type", tag "NumericLiteral"), ("value", .string digits)]
  | .boolean b => return node [("type", tag "BooleanLiteral"), ("value", .bool b)]
  | .name n => return node [("name", .string n), ("type", tag "Identifier")]
  | .property object n =>
    return node [("object", ← call (toJsonBy call object)), ("property", .string n),
      ("type", tag "PropertyAccessExpression")]
  | .binary op left right =>
    return node [("left", ← call (toJsonBy call left)), ("operator", tag op.symbol),
      ("right", ← call (toJsonBy call right)), ("type", tag "BinaryExpression")]
  | .not operand =>
    return node [("operand", ← call (toJsonBy call operand)), ("operator", tag "!"),
      ("type", tag "PrefixUnaryExpression")]
  | .conditional test consequent alternate => do
    let test ← call (toJsonBy call test)
    let consequent ← call (toJsonBy call consequent)
    let alternate ← call (toJsonBy call alternate)
    return node [("alternate", alternate), ("consequent", consequent), ("test", test),
      ("type", tag "ConditionalExpression")]
  | .call callee arguments =>
    return node [("arguments", .array (← argumentsToJsonBy call arguments)),
      ("callee", .string callee), ("type", tag "CallExpression")]

def argumentsToJsonBy (call : m Json → m Json) : List Code → m (List Json)
  | [] => return []
  | c :: cs => return (← call (toJsonBy call c)) :: (← argumentsToJsonBy call cs)

end

end

def toJson (c : Code) : Json := Id.run (c.toJsonBy id)

/-- The code as JSON on one line. -/
def json (c : Code) : Text := c.toJson.compact

/-- The code as JSON on several lines. -/
def prettyJson (c : Code) : Text := c.toJson.pretty

end Interpolation.Code
