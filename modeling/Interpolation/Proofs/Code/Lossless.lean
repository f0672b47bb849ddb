import Interpolation.Code.Node
import Interpolation.Proofs.Json.Decoding

/-!
# Code from its JSON

Code is read back from the objects that it is written as. The member `type` of an object names the
construct, and the construct says which other members there must be and what each of them is; names
such as `value` and `operator` belong to several constructs. Members are looked up by name, so their
order plays no part.

An object can be read once its members are: what they stand for are the `Part`s of a node, among
which the code of an operand is one kind. This makes the reader a recursion on the value.
-/

namespace Interpolation.Code

/-! ## Parts of nodes -/

/-- What a member of a node may stand for. -/
inductive Part where
  /-- A text: a name, digits, the value of a string, or an operator. -/
  | text (value : Text)
  | truth (value : Bool)
  /-- The code of an operand. -/
  | code (value : Code)
  /-- The code of all arguments. -/
  | arguments (values : List Code)

namespace Part

def text? : Part → Option Text
  | .text s => some s
  | _ => none

def truth? : Part → Option Bool
  | .truth b => some b
  | _ => none

def code? : Part → Option Code
  | .code c => some c
  | _ => none

def arguments? : Part → Option (List Code)
  | .arguments cs => some cs
  | _ => none

end Part

/-- The part with a given name, as what it has to be. -/
def field? {α : Type} (parts : List (Text × Part)) (name : String) (as? : Part → Option α) :
    Option α :=
  (parts.lookup name.toList).bind as?

def op? (symbol : Text) : Option Op :=
  [.add, .and, .or, .equal, .notEqual, .greater, .less].find? fun op ↦ op.symbol.toList = symbol

/-- What makes a node of each type from its parts. -/
def constructs : List (String × (List (Text × Part) → Option Code)) :=
  [("StringLiteral", fun parts ↦ return .string (← field? parts "value" Part.text?)),
    ("NumericLiteral", fun parts ↦ return .number (← field? parts "value" Part.text?)),
    ("BooleanLiteral", fun parts ↦ return .boolean (← field? parts "value" Part.truth?)),
    ("Identifier", fun parts ↦ return .name (← field? parts "name" Part.text?)),
    ("PropertyAccessExpression", fun parts ↦
      return .property (← field? parts "object" Part.code?) (← field? parts "property" Part.text?)),
    ("BinaryExpression", fun parts ↦ do
      let op ← op? (← field? parts "operator" Part.text?)
      return .binary op (← field? parts "left" Part.code?) (← field? parts "right" Part.code?)),
    ("PrefixUnaryExpression", fun parts ↦ do
      guard ((← field? parts "operator" Part.text?) = ['!'])
      return .not (← field? parts "operand" Part.code?)),
    ("ConditionalExpression", fun parts ↦
      return .conditional (← field? parts "test" Part.code?)
        (← field? parts "consequent" Part.code?) (← field? parts "alternate" Part.code?)),
    ("CallExpression", fun parts ↦
      return .call (← field? parts "callee" Part.text?)
        (← field? parts "arguments" Part.arguments?))]

/-- The code that a node with the given parts stands for. -/
def ofParts? (parts : List (Text × Part)) : Option Code := do
  let type ← field? parts "type" Part.text?
  let construct ← constructs.find? fun x ↦ x.1.toList = type
  construct.2 parts

/-! ## Reading values -/

mutual

/-- What a JSON value stands for as a part of a node. -/
def part? : Json → Option Part
  | .bool b => some (.truth b)
  | .string s => some (.text s)
  | .array js => (codes? js).map .arguments
  | .object ms => ((parts? ms).bind ofParts?).map .code

def codes? : List Json → Option (List Code)
  | [] => some []
  | j :: js => (part? j).bind fun p ↦ p.code?.bind fun c ↦ (codes? js).map (c :: ·)

/-- The part that each member of an object stands for. -/
def parts? : List (Text × Json) → Option (List (Text × Part))
  | [] => some []
  | (key, j) :: ms => (part? j).bind fun p ↦ (parts? ms).map ((key, p) :: ·)

end

/-- **The code that a JSON value stands for**, if there is one. -/
def ofJson? (j : Json) : Option Code := (part? j).bind Part.code?

/-! ## Reading code back -/

theorem op?_symbol (op : Op) : op? op.symbol.toList = some op := by
  cases op <;> rfl

theorem parts?_cons {key : Text} {j : Json} {p : Part} {ms : List (Text × Json)}
    {parts : List (Text × Part)} (hj : part? j = some p) (hms : parts? ms = some parts) :
    parts? ((key, j) :: ms) = some ((key, p) :: parts) := by
  rw [parts?, hj, hms]
  rfl

theorem part?_object {ms : List (Text × Json)} {parts : List (Text × Part)} {c : Code}
    (hms : parts? ms = some parts) (hc : ofParts? parts = some c) :
    part? (.object ms) = some (.code c) := by
  rw [part?, hms, Option.bind_some, hc]
  rfl

mutual

-- In every case the members are read in their order, and then the node is made from its parts.
theorem part?_toJson : ∀ c : Code, part? c.toJson = some (.code c)
  | .string _ | .number _ | .boolean _ | .name _ =>
    part?_object (parts?_cons rfl (parts?_cons rfl rfl)) rfl
  | .property object _ =>
    part?_object (parts?_cons (part?_toJson object) (parts?_cons rfl (parts?_cons rfl rfl))) rfl
  | .binary op left right => by
    refine part?_object (parts?_cons (part?_toJson left) (parts?_cons rfl
      (parts?_cons (part?_toJson right) (parts?_cons rfl rfl)))) ?_
    change (op? op.symbol.toList).bind (fun op ↦ some (binary op left right)) = _
    rw [op?_symbol]
    rfl
  | .not operand =>
    part?_object (parts?_cons (part?_toJson operand) (parts?_cons rfl (parts?_cons rfl rfl))) rfl
  | .conditional test consequent alternate =>
    part?_object (parts?_cons (part?_toJson alternate) (parts?_cons (part?_toJson consequent)
      (parts?_cons (part?_toJson test) (parts?_cons rfl rfl)))) rfl
  | .call _ arguments => by
    have harguments : part? (.array (argumentsToJsonBy (m := Id) id arguments).run) =
        some (.arguments arguments) := by
      rw [part?, codes?_argumentsToJsonBy arguments]
      rfl
    exact part?_object (parts?_cons harguments (parts?_cons rfl (parts?_cons rfl rfl))) rfl

theorem codes?_argumentsToJsonBy : ∀ cs : List Code,
    codes? (argumentsToJsonBy (m := Id) id cs).run = some cs
  | [] => rfl
  | c :: cs => by
    change codes? (c.toJson :: (argumentsToJsonBy (m := Id) id cs).run) = _
    rw [codes?, part?_toJson c, codes?_argumentsToJsonBy cs]
    rfl

end

theorem ofJson?_toJson (c : Code) : ofJson? c.toJson = some c := by
  rw [ofJson?, part?_toJson]
  rfl

/-- **JSON loses nothing, in either layout.** Whatever texts stand in the code and however it is
nested, its JSON on one line is decoded to a value from which the code is read back, and its JSON on
several lines to the same value. Without the space outside of strings, the JSON on several lines is
the one on a single line, character by character. -/
theorem json_lossless (c : Code) :
    ∃ j : Json, Json.decode c.json = some j ∧ ofJson? j = some c ∧
      Json.decode c.prettyJson = some j ∧ Json.dropBlanks c.prettyJson = c.json := by
  refine ⟨c.toJson, ?_, ofJson?_toJson c, ?_, ?_⟩
  · exact Json.decode_compact c.toJson
  · exact Json.decode_pretty c.toJson
  · exact Json.dropBlanks_pretty c.toJson

end Interpolation.Code
