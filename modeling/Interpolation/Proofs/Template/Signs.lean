import Interpolation.Template.Parse

/-!
# Templates as signs

A *sign* is what a token says to the reader of a template. Where the token starts and the mode it
was found in do not count, and neither does the text of an operator or the choice of quotation
marks; the text of literals, integers, strings and names does. So a template can be written back
out as signs, and comparing them with the signs of the tokens it was read from is comparing the
tokens kind for kind, and text for text wherever a template keeps the text.

The types of a template allow more trees than reading produces. Operators bind to the right, which
is the shape `Expr.RightNested` describes, and the depth limit of the reader is about
`Expr.nesting`. Both look past the first operand of a binary operator and the condition of a
conditional, since these are paths in every tree of that shape.
-/

namespace Interpolation

/-! ## Signs -/

/-- What a token says to the reader of a template. -/
inductive Sign where
  | literal (text : Text)
  /-- A truth value, an integer, a string or a name. -/
  | atom (atom : Atom)
  /-- Anything else, which says no more than its kind. -/
  | bare (kind : Token.Kind)
  deriving DecidableEq

/-- Whether the text of a token of the kind says nothing. -/
def Token.Kind.isBare : Token.Kind → Bool
  | .literal | .boolean | .integer | .string _ | .identifier => false
  | _ => true

/-- The sign of a token. -/
def Token.sign (t : Token) : Sign :=
  match t.kind with
  | .literal => .literal t.text
  | .boolean => .atom (.boolean (t.text = "true".toList))
  | .integer => .atom (.integer t.text)
  | .string _ => .atom (.string t.text)
  | .identifier => .atom (.name t.text)
  | k => .bare k

namespace Token

variable {t : Token}

theorem sign_eq_literal_iff {s : Text} : t.sign = .literal s ↔ t.kind = .literal ∧ t.text = s := by
  rw [sign]
  cases t.kind <;> simp

theorem sign_eq_atom_iff {a : Atom} : t.sign = .atom a ↔ t.atom? = some a := by
  rw [sign, atom?]
  cases t.kind <;> simp

theorem sign_eq_name_iff {n : Text} :
    t.sign = .atom (.name n) ↔ t.kind = .identifier ∧ t.text = n := by
  rw [sign]
  cases t.kind <;> simp

theorem sign_eq_bare_iff {k : Kind} : t.sign = .bare k ↔ t.kind = k ∧ k.isBare := by
  rw [sign]
  cases t.kind <;> cases k <;> simp [Kind.isBare]

end Token

/-! ## Writing a template back -/

def propertySigns (name : Text) : List Sign := [.bare .dot, .atom (.name name)]

def Path.signs (p : Path) : List Sign := .atom p.atom :: p.properties.flatMap propertySigns

/-- The signs of an expression. -/
def Expr.signs : Expr → List Sign
  | .path p => p.signs
  | .unary op operand => .bare (.unary op) :: operand.signs
  | .binary op lhs rhs => lhs.signs ++ .bare (.binary op) :: rhs.signs
  | .ternary condition consequent alternate =>
    condition.signs ++ .bare .question :: (consequent.signs ++ .bare .colon :: alternate.signs)

def Item.signs : Item → List Sign
  | .literal text => [.literal text]
  | .embedded d e => .bare (.opening d) :: (e.signs ++ [.bare .closing])

def Template.signs (x : Template) : List Sign := x.flatMap Item.signs

@[simp] theorem Template.signs_nil : Template.signs [] = [] := rfl

@[simp] theorem Template.signs_cons (i : Item) (x : Template) :
    Template.signs (i :: x) = i.signs ++ Template.signs x := rfl

/-! ## The shape of a template that was read -/

/-- Whether an expression is a value with its properties. -/
def Expr.isPath : Expr → Bool
  | .path _ => true
  | _ => false

theorem Expr.isPath_iff {e : Expr} : e.isPath ↔ ∃ p, e = .path p := by
  cases e <;> simp [isPath]

/-- Every binary operator has a path before it and every conditional a path for its condition. -/
def Expr.RightNested : Expr → Prop
  | .path _ => True
  | .unary _ operand => operand.RightNested
  | .binary _ lhs rhs => lhs.isPath ∧ rhs.RightNested
  | .ternary condition consequent alternate =>
    condition.isPath ∧ consequent.RightNested ∧ alternate.RightNested

instance Expr.decidableRightNested : (e : Expr) → Decidable e.RightNested
  | .path _ => inferInstanceAs (Decidable True)
  | .unary _ operand => operand.decidableRightNested
  | .binary _ lhs rhs =>
    have := rhs.decidableRightNested
    inferInstanceAs (Decidable (lhs.isPath ∧ rhs.RightNested))
  | .ternary condition consequent alternate =>
    have := consequent.decidableRightNested
    have := alternate.decidableRightNested
    inferInstanceAs (Decidable (condition.isPath ∧ consequent.RightNested ∧ alternate.RightNested))

/-- The number of levels of an expression. -/
def Expr.nesting : Expr → Nat
  | .path _ => 1
  | .unary _ operand => operand.nesting + 1
  | .binary _ _ rhs => rhs.nesting + 1
  | .ternary _ consequent alternate => max consequent.nesting alternate.nesting + 1

theorem Expr.nesting_pos (e : Expr) : 0 < e.nesting := by
  cases e <;> exact Nat.succ_pos _

theorem Expr.nesting_le_length_signs (e : Expr) : e.nesting ≤ e.signs.length := by
  induction e with
  | path p => simp [nesting, signs, Path.signs]
  | unary op operand ih => simpa [nesting, signs] using ih
  | binary op lhs rhs _ ih =>
    simp only [nesting, signs, List.length_append, List.length_cons]
    omega
  | ternary condition consequent alternate _ ih₁ ih₂ =>
    simp only [nesting, signs, List.length_append, List.length_cons]
    omega

def Item.RightNested : Item → Prop
  | .literal _ => True
  | .embedded _ e => e.RightNested

instance : (i : Item) → Decidable i.RightNested
  | .literal _ => inferInstanceAs (Decidable True)
  | .embedded _ e => inferInstanceAs (Decidable e.RightNested)

/-- The number of levels of an item. Text has none. -/
def Item.nesting : Item → Nat
  | .literal _ => 0
  | .embedded _ e => e.nesting

theorem Item.nesting_le_length_signs (i : Item) : i.nesting ≤ i.signs.length := by
  cases i with
  | literal text => exact Nat.zero_le _
  | embedded d e =>
    have := e.nesting_le_length_signs
    simp only [nesting, signs, List.length_append, List.length_cons]
    omega

def Template.RightNested (x : Template) : Prop := ∀ i ∈ x, i.RightNested

instance (x : Template) : Decidable (Template.RightNested x) :=
  inferInstanceAs (Decidable (∀ i ∈ x, i.RightNested))

/-- No expression of the template has more than `limit` levels. -/
def Template.NestsWithin (limit : Nat) (x : Template) : Prop := ∀ i ∈ x, i.nesting ≤ limit

instance (limit : Nat) (x : Template) : Decidable (Template.NestsWithin limit x) :=
  inferInstanceAs (Decidable (∀ i ∈ x, i.nesting ≤ limit))

theorem Template.nestsWithin_length_signs (x : Template) :
    Template.NestsWithin (Template.signs x).length x := by
  intro i hi
  obtain ⟨before, after, rfl⟩ := List.append_of_mem hi
  have := i.nesting_le_length_signs
  simp only [signs, List.flatMap_append, List.flatMap_cons, List.length_append]
  omega

end Interpolation
