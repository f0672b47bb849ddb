import Interpolation.Text.Basic

/-!
# Code

What a template is compiled to: one expression of the language of scripts, as a tree. Numbers are
kept by their digits and names are not looked at, so a tree says no more than the template did.

A tree holds lists of trees, for which equality is not derived; `Code.same` decides it.
-/

namespace Interpolation

/-- The operators between two pieces of code. -/
inductive Code.Op where
  | add
  | and
  | or
  | equal
  | notEqual
  | greater
  | less
  deriving DecidableEq

def Code.Op.symbol : Code.Op → String
  | .add => "+"
  | .and => "&&"
  | .or => "||"
  | .equal => "==="
  | .notEqual => "!=="
  | .greater => ">"
  | .less => "<"

/-- An expression of the language of scripts. -/
inductive Code where
  | string (value : Text)
  /-- A number, by its digits. -/
  | number (digits : Text)
  | boolean (value : Bool)
  | name (name : Text)
  | property (object : Code) (name : Text)
  | binary (op : Code.Op) (left right : Code)
  | not (operand : Code)
  | conditional (test consequent alternate : Code)
  /-- A call of a function by its name. -/
  | call (callee : Text) (arguments : List Code)

namespace Code

/-- Two pieces of code one after the other, as texts. -/
def concat (left right : Code) : Code := .binary .add left right

def isString : Code → Bool
  | .string _ => true
  | _ => false

/-! ## Equality -/

mutual

def same : Code → Code → Bool
  | .string s, .string t => s = t
  | .number s, .number t => s = t
  | .boolean a, .boolean b => a = b
  | .name s, .name t => s = t
  | .property c s, .property d t => same c d && s = t
  | .binary o a b, .binary p c d => o = p && same a c && same b d
  | .not c, .not d => same c d
  | .conditional a b c, .conditional d e f => same a d && same b e && same c f
  | .call s cs, .call t ds => s = t && sameList cs ds
  | _, _ => false

def sameList : List Code → List Code → Bool
  | [], [] => true
  | c :: cs, d :: ds => same c d && sameList cs ds
  | _, _ => false

end

mutual

theorem same_iff : ∀ c d : Code, c.same d = true ↔ c = d
  | .string s, d => by cases d <;> simp [same]
  | .number s, d => by cases d <;> simp [same]
  | .boolean a, d => by cases d <;> simp [same]
  | .name s, d => by cases d <;> simp [same]
  | .property c s, d => by cases d <;> simp [same, same_iff c]
  | .binary o a b, d => by cases d <;> simp [same, same_iff a, same_iff b, and_assoc]
  | .not c, d => by cases d <;> simp [same, same_iff c]
  | .conditional a b c, d => by
    cases d <;> simp [same, same_iff a, same_iff b, same_iff c, and_assoc]
  | .call s cs, d => by cases d <;> simp [same, sameList_iff cs]

theorem sameList_iff : ∀ cs ds : List Code, sameList cs ds = true ↔ cs = ds
  | [], ds => by cases ds <;> simp [sameList]
  | c :: cs, ds => by cases ds <;> simp [sameList, same_iff c, sameList_iff cs]

end

instance : DecidableEq Code := fun c d ↦ decidable_of_iff _ (same_iff c d)

end Code

end Interpolation
