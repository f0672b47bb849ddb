import Interpolation.Template.Basic
import Interpolation.Template.Reading

/-!
# Reading a template

The grammar, over tokens without white space:

```text
template    :=  item*
item        :=  opening expression closing  |  literal
expression  :=  (path | unary) [binary] [ternary]
unary       :=  unary-operator expression
binary      :=  binary-operator expression
ternary     :=  question expression colon expression
path        :=  atom (dot identifier)*
atom        :=  boolean  |  integer  |  string  |  identifier
```

It is ambiguous, and the reader settles it by reading every suffix as part of the innermost
expression that can take it. Everything binds to the right.

Expressions nest at most as deep as a limit. The levels that remain below the limit are what the
recursion of `expression` counts down, so the limit is also what makes it end.

An item that cannot be read is skipped up to the next closing brace, and reading goes on behind it,
so that one pass reports the errors of all items.
-/

namespace Interpolation

open Reading

/-! ## Paths -/

/-- The atom that a token stands for. -/
def Token.atom? (t : Token) : Option Atom :=
  match t.kind with
  | .boolean => some (.boolean (t.text = "true".toList))
  | .integer => some (.integer t.text)
  | .string _ => some (.string t.text)
  | .identifier => some (.name t.text)
  | _ => none

namespace Parser

/-- Reads the properties of a path. `names` holds those already read, the last one first. -/
def properties (names : List Text) : List Token → Reading (List Text)
  | [] => done names.reverse []
  | [t] => if t.kind = .dot then fail .property [] else done names.reverse [t]
  | t :: u :: ts =>
    if t.kind = .dot then
      if u.kind = .identifier then properties (u.text :: names) ts else fail .property (u :: ts)
    else done names.reverse (t :: u :: ts)

def path : List Token → Reading Path
  | [] => fail .expression []
  | t :: ts =>
    match t.atom? with
    | some atom => (properties [] ts).map (Path.mk atom)
    | none => fail .expression (t :: ts)

/-! ## Expressions

The parts of an expression take the reader of the expressions inside them as an argument. -/

/-- Reads a path or an operator with its operand. -/
def primary (inner : List Token → Reading Expr) : List Token → Reading Expr
  | [] => (path []).map .path
  | t :: ts =>
    match t.kind with
    | .unary op => (inner ts).map (.unary op)
    | _ => (path (t :: ts)).map .path

/-- Reads the operator and the second operand behind a first operand, if there are any. -/
def binarySuffix (inner : List Token → Reading Expr) (lhs : Expr) : List Token → Reading Expr
  | [] => done lhs []
  | t :: ts =>
    match t.kind with
    | .binary op => (inner ts).map (.binary op lhs)
    | _ => done lhs (t :: ts)

/-- Reads the branches behind a condition, if there are any. -/
def ternarySuffix (inner : List Token → Reading Expr) (condition : Expr) : List Token → Reading Expr
  | [] => done condition []
  | t :: ts =>
    if t.kind = .question then
      (inner ts).bind fun consequent ts ↦
        (expect .colon ts).bind fun _ ts ↦ (inner ts).map (.ternary condition consequent)
    else done condition (t :: ts)

/-- Where the first of the given tokens starts. -/
def offsetOf : List Token → Nat
  | [] => 0
  | t :: _ => t.offset

/-- Reads an expression, whatever the level it stands at. -/
def expressionBy (inner : List Token → Reading Expr) (ts : List Token) : Reading Expr :=
  (primary inner ts).bind fun head ts ↦
    (binarySuffix inner head ts).bind fun body ts ↦ ternarySuffix inner body ts

/-- Reads an expression when `levels` more levels of nesting are allowed of the `limit` in all. -/
def expression (limit : Nat) : (levels : Nat) → List Token → Reading Expr
  | 0, ts => ⟨.error (.tooDeep limit (offsetOf ts)), ts⟩
  | levels + 1, ts => expressionBy (expression limit levels) ts

/-! ## Items -/

/-- Reads an expression and the brace behind it. -/
def enclosed (limit : Nat) (ts : List Token) : Reading Expr :=
  (expression limit limit ts).bind fun e ts ↦ (expect .closing ts).map fun _ ↦ e

def item (limit : Nat) : List Token → Reading Item
  | [] => fail .item []
  | t :: ts =>
    match t.kind with
    | .literal => done (.literal t.text) ts
    | .opening d => (enclosed limit ts).map (.embedded d)
    | _ => fail .item (t :: ts)

/-- The tokens behind the next closing brace. -/
def recover (ts : List Token) : List Token := (ts.dropWhile (·.kind ≠ .closing)).tail

/-! ## Readers do not invent tokens -/

theorem within_properties (names : List Text) (ts : List Token) :
    (properties names ts).Within ts.length := by
  fun_induction properties names ts with
  | case1 => exact within_done _ _
  | case2 => exact (within_fail _ _).mono (Nat.zero_le _)
  | case3 => exact within_done _ _
  | case4 names t u ts _ _ ih => exact ih.mono (by simp only [List.length_cons]; omega)
  | case5 => exact (within_fail _ _).mono (Nat.le_succ _)
  | case6 => exact within_done _ _

theorem within_path (ts : List Token) : (path ts).Within ts.length := by
  cases ts with
  | nil => exact within_fail _ _
  | cons t ts =>
    rw [path]
    split
    · exact ((within_properties [] ts).map _).mono (Nat.le_succ _)
    · exact within_fail _ _

section

variable {inner : List Token → Reading Expr} (hinner : ∀ ts, (inner ts).Within ts.length)
include hinner

theorem within_primary (ts : List Token) : (primary inner ts).Within ts.length := by
  cases ts with
  | nil => exact (within_path []).map _
  | cons t ts =>
    rw [primary]
    split
    · exact ((hinner ts).map _).mono (Nat.le_succ _)
    · exact (within_path (t :: ts)).map _

theorem within_binarySuffix (lhs : Expr) (ts : List Token) :
    (binarySuffix inner lhs ts).Within ts.length := by
  cases ts with
  | nil => exact within_done _ _
  | cons t ts =>
    rw [binarySuffix]
    split
    · exact ((hinner ts).map _).mono (Nat.le_succ _)
    · exact within_done _ _

theorem within_ternarySuffix (condition : Expr) (ts : List Token) :
    (ternarySuffix inner condition ts).Within ts.length := by
  cases ts with
  | nil => exact within_done _ _
  | cons t ts =>
    rw [ternarySuffix]
    split
    · refine ((hinner ts).bind fun consequent ↦ ?_).mono (Nat.le_succ _)
      exact (within_expect _ _).bind fun _ ↦ (hinner _).map _
    · exact within_done _ _

theorem within_expressionBy (ts : List Token) : (expressionBy inner ts).Within ts.length :=
  (within_primary hinner ts).bind fun head ↦
    (within_binarySuffix hinner head _).bind fun body ↦ within_ternarySuffix hinner body _

end

theorem within_expression (limit levels : Nat) (ts : List Token) :
    (expression limit levels ts).Within ts.length := by
  induction levels generalizing ts with
  | zero => exact Nat.le_refl _
  | succ levels ih =>
    rw [expression]
    exact within_expressionBy ih ts

theorem within_enclosed (limit : Nat) (ts : List Token) : (enclosed limit ts).Within ts.length :=
  (within_expression limit limit ts).bind fun _ ↦ (within_expect _ _).map _

theorem length_recover_le (ts : List Token) : (recover ts).length ≤ ts.length := by
  rw [recover, List.length_tail]
  exact Nat.le_trans (Nat.sub_le _ _) (List.dropWhile_suffix _).length_le

theorem length_recover_lt {t : Token} {ts : List Token} :
    (recover (t :: ts)).length < ts.length + 1 := by
  rw [recover, List.dropWhile_cons]
  split
  · exact Nat.lt_succ_of_le (length_recover_le ts)
  · exact Nat.lt_succ_self _

theorem length_rest_lt {limit : Nat} {t : Token} {ts rest : List Token} {x : Item}
    (h : item limit (t :: ts) = ⟨.ok x, rest⟩) : rest.length < ts.length + 1 := by
  rw [item] at h
  split at h
  · cases h
    exact Nat.lt_succ_self _
  · rename_i d _
    have hwithin := (within_enclosed limit ts).map (Item.embedded d)
    rw [h] at hwithin
    exact Nat.lt_succ_of_le hwithin
  · cases h

theorem length_recover_rest_lt {limit : Nat} {t : Token} {ts rest : List Token} {e : ParseError}
    (h : item limit (t :: ts) = ⟨.error e, rest⟩) : (recover rest).length < ts.length + 1 := by
  rw [item] at h
  split at h
  · cases h
  · rename_i d _
    have hwithin := (within_enclosed limit ts).map (Item.embedded d)
    rw [h] at hwithin
    exact Nat.lt_succ_of_le (Nat.le_trans (length_recover_le rest) hwithin)
  · cases h
    exact length_recover_lt

end Parser

end Interpolation
