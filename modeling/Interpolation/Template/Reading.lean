import Interpolation.Diagnostic

/-!
# Reading from a list of tokens

Reading a phrase at the start of a list of tokens gives the phrase, or an error, and in both cases
the tokens that are left. They are kept with an error too, because reading goes on after it: the
item that failed is skipped from the place of the error on.

The one law needed of every reader is that it does not invent tokens (`Reading.Within`).
-/

namespace Interpolation

/-- The outcome of reading a phrase. -/
structure Reading (α : Type) where
  /-- The phrase, or why there is none. -/
  result : Except ParseError α
  /-- The tokens that are left. -/
  rest : List Token

namespace Reading

variable {α β : Type}

/-- A phrase that was read. -/
def done (value : α) (rest : List Token) : Reading α := ⟨.ok value, rest⟩

/-- The error that the first of the given tokens does not fit, or that there is none. -/
def mismatch (expected : Expectation) : List Token → ParseError
  | [] => .unexpectedEnd expected
  | t :: _ => .unexpected expected t.kind t.text t.offset

/-- The outcome where the first of the given tokens does not fit. -/
def fail (expected : Expectation) (tokens : List Token) : Reading α :=
  ⟨.error (mismatch expected tokens), tokens⟩

/-- Goes on reading behind a phrase. -/
def bind (r : Reading α) (f : α → List Token → Reading β) : Reading β :=
  match r.result with
  | .ok value => f value r.rest
  | .error e => ⟨.error e, r.rest⟩

def map (f : α → β) (r : Reading α) : Reading β := ⟨r.result.map f, r.rest⟩

def expect (kind : Token.Kind) : List Token → Reading Unit
  | [] => fail (.token kind) []
  | t :: ts => if t.kind = kind then done () ts else fail (.token kind) (t :: ts)

/-! ## What is left -/

/-- At most the given number of tokens is left. -/
def Within (n : Nat) (r : Reading α) : Prop := r.rest.length ≤ n

theorem Within.mono {m n : Nat} {r : Reading α} (h : r.Within m) (hmn : m ≤ n) : r.Within n :=
  Nat.le_trans h hmn

theorem within_done (value : α) (rest : List Token) : (done value rest).Within rest.length :=
  Nat.le_refl _

theorem within_fail (expected : Expectation) (tokens : List Token) :
    (fail expected tokens : Reading α).Within tokens.length :=
  Nat.le_refl _

theorem Within.map {n : Nat} {r : Reading α} (h : r.Within n) (f : α → β) : (r.map f).Within n := h

theorem Within.bind {n : Nat} {r : Reading α} (h : r.Within n) {f : α → List Token → Reading β}
    (hf : ∀ value, (f value r.rest).Within r.rest.length) : (r.bind f).Within n := by
  rw [Reading.bind]
  split
  · exact (hf _).mono h
  · exact h

theorem within_expect (kind : Token.Kind) (tokens : List Token) :
    (expect kind tokens).Within tokens.length := by
  cases tokens with
  | nil => exact within_fail _ _
  | cons t ts =>
    rw [expect]
    split
    · exact (within_done _ _).mono (Nat.le_succ _)
    · exact within_fail _ _

end Reading

end Interpolation
