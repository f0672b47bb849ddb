import Interpolation.Template.Parser

/-!
# All items of a template

A `Parse` holds what could be read of a list of tokens: the items, and the errors of the items that
could not be read, both in the order of the tokens. One error is enough to refuse the whole
template, and the first one is the one to report; the others are there for those who want to know
all of them at once.
-/

namespace Interpolation

/-- What was read of a list of tokens. -/
structure Parse where
  /-- The items that could be read. -/
  items : Template
  /-- Why the others could not. -/
  errors : List ParseError
  deriving DecidableEq

namespace Parse

def empty : Parse := ⟨[], []⟩

/-- Reads on behind the items and errors found so far, of which the last one comes first. -/
def readFrom (limit : Nat) (items : List Item) (errors : List ParseError) : List Token → Parse
  | [] => ⟨items.reverse, errors.reverse⟩
  | t :: ts =>
    match _h : Parser.item limit (t :: ts) with
    | ⟨.ok x, rest⟩ => readFrom limit (x :: items) errors rest
    | ⟨.error e, rest⟩ => readFrom limit items (e :: errors) (Parser.recover rest)
termination_by ts => ts.length
decreasing_by
  · exact Parser.length_rest_lt _h
  · exact Parser.length_recover_rest_lt _h

/-- Reads a whole list of tokens, where expressions nest at most `limit` levels deep. -/
def ofTokens (limit : Nat) (ts : List Token) : Parse := readFrom limit [] [] ts

/-- The template, or the first error. -/
def result (p : Parse) : Except ParseError Template :=
  match p.errors with
  | [] => .ok p.items
  | e :: _ => .error e

end Parse

/-- The template that a list of tokens stands for, where expressions nest at most `limit` levels
deep. -/
def parse (limit : Nat) (ts : List Token) : Except ParseError Template :=
  (Parse.ofTokens limit ts).result

end Interpolation
