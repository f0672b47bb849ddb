import Interpolation.Text.Basic

/-!
# Where a string literal ends

A string literal is a quotation mark, a body, and the same quotation mark again. The body is a
sequence of units: a backslash together with the character after it, or one character other than the
mark. The two overlap, because a backslash can also stand for itself, so a text may hold a literal
in several ways. `preferred?` says which way counts: at each place a pair is tried first, then a
character by itself, and the closing mark last.

Followed literally, that rule goes back and forth over the text. `closing?` finds the same end in
one pass. It reads pairs wherever it can and stops at the first mark that is not part of a pair. If
the text runs out first, the mark it saw last, as the second half of a pair, closes the literal
after all.
-/

namespace Interpolation.StringLiteral

/-- Whether two neighbouring characters form a pair. A backslash does not pair with a line feed. -/
def isPair (c d : Char) : Bool := c = '\\' && d ≠ '\n'

/-! ## The order of preference -/

/-- The width of a literal after its opening mark `q`, the closing mark included, by the order of
preference among the ways to read the text. -/
def preferred? (q : Char) : Text → Option Nat
  | [] => none
  | [c] => if c = q then some 1 else none
  | c :: d :: s =>
    let pair := if isPair c d then (preferred? q s).map (· + 2) else none
    let single := if c = q then some 1 else (preferred? q (d :: s)).map (· + 1)
    pair.or single

/-! ## One pass -/

/-- The pass over a text after `width` characters of it, where `fallback` is the width up to the
last mark `q` that was read as part of a pair. -/
def closingFrom (q : Char) (width : Nat) (fallback : Option Nat) : Text → Option Nat
  | [] => fallback
  | [c] => if c = q then some (width + 1) else fallback
  | c :: d :: s =>
    if isPair c d then closingFrom q (width + 2) (if d = q then some (width + 2) else fallback) s
    else if c = q then some (width + 1)
    else closingFrom q (width + 1) fallback (d :: s)

/-- The width of a literal after its opening mark `q`, the closing mark included. -/
def closing? (q : Char) (s : Text) : Option Nat := closingFrom q 0 none s

/-- The width of the literal with the mark `q` at the start of a text. -/
def width? (q : Char) : Text → Option Nat
  | [] => none
  | c :: s => if c = q then (closing? q s).map (· + 1) else none

/-! ## The pass finds the preferred end -/

private theorem preferred?_tail_eq_none {q c : Char} {s : Text} (h : preferred? q (c :: s) = none) :
    preferred? q s = none := by
  cases s with
  | nil => rfl
  | cons d s =>
    rw [preferred?, Option.or_eq_none_iff] at h
    have hsingle := h.2
    split at hsingle
    · simp at hsingle
    · simpa using hsingle

private theorem preferred?_cons_of_none {q d : Char} {s : Text} (h : preferred? q s = none) :
    preferred? q (d :: s) = if d = q then some 1 else none := by
  cases s with
  | nil => rfl
  | cons e s => simp [preferred?, h, preferred?_tail_eq_none h]

theorem closingFrom_eq {q : Char} (hq : q ≠ '\\') (width : Nat) (fallback : Option Nat) (s : Text) :
    closingFrom q width fallback s = ((preferred? q s).map (width + ·)).or fallback := by
  fun_induction closingFrom q width fallback s with
  | case1 => rfl
  | case2 => simp [preferred?]
  | case3 width fallback c h => simp [preferred?, h]
  | case4 width fallback c d s hpair ih =>
    have hc : c ≠ q := by
      rintro rfl
      exact hq (by simp_all [isPair])
    rw [ih, preferred?]
    cases hs : preferred? q s with
    | some n =>
      simp only [hpair, if_true, Option.map_some, Option.some_or]
      rw [Nat.add_assoc, Nat.add_comm 2 n]
    | none =>
      rw [preferred?_cons_of_none hs]
      by_cases hd : d = q <;> simp [hc, hd]
  | case5 width fallback d s hpair => simp [preferred?, hpair]
  | case6 width fallback c d s hpair hc ih =>
    rw [ih, preferred?]
    cases preferred? q (d :: s) with
    | none => simp [hpair, hc]
    | some n =>
      simp only [hpair, hc, Bool.false_eq_true, if_false, Option.map_some, Option.none_or,
        Option.some_or]
      rw [Nat.add_assoc, Nat.add_comm 1 n]

/-- **The pass finds the preferred end**, for every mark but the backslash itself. -/
theorem closing?_eq_preferred? {q : Char} (hq : q ≠ '\\') (s : Text) :
    closing? q s = preferred? q s := by
  rw [closing?, closingFrom_eq hq]
  simp

end Interpolation.StringLiteral
