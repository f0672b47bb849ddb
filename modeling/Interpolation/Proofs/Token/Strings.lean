import Interpolation.Lowering
import Interpolation.Proofs.Token.Pattern

/-!
# Where strings end

The pattern of a string (`Pattern.string`) is a quotation mark, then any number of times a pair or a
character other than the mark, then the mark. A pair is a backslash and any character but a line
feed. Since a backslash may also be taken by itself, a text can match in many ways, exponentially
many in its length, and the first of them is what counts.

None of the back and forth among them is needed to see where a string ends. Cut the text behind the
first mark into *units* from left to right, a pair wherever there is one and single characters
otherwise. The string ends at the first mark that is a unit. If no mark is, then every mark is the
second half of a pair, and the string ends at the last of them: of all places to give up a pair that
is the one tried first.
-/

namespace Interpolation

/-! ## Units -/

namespace StringLiteral

/-- The text cut into units from left to right: a pair where there is one, and otherwise a character
by itself. -/
def units : Text → List Text
  | [] => []
  | [c] => [[c]]
  | c :: d :: s => if isPair c d then [c, d] :: units s else [c] :: units (d :: s)

theorem flatten_units (s : Text) : (units s).flatten = s := by
  fun_induction units s with
  | case1 => rfl
  | case2 => rfl
  | case3 c d s hpair ih => rw [List.flatten_cons, ih, List.cons_append, List.singleton_append]
  | case4 c d s hpair ih => rw [List.flatten_cons, ih, List.singleton_append]

/-- A unit that holds the mark is the mark, or the mark behind a backslash. -/
theorem eq_of_mem_of_mem_units {q : Char} (hq : q ≠ '\\') {s u : Text} (hu : u ∈ units s)
    (hmem : q ∈ u) : u = [q] ∨ u = ['\\', q] := by
  fun_induction units s with
  | case1 => cases hu
  | case2 c =>
    obtain rfl := List.mem_singleton.mp hu
    exact .inl (by rw [List.mem_singleton.mp hmem])
  | case3 c d s hpair ih =>
    rcases List.mem_cons.mp hu with rfl | hu
    · have hc : c = '\\' := of_decide_eq_true (Bool.and_eq_true_iff.mp hpair).1
      subst hc
      rcases List.mem_cons.mp hmem with h | h
      · exact absurd h hq
      · exact .inr (by rw [List.mem_singleton.mp h])
    · exact ih hu
  | case4 c d s hpair ih =>
    rcases List.mem_cons.mp hu with rfl | hu
    · exact .inl (by rw [List.mem_singleton.mp hmem])
    · exact ih hu

/-- A string ends at the first mark that is a unit. -/
theorem closingFrom_of_alone {q : Char} {s : Text} {front back : List Text}
    (hunits : units s = front ++ [q] :: back) (hfront : [q] ∉ front) (width : Nat)
    (fallback : Option Nat) :
    closingFrom q width fallback s = some (width + front.flatten.length + 1) := by
  fun_induction units s generalizing front width fallback with
  | case1 => exact absurd hunits.symm (List.append_ne_nil_of_right_ne_nil _ (List.cons_ne_nil _ _))
  | case2 c =>
    cases front with
    | nil =>
      obtain rfl : c = q := by simpa using (List.cons.inj hunits).1
      exact if_pos rfl
    | cons u front => simp at hunits
  | case3 c d s hpair ih =>
    rw [closingFrom, if_pos hpair]
    cases front with
    | nil => simp at hunits
    | cons u front =>
      obtain ⟨rfl, htail⟩ := List.cons.inj hunits
      rw [ih htail (List.not_mem_of_not_mem_cons hfront), List.flatten_cons, List.length_append]
      simp only [List.length_cons, List.length_nil, Option.some.injEq]
      omega
  | case4 c d s hpair ih =>
    rw [closingFrom, if_neg hpair]
    cases front with
    | nil =>
      obtain rfl : c = q := by simpa using (List.cons.inj hunits).1
      exact if_pos rfl
    | cons u front =>
      obtain ⟨rfl, htail⟩ := List.cons.inj hunits
      have hc : c ≠ q := by
        rintro rfl
        exact hfront List.mem_cons_self
      rw [if_neg hc, ih htail (List.not_mem_of_not_mem_cons hfront), List.flatten_cons,
        List.length_append, List.length_singleton]
      simp only [Option.some.injEq]
      omega

/-- Without a mark there is nothing to end a string but what was seen before. -/
theorem closingFrom_of_notMem {q : Char} {r : Text} (hr : q ∉ r) (width : Nat)
    (fallback : Option Nat) : closingFrom q width fallback r = fallback := by
  fun_induction closingFrom q width fallback r with
  | case1 => rfl
  | case2 => exact absurd List.mem_cons_self hr
  | case3 => rfl
  | case4 width fallback c d s hpair ih =>
    simp only [List.mem_cons, not_or] at hr
    rw [ih hr.2.2, if_neg (Ne.symm hr.2.1)]
  | case5 => exact absurd List.mem_cons_self hr
  | case6 width fallback c d s hpair hc ih => exact ih (List.not_mem_of_not_mem_cons hr)

/-- If no mark is a unit, a string ends at the last mark. -/
theorem closingFrom_of_paired {q : Char} (hq : q ≠ '\\') {s body rest : Text}
    (hunits : [q] ∉ units s) (hs : s = body ++ q :: rest) (hrest : q ∉ rest) (width : Nat)
    (fallback : Option Nat) :
    closingFrom q width fallback s = some (width + body.length + 1) := by
  fun_induction units s generalizing body width fallback with
  | case1 => exact absurd hs.symm (List.append_ne_nil_of_right_ne_nil _ (List.cons_ne_nil _ _))
  | case2 c =>
    cases body with
    | nil =>
      cases hs
      exact absurd List.mem_cons_self hunits
    | cons b body => simp at hs
  | case3 c d s hpair ih =>
    rw [closingFrom, if_pos hpair]
    match body with
    | [] =>
      cases hs
      exact absurd (of_decide_eq_true (Bool.and_eq_true_iff.mp hpair).1) hq
    | [b] =>
      -- the mark in the pair is the last one, and the pass falls back to it
      cases hs
      rw [closingFrom_of_notMem hrest, if_pos rfl]
      rfl
    | b :: b' :: body =>
      cases hs
      rw [ih (List.not_mem_of_not_mem_cons hunits) rfl]
      simp only [List.length_cons, Option.some.injEq]
      omega
  | case4 c d s hpair ih =>
    rw [closingFrom, if_neg hpair]
    have hc : c ≠ q := by
      rintro rfl
      exact hunits List.mem_cons_self
    cases body with
    | nil => exact absurd (List.cons.inj hs).1 hc
    | cons b body =>
      rw [if_neg hc, ih (List.not_mem_of_not_mem_cons hunits) (List.cons.inj hs).2]
      simp only [List.length_cons, Option.some.injEq]
      omega

/-! ## Where the pass stops -/

theorem exists_last_mark {q : Char} {s : Text} (h : q ∈ s) :
    ∃ body rest, s = body ++ q :: rest ∧ q ∉ rest := by
  obtain ⟨as, bs, heq, hnot⟩ := List.eq_append_cons_of_mem (List.mem_reverse.mpr h)
  refine ⟨bs.reverse, as.reverse, ?_, fun hmem ↦ hnot (List.mem_reverse.mp hmem)⟩
  rw [← List.reverse_reverse s, heq]
  simp

theorem closing?_of_mem {q : Char} (hq : q ≠ '\\') {s : Text} (h : q ∈ s) :
    ∃ body rest, s = body ++ q :: rest ∧ closing? q s = some (body.length + 1) := by
  by_cases hunit : [q] ∈ units s
  · obtain ⟨front, back, hunits, hfront⟩ := List.eq_append_cons_of_mem hunit
    refine ⟨front.flatten, back.flatten, ?_, ?_⟩
    · rw [← flatten_units s, hunits, List.flatten_append, List.flatten_cons, List.singleton_append]
    · rw [closing?, closingFrom_of_alone hunits hfront, Nat.zero_add]
  · obtain ⟨body, rest, hs, hrest⟩ := exists_last_mark h
    refine ⟨body, rest, hs, ?_⟩
    rw [closing?, closingFrom_of_paired hq hunit hs hrest, Nat.zero_add]

/-- **A string ends exactly if its mark occurs again.** -/
theorem closing?_isSome_iff {q : Char} (hq : q ≠ '\\') {s : Text} :
    (closing? q s).isSome ↔ q ∈ s := by
  constructor
  · intro h
    apply Classical.byContradiction
    intro hnot
    rw [closing?, closingFrom_of_notMem hnot] at h
    cases h
  · intro h
    obtain ⟨body, rest, -, hclosing⟩ := closing?_of_mem hq h
    rw [hclosing]
    rfl

theorem exists_body_of_closing? {q : Char} (hq : q ≠ '\\') {s : Text} {n : Nat}
    (h : closing? q s = some n) : ∃ body rest, s = body ++ q :: rest ∧ n = body.length + 1 := by
  have hmem : q ∈ s := (closing?_isSome_iff hq).mp (by rw [h]; rfl)
  obtain ⟨body, rest, hs, hclosing⟩ := closing?_of_mem hq hmem
  exact ⟨body, rest, hs, Option.some.inj (h.symm.trans hclosing)⟩

end StringLiteral

/-! ## The rule for strings -/

namespace Token

open Rule (widthOf)
open StringLiteral (units)

theorem widthOf_string (q : Quote) (s : Text) :
    widthOf (.string q) (q.char :: s) = (StringLiteral.closing? q.char s).map (· + 1) := by
  cases q <;> rfl

/-- How the rule for strings with the mark `q` reads a text that starts with the mark, where `s` is
the text behind it. -/
structure ReadsString (q : Quote) (s : Text) : Prop where
  /-- No other rule has a say. -/
  recognized : recognize (q.char :: s) =
    (widthOf (.string q) (q.char :: s)).map fun n ↦ (.string q, n)
  /-- The rule follows the first way to match the pattern, if there is any. -/
  first_way : ((Pattern.string q.char).ways (q.char :: s)).head? =
    (widthOf (.string q) (q.char :: s)).map (q.char :: s).drop
  /-- There is a string exactly if the mark occurs again. -/
  matches_iff : (widthOf (.string q) (q.char :: s)).isSome ↔ q.char ∈ s
  /-- The units are all there is. -/
  cut : (units s).flatten = s
  /-- The string ends at the first mark that is a unit. -/
  alone : ∀ front back, units s = front ++ [q.char] :: back → [q.char] ∉ front →
    widthOf (.string q) (q.char :: s) = some (front.flatten.length + 2)
  /-- If no mark is a unit, every mark is the second half of a pair, and the string ends at the last
  one. -/
  paired : [q.char] ∉ units s → (∀ u ∈ units s, q.char ∈ u → u = ['\\', q.char]) ∧
    ∀ body rest, s = body ++ q.char :: rest → q.char ∉ rest →
      widthOf (.string q) (q.char :: s) = some (body.length + 2)
  /-- The string is a mark, a body and the mark again, and its value is the body. -/
  text : ∀ n, widthOf (.string q) (q.char :: s) = some n →
    ∃ body, (q.char :: s).take n = q.char :: (body ++ [q.char]) ∧ n = body.length + 2 ∧
      unquote ((q.char :: s).take n) = body

/-- **Strings end where one scan from left to right says.** Of the many ways to match the pattern of
a string, the one that is tried first ends at the first mark that is not paired with a backslash, or
at the last mark of the whole text if all of them are. -/
theorem string_ends_by_units (q : Quote) (s : Text) : ReadsString q s := by
  have hq := q.char_ne_backslash
  refine ⟨?_, ?_, ?_, StringLiteral.flatten_units s, ?_, ?_, ?_⟩
  · rw [recognize_quote, widthOf_string, Option.map_map]
    rfl
  · rw [widthOf_string, StringLiteral.closing?_eq_preferred? hq, Option.map_map]
    have hways : (Pattern.string q.char).ways (q.char :: s) = (Pattern.body q.char).ways s := by
      rw [Pattern.string, Pattern.ways, Pattern.ways_char, if_pos (decide_eq_true rfl),
        List.flatMap_singleton]
    rw [hways, Pattern.head?_ways_body]
    rfl
  · rw [widthOf_string, Option.isSome_map, StringLiteral.closing?_isSome_iff hq]
  · intro front back hunits hfront
    rw [widthOf_string, StringLiteral.closing?,
      StringLiteral.closingFrom_of_alone hunits hfront, Nat.zero_add]
    rfl
  · intro hunits
    refine ⟨fun u hu hmem ↦ ?_, fun body rest hs hrest ↦ ?_⟩
    · refine (StringLiteral.eq_of_mem_of_mem_units hq hu hmem).resolve_left ?_
      rintro rfl
      exact hunits hu
    · rw [widthOf_string, StringLiteral.closing?,
        StringLiteral.closingFrom_of_paired hq hunits hs hrest, Nat.zero_add]
      rfl
  · intro n hn
    rw [widthOf_string] at hn
    obtain ⟨m, hm, rfl⟩ := Option.map_eq_some_iff.mp hn
    obtain ⟨body, rest, rfl, rfl⟩ := StringLiteral.exists_body_of_closing? hq hm
    have htake : (q.char :: (body ++ q.char :: rest)).take (body.length + 1 + 1) =
        q.char :: (body ++ [q.char]) := by
      rw [List.take_succ_cons, List.take_length_add_append]
      rfl
    refine ⟨body, htake, rfl, ?_⟩
    rw [htake, unquote, List.tail_cons, List.dropLast_concat]

end Token

end Interpolation
