import Interpolation.Proofs.Token.Steps
import Mathlib.Data.List.Forall2

/-!
# The rules as patterns

Every rule for tokens inside an expression is described by a pattern: a class of characters, a
sequence, a choice or a repetition. A text can match a pattern in many ways, and what counts is the
way that comes first when the alternatives of a choice are tried in their order and repetition goes
on as long as it can. `Pattern.ways` lists all ways in that order.

The rules compute what the first way takes without trying any others. For words and runs that is
plain to see, as there is nothing to go back for. For strings it is not: a backslash may be taken by
itself or together with the character behind it, so there can be exponentially many ways, and the
first one is the one that `StringLiteral.preferred?` prefers.
-/

namespace Interpolation

/-! ## Patterns -/

/-- A pattern for the start of a text. -/
inductive Pattern where
  /-- Nothing. -/
  | empty
  /-- One character of a class. -/
  | char (p : Char → Bool)
  /-- A pattern and then another one. -/
  | seq (first second : Pattern)
  /-- One of two patterns, of which the first is tried first. -/
  | alt (first second : Pattern)
  /-- A pattern any number of times, of which more are tried first. -/
  | star (p : Pattern)

namespace Pattern

open Token (Rule)

/-- What is left of a text when something is done with it any number of times, each time with what
the time before has left. More times are tried first, and a time that takes nothing is none. -/
def repeated (once : Text → List Text) (s : Text) : List Text :=
  ((once s).filter (·.length < s.length)).attach.flatMap (fun r ↦ repeated once r.1) ++ [s]
termination_by s.length
decreasing_by exact of_decide_eq_true (List.mem_filter.mp r.2).2

/-- What is left of a text behind the pattern, for every way to match it, the way that is tried
first at the head. -/
def ways : Pattern → Text → List Text
  | .empty, s => [s]
  | .char _, [] => []
  | .char p, c :: s => if p c then [s] else []
  | .seq a b, s => (a.ways s).flatMap b.ways
  | .alt a b, s => a.ways s ++ b.ways s
  | .star p, s => repeated p.ways s

/-- The number of characters that the first way to match the pattern takes. -/
def width? (p : Pattern) (s : Text) : Option Nat :=
  (p.ways s).head?.map fun rest ↦ s.length - rest.length

theorem repeated_eq (once : Text → List Text) (s : Text) :
    repeated once s =
      ((once s).filter (·.length < s.length)).flatMap (repeated once) ++ [s] := by
  rw [repeated, List.flatMap_subtype fun _ _ ↦ rfl, List.unattach_attach]

/-- A repetition and what follows it: one more time is tried first, and then what follows. -/
theorem ways_seq_star (p q : Pattern) (s : Text) :
    (seq (star p) q).ways s =
      ((p.ways s).filter (·.length < s.length)).flatMap (seq (star p) q).ways ++ q.ways s := by
  change (repeated p.ways s).flatMap q.ways = _
  rw [repeated_eq, List.flatMap_append, List.flatMap_assoc, List.flatMap_singleton]
  rfl

theorem ways_char (p : Char → Bool) (c : Char) (s : Text) :
    (char p).ways (c :: s) = if p c then [s] else [] := rfl

/-- A pattern whose first way leaves what `width` drops takes as much as `width` says. -/
theorem width?_eq {p : Pattern} {s : Text} {width : Option Nat}
    (h : (p.ways s).head? = width.map s.drop) (hle : ∀ n ∈ width, n ≤ s.length) :
    p.width? s = width := by
  rw [width?, h]
  cases width with
  | none => rfl
  | some n =>
    have hn := hle n rfl
    rw [Option.map_some, Option.map_some, List.length_drop, Nat.sub_sub_self hn]

/-! ## Words and runs -/

def word (w : Text) : Pattern := w.foldr (fun c p ↦ seq (char (· = c)) p) empty

/-- The pattern of a run that starts with a character of one class and goes on with another. -/
def run (first rest : Char → Bool) : Pattern := seq (char first) (star (char rest))

theorem ways_word (w s : Text) :
    (word w).ways s = if w.isPrefixOf s then [s.drop w.length] else [] := by
  induction w generalizing s with
  | nil => rfl
  | cons a w ih =>
    cases s with
    | nil => rfl
    | cons c s =>
      change ((char (· = a)).ways (c :: s)).flatMap (word w).ways = _
      by_cases hc : c = a
      · subst hc
        simp [ways_char, ih]
      · simp [ways_char, hc, Ne.symm hc]

theorem width?_word (w s : Text) : (word w).width? s = Rule.word w s := by
  refine width?_eq ?_ fun n hn ↦ ?_
  · rw [ways_word, Rule.word]
    split <;> rfl
  · obtain ⟨hstart, heq⟩ := Option.ite_none_right_eq_some.mp hn
    cases heq
    exact (List.isPrefixOf_iff_prefix.mp hstart).length_le

theorem width?_alt (p q : Pattern) (s : Text) :
    (alt p q).width? s = (p.width? s).or (q.width? s) := by
  rw [width?, ways, List.head?_append, Option.map_or]
  rfl

theorem width?_oneOf (w w' s : Text) :
    (alt (word w) (word w')).width? s = Rule.oneOf [w, w'] s := by
  rw [width?_alt, width?_word, width?_word, Rule.oneOf, List.findSome?_cons,
    List.findSome?_singleton]
  cases Rule.word w s <;> rfl

theorem head?_ways_star_char (p : Char → Bool) (s : Text) :
    ((star (char p)).ways s).head? = some (s.drop (s.takeWhile p).length) := by
  induction s with
  | nil =>
    rw [ways, repeated_eq]
    rfl
  | cons c s ih =>
    rw [ways, repeated_eq, ways_char]
    cases hc : p c with
    | false => simp [hc]
    | true =>
      rw [ways] at ih
      simp [hc, ih]

theorem width?_run (p q : Char → Bool) (c : Char) (s : Text) :
    (run p q).width? (c :: s) = if p c then some ((s.takeWhile q).length + 1) else none := by
  have hle := (List.takeWhile_prefix q (l := s)).length_le
  rw [width?, run, ways, ways_char]
  split
  · rw [List.flatMap_singleton, head?_ways_star_char, Option.map_some, List.length_drop,
      List.length_cons]
    congr 1
    omega
  · rfl

theorem width?_run_self (p : Char → Bool) (s : Text) : (run p p).width? s = Rule.run p s := by
  cases s with
  | nil => rfl
  | cons c s =>
    rw [width?_run, Rule.run]
    cases hc : p c with
    | false => simp [hc]
    | true => simp [hc]

theorem width?_name (s : Text) : (run Char.isAlpha Rule.isNameChar).width? s = Rule.name s := by
  cases s with
  | nil => rfl
  | cons c s => exact width?_run _ _ c s

/-! ## Strings -/

/-- The pattern of a pair, or of a character other than the mark `q`. -/
def unit (q : Char) : Pattern :=
  .alt (.seq (.char (· = '\\')) (.char (· ≠ '\n'))) (.char (· ≠ q))

/-- The pattern of a string behind its first mark `q`. -/
def body (q : Char) : Pattern := .seq (.star (unit q)) (.char (· = q))

/-- The pattern of a string with the mark `q`. -/
def string (q : Char) : Pattern := .seq (.char (· = q)) (body q)

theorem ways_unit_cons_cons (q c d : Char) (s : Text) :
    (unit q).ways (c :: d :: s) =
      (if StringLiteral.isPair c d then [s] else []) ++ if c = q then [] else [d :: s] := by
  have hpair : (seq (.char (· = '\\')) (.char (· ≠ '\n'))).ways (c :: d :: s) =
      if StringLiteral.isPair c d then [s] else [] := by
    by_cases hc : c = '\\'
    · by_cases hd : d = '\n' <;> simp [ways, StringLiteral.isPair, hc, hd]
    · simp [ways, StringLiteral.isPair, hc]
  have hsingle : (char (· ≠ q)).ways (c :: d :: s) = if c = q then [] else [d :: s] := by
    by_cases hq : c = q <;> simp [ways_char, hq]
  rw [← hpair, ← hsingle]
  rfl

theorem ways_unit_singleton (q c : Char) : (unit q).ways [c] = if c = q then [] else [[]] := by
  by_cases hc : c = '\\' <;> by_cases hq : c = q <;> simp [unit, ways, hc, hq]

theorem length_lt_of_mem_ways_unit {q : Char} {s r : Text} (h : r ∈ (unit q).ways s) :
    r.length < s.length := by
  match s with
  | [] => simp [unit, ways] at h
  | [c] =>
    rw [ways_unit_singleton] at h
    split at h <;> simp_all
  | c :: d :: s =>
    rw [ways_unit_cons_cons, List.mem_append] at h
    rcases h with h | h
    · split at h
      · rw [List.mem_singleton.mp h, List.length_cons, List.length_cons]
        omega
      · cases h
    · split at h
      · cases h
      · rw [List.mem_singleton.mp h, List.length_cons]
        exact Nat.lt_succ_self _

/-- Behind the first mark: one more unit is tried first, and then the last mark. -/
theorem ways_body (q : Char) (s : Text) :
    (body q).ways s = ((unit q).ways s).flatMap (body q).ways ++ (char (· = q)).ways s := by
  have hfilter : ((unit q).ways s).filter (·.length < s.length) = (unit q).ways s :=
    List.filter_eq_self.mpr fun r hr ↦ decide_eq_true (length_lt_of_mem_ways_unit hr)
  rw [body, ways_seq_star, hfilter]

theorem ways_body_cons_cons (q c d : Char) (s : Text) :
    (body q).ways (c :: d :: s) =
      (if StringLiteral.isPair c d then (body q).ways s else []) ++
        if c = q then [d :: s] else (body q).ways (d :: s) := by
  rw [ways_body, ways_unit_cons_cons, ways_char, List.flatMap_append, List.append_assoc]
  congr 1
  · split <;> simp
  · by_cases hq : c = q <;> simp [hq]

/-- **The first way to match a string ends it where `preferred?` says.** -/
theorem head?_ways_body (q : Char) (s : Text) :
    ((body q).ways s).head? = (StringLiteral.preferred? q s).map s.drop := by
  fun_induction StringLiteral.preferred? q s with
  | case1 =>
    rw [ways_body]
    simp [unit, ways]
  | case2 =>
    rw [ways_body, ways_unit_singleton, if_pos rfl]
    simp [ways]
  | case3 c hc =>
    rw [ways_body, ways_unit_singleton, if_neg hc, List.flatMap_singleton, ways_body]
    simp [unit, ways, hc]
  | case4 c d s pair single ihs ihds =>
    have hpair : (if StringLiteral.isPair c d then (body q).ways s else []).head? =
        pair.map (c :: d :: s).drop := by
      simp only [pair]
      split
      · rw [ihs, Option.map_map]
        rfl
      · rfl
    have hsingle : (if c = q then [d :: s] else (body q).ways (d :: s)).head? =
        single.map (c :: d :: s).drop := by
      simp only [single]
      split
      · rfl
      · rw [ihds, Option.map_map]
        rfl
    rw [ways_body_cons_cons, List.head?_append, hpair, hsingle, Option.map_or]

theorem width?_string {q : Char} (hq : q ≠ '\\') (s : Text) :
    (string q).width? s = StringLiteral.width? q s := by
  cases s with
  | nil => rfl
  | cons c s =>
    simp only [width?, string, ways, StringLiteral.width?, decide_eq_true_eq]
    split
    · rw [List.flatMap_singleton, head?_ways_body, ← StringLiteral.closing?_eq_preferred? hq]
      cases hclosing : StringLiteral.closing? q s with
      | none => rfl
      | some n =>
        have hle := StringLiteral.closing?_le hclosing
        rw [Option.map_some, Option.map_some, Option.map_some, List.length_drop, List.length_cons]
        congr 1
        omega
    · rfl

/-! ## The table -/

/-- The patterns of the rules, in the order of the table. -/
def table : List Pattern :=
  [run Text.isWhite Text.isWhite,
    alt (word "true".toList) (word "false".toList),
    string Quote.double.char,
    string Quote.single.char,
    run Char.isDigit Char.isDigit,
    word ['}'],
    word [':'],
    word ['.'],
    word ['-'],
    alt (word "!".toList) (word "not".toList),
    word "empty".toList,
    word ['?'],
    alt (word "or".toList) (word "||".toList),
    alt (word "and".toList) (word "&&".toList),
    alt (word "==".toList) (word "eq".toList),
    alt (word "!=".toList) (word "ne".toList),
    alt (word ">".toList) (word "gt".toList),
    alt (word "<".toList) (word "lt".toList),
    run Char.isAlpha Rule.isNameChar,
    word ['('],
    word [')']]

/-- **Every rule takes what the first way to match its pattern takes.** -/
theorem forall₂_table :
    List.Forall₂ (fun p r ↦ ∀ s, width? p s = Rule.width r s) table Rule.table := by
  simp only [table, Rule.table, List.forall₂_cons]
  exact ⟨width?_run_self _, width?_oneOf _ _, width?_string (by decide), width?_string (by decide),
    width?_run_self _, width?_word _, width?_word _, width?_word _, width?_word _, width?_oneOf _ _,
    width?_word _, width?_word _, width?_oneOf _ _, width?_oneOf _ _, width?_oneOf _ _,
    width?_oneOf _ _, width?_oneOf _ _, width?_oneOf _ _, width?_name, width?_word _,
    width?_word _, .nil⟩

end Pattern

end Interpolation
