import Interpolation.Proofs.Template.Depth

/-!
# Reading makes progress

What the loop over the items of a template relies on when it reads an expression, and why it ends.

Reading an expression moves forward in the list of tokens, and never past its end. It takes no token
that stands outside of expressions, so in particular it never takes the closing brace that an error
is recovered from. If it succeeds, it has taken at least one token, and the token behind cannot go
on with the expression (`Parser.Advances`).

The limit on the depth may be as large as one likes, so it is not the reason why reading ends. The
reason is that every expression inside another one is read from fewer tokens: no more levels are
used than there are tokens, and one (`Parser.expression_eq_min`). For the same reason a depth that
is counted in a machine word does not overflow (`Parser.CountsBelow.eq_expressionAt`).

A round of the loop takes one literal, or all tokens up to the next closing brace, whether an item
could be read or not (`Parse.State.rest_round`). That is at least one token, so there are at most as
many rounds as tokens.
-/

namespace Interpolation

open Reading

/-! ## Expressions at a depth -/

namespace Parser

/-- Reads an expression at the given depth, where what stands between delimiters is at depth one. -/
def expressionAt (limit depth : Nat) (ts : List Token) : Reading Expr :=
  expression limit (limit + 1 - depth) ts

/-- Below the limit nothing is read, and the expressions inside another one are one level deeper. -/
theorem expressionAt_eq (limit depth : Nat) (ts : List Token) :
    expressionAt limit depth ts =
      if limit < depth then ⟨.error (.tooDeep limit (offsetOf ts)), ts⟩
      else expressionBy (expressionAt limit (depth + 1)) ts := by
  rw [expressionAt]
  split
  · have hlevels : limit + 1 - depth = 0 := by omega
    rw [hlevels, expression]
  · have hlevels : limit + 1 - depth = limit + 1 - (depth + 1) + 1 := by omega
    rw [hlevels, expression]
    rfl

/-- The function reads expressions at a depth that it counts in a type with `size` values. What it
does where the next depth is not one of them is left open. -/
def CountsBelow (size limit : Nat) (f : Nat → List Token → Reading Expr) : Prop :=
  ∀ depth ts, depth + 1 < size → f depth ts =
    if limit < depth then ⟨.error (.tooDeep limit (offsetOf ts)), ts⟩
    else expressionBy (f (depth + 1)) ts

end Parser

/-! ## The levels that are used -/

theorem Reading.bind_congr {α β : Type} {r : Reading α} {f g : α → List Token → Reading β}
    (h : ∀ value, f value r.rest = g value r.rest) : r.bind f = r.bind g := by
  rw [bind, bind]
  split
  · exact h _
  · rfl

namespace Parser

section

variable {inner inner' : List Token → Reading Expr} {ts : List Token}
  (h : ∀ us, us.length < ts.length → inner us = inner' us)
include h

/-- Only what the reader of inner expressions makes of fewer tokens matters. -/
theorem primary_congr : primary inner ts = primary inner' ts := by
  cases ts with
  | nil => rfl
  | cons t ts => rw [primary, primary, h ts (Nat.lt_succ_self _)]

theorem binarySuffix_congr (lhs : Expr) :
    binarySuffix inner lhs ts = binarySuffix inner' lhs ts := by
  cases ts with
  | nil => rfl
  | cons t ts => rw [binarySuffix, binarySuffix, h ts (Nat.lt_succ_self _)]

theorem ternarySuffix_congr (hinner : ∀ us, (inner us).Within us.length) (condition : Expr) :
    ternarySuffix inner condition ts = ternarySuffix inner' condition ts := by
  cases ts with
  | nil => rfl
  | cons t ts =>
    rw [ternarySuffix, ternarySuffix, ← h ts (Nat.lt_succ_self _)]
    split
    · refine bind_congr fun consequent ↦ bind_congr fun _ ↦ ?_
      -- the second branch is read from what the first one and the colon leave
      have hrest : (expect .colon (inner ts).rest).rest.length ≤ ts.length :=
        (within_expect _ _).mono (hinner ts)
      rw [h _ (Nat.lt_succ_of_le hrest)]
    · rfl

theorem expressionBy_congr (hinner : ∀ us, (inner us).Within us.length) :
    expressionBy inner ts = expressionBy inner' ts := by
  rw [expressionBy, expressionBy, ← primary_congr h]
  refine bind_congr fun head ↦ ?_
  have hprimary := within_primary hinner ts
  have hrest := fun us hus ↦ h us (Nat.lt_of_lt_of_le hus hprimary)
  rw [← binarySuffix_congr hrest]
  refine bind_congr fun body ↦ ?_
  have hbinary := within_binarySuffix hinner head (primary inner ts).rest
  exact ternarySuffix_congr (fun us hus ↦ hrest us (Nat.lt_of_lt_of_le hus hbinary)) hinner body

end

theorem expression_eq_of_length_lt {limit a b : Nat} {ts : List Token} (ha : ts.length < a)
    (hb : ts.length < b) : expression limit a ts = expression limit b ts := by
  induction a generalizing b ts with
  | zero => exact absurd ha (Nat.not_lt_zero _)
  | succ a ih =>
    obtain ⟨b, rfl⟩ := Nat.exists_eq_succ_of_ne_zero (Nat.ne_zero_of_lt hb)
    rw [expression, expression]
    refine expressionBy_congr (fun us hus ↦ ?_) (within_expression limit a)
    exact ih (Nat.lt_of_lt_of_le hus (Nat.le_of_lt_succ ha))
      (Nat.lt_of_lt_of_le hus (Nat.le_of_lt_succ hb))

/-- **The depth stays small.** From one call to the next the depth grows by one and there is a token
less, so a depth and the number of tokens behind it bound all depths that are ever counted. -/
theorem CountsBelow.eq_expressionAt {size limit depth : Nat} {f : Nat → List Token → Reading Expr}
    (hf : CountsBelow size limit f) {ts : List Token} (h : depth + ts.length + 1 < size) :
    f depth ts = expressionAt limit depth ts := by
  induction hn : ts.length using Nat.strongRecOn generalizing depth ts with
  | ind n ih =>
    subst hn
    rw [hf depth ts (by omega), expressionAt_eq]
    split
    · rfl
    · refine (expressionBy_congr (fun us hus ↦ ?_) fun us ↦ within_expression limit _ us).symm
      exact (ih us.length hus (by omega) rfl).symm

/-- **No more levels are used than there are tokens, and one.** -/
theorem expression_eq_min (limit levels : Nat) (ts : List Token) :
    expression limit levels ts = expression limit (min levels (ts.length + 1)) ts := by
  by_cases hle : levels ≤ ts.length + 1
  · rw [Nat.min_eq_left hle]
  · rw [Nat.min_eq_right (Nat.le_of_not_le hle)]
    exact expression_eq_of_length_lt (by omega) (Nat.lt_succ_self _)

/-! ## One expression -/

/-- An expression was read, or could not be read, at a position in the tokens, and reading stopped
at the position `next`. -/
structure Advances (tokens : List Token) (position next : Nat) (r : Reading Expr) : Prop where
  /-- Reading does not go back. -/
  forward : position ≤ next
  /-- Reading does not go past the end. -/
  within : next ≤ tokens.length
  /-- What is left starts at the new position. -/
  rest_eq : r.rest = tokens.drop next
  /-- No literal text, no delimiter and no closing brace is taken, not even before an error. -/
  taken : ∀ t ∈ (tokens.drop position).take (next - position), t.kind.isInner
  /-- An expression has at least one token. -/
  lt_of_ok : ∀ e, r.result = .ok e → position < next
  /-- The token behind an expression cannot go on with it. -/
  settled_of_ok : ∀ e, r.result = .ok e → Settled (tokens.drop next)

theorem Advances.next_eq {tokens : List Token} {position next : Nat} {r : Reading Expr}
    (h : Advances tokens position next r) : next = tokens.length - r.rest.length := by
  rw [h.rest_eq, List.length_drop, Nat.sub_sub_self h.within]

/-- **Reading an expression moves forward,** whether it succeeds or fails. -/
theorem exists_advances (limit depth : Nat) {tokens : List Token} {position : Nat}
    (h : position ≤ tokens.length) :
    ∃ next, Advances tokens position next (expressionAt limit depth (tokens.drop position)) := by
  have hsound := sound_expression limit (limit + 1 - depth) (tokens.drop position)
  obtain ⟨front, htokens, hfront⟩ := hsound.taken
  change tokens.drop position = front ++ (expressionAt limit depth _).rest at htokens
  generalize hr : expressionAt limit depth (tokens.drop position) = r at htokens
  have hlength : tokens.length - position = front.length + r.rest.length := by
    rw [← List.length_drop, htokens, List.length_append]
  have hrest : r.rest = tokens.drop (position + front.length) := by
    rw [← List.drop_drop, htokens, List.drop_left]
  have hreads : ∀ e, r.result = .ok e →
      Reads (limit + 1 - depth) (tokens.drop position) e r.rest := by
    intro e he
    have hok : expression limit (limit + 1 - depth) (tokens.drop position) = ⟨.ok e, r.rest⟩ := by
      rw [← he]
      exact hr
    exact reads_of_expression hok
  refine ⟨position + front.length, Nat.le_add_right _ _, by omega, hrest, ?_, ?_, ?_⟩
  · rw [Nat.add_sub_cancel_left, htokens, List.take_left]
    exact hfront
  · intro e he
    obtain ⟨front', htokens', hsigns⟩ := (hreads e he).starts
    obtain rfl : front = front' := List.append_cancel_right (htokens.symm.trans htokens')
    have hne : front ≠ [] := by
      rintro rfl
      exact e.signs_ne_nil hsigns.symm
    exact Nat.lt_add_of_pos_right (List.length_pos_iff.mpr hne)
  · intro e he
    rw [← hrest]
    exact (hreads e he).settled

end Parser

/-! ## One round -/

namespace Parse

namespace State

/-- A round takes literal text alone, and otherwise everything up to the next closing brace. -/
theorem rest_round (limit : Nat) (items : List Item) (errors : List ParseError) (t : Token)
    (ts : List Token) :
    (round limit ⟨items, errors, t :: ts⟩).rest =
      if t.kind = .literal then ts else Parser.recover (t :: ts) := by
  cases ht : t.kind with
  | literal =>
    have hitem : Parser.item limit (t :: ts) = ⟨.ok (.literal t.text), ts⟩ := by
      rw [Parser.item, ht]
      rfl
    rw [round, hitem, if_pos rfl]
  | opening d =>
    have hitem : Parser.item limit (t :: ts) = (Parser.enclosed limit ts).map (.embedded d) := by
      rw [Parser.item, ht]
    have hskip : Parser.recover (t :: ts) = Parser.recover ts := by
      rw [Parser.recover, List.dropWhile_cons_of_pos (by simp [ht]), Parser.recover]
    rw [if_neg (by simp), hskip, round, hitem]
    obtain ⟨e, heq⟩ | ⟨e, rest, heq, hrecover⟩ := Parser.enclosed_recover limit ts
    · rw [heq]
      rfl
    · rw [heq, ← hrecover]
      rfl
  | _ =>
    have hitem : Parser.item limit (t :: ts) = fail .item (t :: ts) := by
      rw [Parser.item, ht]
    rw [if_neg (by simp), round, hitem]
    rfl

/-- **A round takes at least one token.** -/
theorem exists_taken (limit : Nat) {s : State} (h : s.rest ≠ []) :
    ∃ taken, taken ≠ [] ∧ s.rest = taken ++ (s.round limit).rest := by
  obtain ⟨items, errors, rest⟩ := s
  obtain ⟨t, ts, rfl⟩ := List.exists_cons_of_ne_nil h
  rw [rest_round]
  split
  · exact ⟨[t], List.cons_ne_nil t [], rfl⟩
  · have hsplit := upToClosing_append_recover (t :: ts)
    refine ⟨upToClosing (t :: ts), fun hnil ↦ ?_, hsplit.symm⟩
    rw [hnil, List.nil_append] at hsplit
    have hlt : (Parser.recover (t :: ts)).length < ts.length + 1 := Parser.length_recover_lt
    rw [hsplit] at hlt
    exact Nat.lt_irrefl _ hlt

/-! ## All rounds -/

/-- **The loop ends,** after at most as many rounds as there are tokens. -/
theorem exists_runs (limit : Nat) (s : State) :
    ∃ n ≤ s.rest.length, ∃ s', Runs limit n s s' := by
  induction hn : s.rest.length using Nat.strongRecOn generalizing s with
  | ind n ih =>
    subst hn
    by_cases h : s.rest = []
    · exact ⟨0, Nat.zero_le _, s, .stop h⟩
    · obtain ⟨taken, hne, hrest⟩ := exists_taken limit h
      have hlt : (s.round limit).rest.length < s.rest.length := by
        have hpos := List.length_pos_iff.mpr hne
        have hlength := congrArg List.length hrest
        rw [List.length_append] at hlength
        omega
      obtain ⟨n, hn, s', hruns⟩ := ih _ hlt (s.round limit) rfl
      exact ⟨n + 1, Nat.lt_of_le_of_lt hn hlt, s', .next h hruns⟩

end State

end Parse

/-- **Reading makes progress.** At every position in every list of tokens, at every depth and under
every limit, reading an expression moves forward within the list and takes nothing that stands
outside of expressions. If it succeeds, it has taken at least one token, and the next one cannot go
on with the expression. It uses no more levels than there are tokens left, and one, so it makes no
difference that a machine counts them in a word, as long as the depth and the tokens fit into one.
Every round of the loop over the items takes at least one token, and the loop ends after at most as
many rounds as there are tokens, with the items and errors of the list. -/
theorem reading_progresses (limit : Nat) (tokens : List Token) :
    (∀ depth position, position ≤ tokens.length →
      (∃ next, Parser.Advances tokens position next
        (Parser.expressionAt limit depth (tokens.drop position))) ∧
      Parser.expressionAt limit depth (tokens.drop position) =
        Parser.expression limit (min (limit + 1 - depth) (tokens.length - position + 1))
          (tokens.drop position) ∧
      ∀ size f, Parser.CountsBelow size limit f → depth + (tokens.length - position) + 1 < size →
        f depth (tokens.drop position) =
          Parser.expressionAt limit depth (tokens.drop position)) ∧
    (∀ s : Parse.State, s.rest ≠ [] →
      ∃ taken, taken ≠ [] ∧ s.rest = taken ++ (s.round limit).rest) ∧
    ∃ n ≤ tokens.length, ∃ s, Parse.State.Runs limit n ⟨[], [], tokens⟩ s ∧
      Parse.ofTokens limit tokens = ⟨s.items.reverse, s.errors.reverse⟩ := by
  refine ⟨fun depth position h ↦ ⟨Parser.exists_advances limit depth h, ?_, ?_⟩,
    fun s h ↦ Parse.State.exists_taken limit h, ?_⟩
  · rw [← List.length_drop]
    exact Parser.expression_eq_min limit (limit + 1 - depth) (tokens.drop position)
  · intro size f hf hsize
    rw [← List.length_drop] at hsize
    exact hf.eq_expressionAt hsize
  · obtain ⟨n, hn, s, hruns⟩ := Parse.State.exists_runs limit ⟨[], [], tokens⟩
    exact ⟨n, hn, s, hruns, Parse.ofTokens_of_runs hruns⟩

/-- A path that breaks off before its closing brace and one that does not, `#{a.}${b}c`, under a
limit that they are far from. -/
theorem reading_progresses_broken :
    let tokens : List Token :=
      [(.opening .deferred, "#\x7b", 0), (.identifier, "a", 2), (.dot, ".", 3),
        (.closing, "\x7d", 4), (.opening .dynamic, "$\x7b", 5), (.identifier, "b", 7),
        (.closing, "\x7d", 8), (.literal, "c", 9)].map fun (k, s, n) ↦ ⟨k, s.toList, .outer, n⟩
    let error : ParseError := .unexpected .property .closing ['}'] 4
    (Parser.Advances tokens 1 3 (Parser.expressionAt 256 1 (tokens.drop 1)) ∧
      (Parser.expressionAt 256 1 (tokens.drop 1)).result = .error error) ∧
    (Parser.Advances tokens 5 6 (Parser.expressionAt 256 1 (tokens.drop 5)) ∧
      (Parser.expressionAt 256 1 (tokens.drop 5)).result = .ok (.path ⟨.name ['b'], []⟩)) ∧
    Parser.expressionAt 256 1 (tokens.drop 1) = Parser.expression 256 8 (tokens.drop 1) ∧
    (∀ f, Parser.CountsBelow UInt64.size 256 f →
      f 1 (tokens.drop 1) = Parser.expressionAt 256 1 (tokens.drop 1)) ∧
    (∃ taken, taken ≠ [] ∧ tokens = taken ++ (Parse.State.round 256 ⟨[], [], tokens⟩).rest ∧
      taken.length = 4) ∧
    ∃ n ≤ 8, ∃ s, Parse.State.Runs 256 n ⟨[], [], tokens⟩ s ∧
      s.items.reverse = [.embedded .dynamic (.path ⟨.name ['b'], []⟩), .literal ['c']] ∧
      s.errors.reverse = [error] := by
  intro tokens error
  obtain ⟨hcall, hround, n, hn, s, hruns, hparse⟩ := reading_progresses 256 tokens
  obtain ⟨⟨next, hbroken⟩, hlevels, hword⟩ := hcall 1 1 (by decide)
  obtain ⟨⟨next', hread⟩, -⟩ := hcall 1 5 (by decide)
  obtain rfl : next = 3 := hbroken.next_eq
  obtain rfl : next' = 6 := hread.next_eq
  refine ⟨⟨hbroken, rfl⟩, ⟨hread, rfl⟩, hlevels, fun f hf ↦ hword _ f hf (by decide), ?_, ?_⟩
  · obtain ⟨taken, hne, htaken⟩ := hround ⟨[], [], tokens⟩ (by decide)
    refine ⟨taken, hne, htaken, ?_⟩
    have hlength := congrArg List.length htaken
    rw [List.length_append] at hlength
    exact Nat.add_right_cancel hlength.symm
  · have hrounds : Parse.State.Runs 256 3 ⟨[], [], tokens⟩
        ⟨[.literal ['c'], .embedded .dynamic (.path ⟨.name ['b'], []⟩)], [error], []⟩ :=
      .next (by decide) (.next (by decide) (.next (by decide) (.stop rfl)))
    obtain ⟨hitems, herrors⟩ := Parse.mk.inj (hparse.symm.trans (Parse.ofTokens_of_runs hrounds))
    exact ⟨n, hn, s, hruns, hitems, herrors⟩

end Interpolation
