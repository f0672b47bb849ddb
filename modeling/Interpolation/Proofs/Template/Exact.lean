import Interpolation.Proofs.Template.Signs

/-!
# What the reader accepts

The reader of templates is characterized by what it returns: reading gives a template exactly when
the tokens have the signs of that template, its operators nest to the right and its expressions stay
within the depth limit (`parse_eq_ok_iff`).

Inside an expression the statement needs one thing more. An expression is read from the start of a
list of tokens, and what is left behind it is *settled*: its first token is neither a dot, nor a
binary operator, nor a question mark, so nothing of it could have gone on with the expression. That
is what rules out a second suffix at the same level. The operand of an operator takes every suffix
that follows, so only a path can be left to take one.
-/

namespace Interpolation

/-! ## Successful readings -/

namespace Reading

variable {α β : Type} {rest : List Token}

@[simp] theorem done_eq_ok_iff {a b : α} {ts : List Token} :
    done a ts = ⟨.ok b, rest⟩ ↔ a = b ∧ ts = rest := by
  simp [done]

@[simp] theorem fail_ne_ok {expected : Expectation} {ts : List Token} {a : α} :
    fail expected ts ≠ ⟨.ok a, rest⟩ := by
  simp [fail]

theorem bind_ok (a : α) (ts : List Token) (f : α → List Token → Reading β) :
    Reading.bind ⟨.ok a, ts⟩ f = f a ts := rfl

theorem bind_eq_ok_iff {r : Reading α} {f : α → List Token → Reading β} {b : β} :
    r.bind f = ⟨.ok b, rest⟩ ↔ ∃ a ts, r = ⟨.ok a, ts⟩ ∧ f a ts = ⟨.ok b, rest⟩ := by
  constructor
  · intro h
    rw [bind] at h
    split at h
    · rename_i a ha
      exact ⟨a, r.rest, by rw [← ha], h⟩
    · simp at h
  · rintro ⟨a, ts, rfl, h⟩
    exact h

theorem map_eq_ok_iff {r : Reading α} {f : α → β} {b : β} :
    r.map f = ⟨.ok b, rest⟩ ↔ ∃ a, r = ⟨.ok a, rest⟩ ∧ f a = b := by
  constructor
  · obtain ⟨result, ts⟩ := r
    cases result with
    | error e => simp [map, Except.map]
    | ok a =>
      intro h
      simp only [map, Except.map, mk.injEq, Except.ok.injEq] at h
      exact ⟨a, by rw [h.2], h.1⟩
  · rintro ⟨a, rfl, rfl⟩
    rfl

theorem expect_eq_ok_iff {kind : Token.Kind} {ts : List Token} {u : Unit} :
    expect kind ts = ⟨.ok u, rest⟩ ↔ ∃ t, ts = t :: rest ∧ t.kind = kind := by
  cases ts with
  | nil => simp [expect]
  | cons t ts =>
    rw [expect]
    split
    · rename_i hkind
      rw [done_eq_ok_iff]
      constructor
      · rintro ⟨-, rfl⟩
        exact ⟨t, rfl, hkind⟩
      · rintro ⟨u, heq, -⟩
        exact ⟨rfl, (List.cons.inj heq).2⟩
    · rename_i hkind
      refine iff_of_false fail_ne_ok ?_
      rintro ⟨u, heq, hu⟩
      exact hkind ((List.cons.inj heq).1 ▸ hu)

end Reading

/-! ## Tokens at the start of a list -/

/-- The list `ts` starts with tokens that have the given signs, and `rest` is left behind them. -/
def Starts (ts : List Token) (signs : List Sign) (rest : List Token) : Prop :=
  ∃ front, ts = front ++ rest ∧ front.map Token.sign = signs

section

variable {ts rest : List Token} {s : Sign} {ss ss' : List Sign}

@[simp] theorem starts_nil : Starts ts [] rest ↔ ts = rest := by
  simp [Starts]

theorem starts_cons :
    Starts ts (s :: ss) rest ↔ ∃ t us, ts = t :: us ∧ t.sign = s ∧ Starts us ss rest := by
  constructor
  · rintro ⟨front, rfl, hfront⟩
    obtain ⟨t, us, rfl, rfl, hus⟩ := List.map_eq_cons_iff.mp hfront
    exact ⟨t, us ++ rest, rfl, rfl, us, rfl, hus⟩
  · rintro ⟨t, us, rfl, rfl, front, rfl, rfl⟩
    exact ⟨t :: front, rfl, rfl⟩

theorem starts_append :
    Starts ts (ss ++ ss') rest ↔ ∃ us, Starts ts ss us ∧ Starts us ss' rest := by
  constructor
  · rintro ⟨front, rfl, hfront⟩
    obtain ⟨fs, gs, rfl, hfs, hgs⟩ := List.map_eq_append_iff.mp hfront
    exact ⟨gs ++ rest, ⟨fs, List.append_assoc fs gs rest, hfs⟩, gs, rfl, hgs⟩
  · rintro ⟨us, ⟨fs, rfl, rfl⟩, gs, rfl, rfl⟩
    exact ⟨fs ++ gs, (List.append_assoc fs gs rest).symm, List.map_append⟩

theorem starts_singleton : Starts ts [s] rest ↔ ∃ t, ts = t :: rest ∧ t.sign = s := by
  simp [starts_cons]

theorem starts_bare {k : Token.Kind} (hk : k.isBare) :
    Starts ts [.bare k] rest ↔ ∃ t, ts = t :: rest ∧ t.kind = k := by
  simp [starts_singleton, Token.sign_eq_bare_iff, hk]

theorem starts_cons_split :
    Starts ts (s :: ss) rest ↔ ∃ us, Starts ts [s] us ∧ Starts us ss rest :=
  @starts_append ts rest [s] ss

theorem Starts.kind_head {k : Token.Kind} (h : Starts ts [.bare k] rest) :
    ∀ t ∈ ts.head?, t.kind = k := by
  obtain ⟨t, rfl, ht⟩ := starts_singleton.mp h
  simpa using (Token.sign_eq_bare_iff.mp ht).1

theorem starts_nil_right : Starts ts ss [] ↔ ts.map Token.sign = ss := by
  simp [Starts]

end

def NoDot (ts : List Token) : Prop := ∀ t ∈ ts.head?, t.kind ≠ .dot

def NoBinary (ts : List Token) : Prop := ∀ t ∈ ts.head?, ∀ op, t.kind ≠ .binary op

def NoQuestion (ts : List Token) : Prop := ∀ t ∈ ts.head?, t.kind ≠ .question

/-- Nothing at the start of the list goes on with an expression before it. -/
structure Settled (ts : List Token) : Prop where
  noDot : NoDot ts
  noBinary : NoBinary ts
  noQuestion : NoQuestion ts

section

variable {ts rest : List Token} {k : Token.Kind}

theorem Starts.noDot (h : Starts ts [.bare k] rest) (hk : k ≠ .dot) : NoDot ts :=
  fun t ht ↦ h.kind_head t ht ▸ hk

theorem Starts.noBinary (h : Starts ts [.bare k] rest) (hk : ∀ op, k ≠ .binary op) :
    NoBinary ts :=
  fun t ht ↦ h.kind_head t ht ▸ hk

theorem Starts.noQuestion (h : Starts ts [.bare k] rest) (hk : k ≠ .question) : NoQuestion ts :=
  fun t ht ↦ h.kind_head t ht ▸ hk

theorem Starts.settled (h : Starts ts [.bare k] rest) (hk : k = .colon ∨ k = .closing) :
    Settled ts := by
  rcases hk with rfl | rfl
  all_goals exact ⟨h.noDot (by simp), h.noBinary (by simp), h.noQuestion (by simp)⟩

end

namespace Parser

open Reading

/-! ## Paths -/

theorem properties_eq_done {ts : List Token} (h : NoDot ts) (names : List Text) :
    properties names ts = done names.reverse ts := by
  match ts with
  | [] => rw [properties]
  | [t] => rw [properties, if_neg (h t rfl)]
  | t :: u :: ts => rw [properties, if_neg (h t rfl)]

theorem starts_of_properties {names ps : List Text} {ts rest : List Token}
    (h : properties names ts = ⟨.ok ps, rest⟩) :
    NoDot rest ∧ ∃ qs, ps = names.reverse ++ qs ∧ Starts ts (qs.flatMap propertySigns) rest := by
  fun_induction properties names ts with
  | case1 names =>
    obtain ⟨rfl, rfl⟩ := done_eq_ok_iff.mp h
    exact ⟨by simp [NoDot], [], by simp⟩
  | case2 => exact absurd h fail_ne_ok
  | case3 names t ht =>
    obtain ⟨rfl, rfl⟩ := done_eq_ok_iff.mp h
    exact ⟨by simpa [NoDot] using ht, [], by simp⟩
  | case4 names t u ts ht hu ih =>
    obtain ⟨hrest, qs, rfl, hqs⟩ := ih h
    refine ⟨hrest, u.text :: qs, by simp, ?_⟩
    rw [List.flatMap_cons, propertySigns, List.cons_append, starts_cons]
    refine ⟨t, u :: ts, rfl, Token.sign_eq_bare_iff.mpr ⟨ht, rfl⟩, ?_⟩
    exact starts_cons.mpr ⟨u, ts, rfl, Token.sign_eq_name_iff.mpr ⟨hu, rfl⟩, hqs⟩
  | case5 => exact absurd h fail_ne_ok
  | case6 names t u ts ht =>
    obtain ⟨rfl, rfl⟩ := done_eq_ok_iff.mp h
    exact ⟨by simpa [NoDot] using ht, [], by simp⟩

theorem properties_of_starts {qs : List Text} {ts rest : List Token} (hrest : NoDot rest)
    (h : Starts ts (qs.flatMap propertySigns) rest) (names : List Text) :
    properties names ts = ⟨.ok (names.reverse ++ qs), rest⟩ := by
  induction qs generalizing ts names with
  | nil =>
    obtain rfl := starts_nil.mp h
    rw [properties_eq_done hrest, List.append_nil, done]
  | cons q qs ih =>
    rw [List.flatMap_cons, propertySigns, List.cons_append, starts_cons] at h
    obtain ⟨t, us, rfl, ht, hus⟩ := h
    obtain ⟨u, vs, rfl, hu, hvs⟩ := starts_cons.mp hus
    obtain ⟨hkind, rfl⟩ := Token.sign_eq_name_iff.mp hu
    rw [properties, if_pos (Token.sign_eq_bare_iff.mp ht).1, if_pos hkind, ih hvs]
    simp

theorem path_eq_ok_iff {p : Path} {ts rest : List Token} :
    path ts = ⟨.ok p, rest⟩ ↔ Starts ts p.signs rest ∧ NoDot rest := by
  rw [Path.signs, starts_cons]
  constructor
  · intro h
    cases ts with
    | nil => exact absurd h fail_ne_ok
    | cons t ts =>
      rw [path] at h
      split at h
      · rename_i a ha
        obtain ⟨ps, hps, rfl⟩ := map_eq_ok_iff.mp h
        obtain ⟨hrest, qs, rfl, hqs⟩ := starts_of_properties hps
        exact ⟨⟨t, ts, rfl, Token.sign_eq_atom_iff.mpr ha, hqs⟩, hrest⟩
      · exact absurd h fail_ne_ok
  · rintro ⟨⟨t, us, rfl, ht, hus⟩, hrest⟩
    rw [path, Token.sign_eq_atom_iff.mp ht]
    exact map_eq_ok_iff.mpr ⟨_, properties_of_starts hrest hus [], rfl⟩

/-! ## Expressions -/

section

variable {inner : List Token → Reading Expr} {lhs condition e : Expr} {ts rest : List Token}

theorem path_ne_ok {t : Token} {us : List Token} {op : UnaryOp} {p : Path}
    (ht : t.kind = .unary op) : path (t :: us) ≠ ⟨.ok p, rest⟩ := by
  have hatom : t.atom? = none := by
    rw [Token.atom?, ht]
  rw [path, hatom]
  exact fail_ne_ok

theorem primary_eq_ok_iff :
    primary inner ts = ⟨.ok e, rest⟩ ↔
      (∃ p, e = .path p ∧ path ts = ⟨.ok p, rest⟩) ∨
        ∃ op operand us, e = .unary op operand ∧ Starts ts [.bare (.unary op)] us ∧
          inner us = ⟨.ok operand, rest⟩ := by
  constructor
  · intro h
    cases ts with
    | nil =>
      obtain ⟨p, hp, rfl⟩ := map_eq_ok_iff.mp h
      exact .inl ⟨p, rfl, hp⟩
    | cons t ts =>
      rw [primary] at h
      split at h
      · rename_i op hop
        obtain ⟨operand, hoperand, rfl⟩ := map_eq_ok_iff.mp h
        exact .inr ⟨op, operand, ts, rfl, (starts_bare rfl).mpr ⟨t, rfl, hop⟩, hoperand⟩
      · obtain ⟨p, hp, rfl⟩ := map_eq_ok_iff.mp h
        exact .inl ⟨p, rfl, hp⟩
  · rintro (⟨p, rfl, hp⟩ | ⟨op, operand, us, rfl, hts, hoperand⟩)
    · cases ts with
      | nil => exact map_eq_ok_iff.mpr ⟨p, hp, rfl⟩
      | cons t ts =>
        rw [primary]
        split
        · exact absurd hp (path_ne_ok ‹_›)
        · exact map_eq_ok_iff.mpr ⟨p, hp, rfl⟩
    · obtain ⟨t, rfl, ht⟩ := (starts_bare rfl).mp hts
      simp only [primary, ht]
      exact map_eq_ok_iff.mpr ⟨operand, hoperand, rfl⟩

theorem binarySuffix_eq_done (h : NoBinary ts) : binarySuffix inner lhs ts = done lhs ts := by
  cases ts with
  | nil => rfl
  | cons t ts =>
    rw [binarySuffix]
    split
    · exact absurd ‹_› (h t rfl _)
    · rfl

theorem binarySuffix_eq_ok_iff :
    binarySuffix inner lhs ts = ⟨.ok e, rest⟩ ↔
      (∃ op rhs us, e = .binary op lhs rhs ∧ Starts ts [.bare (.binary op)] us ∧
          inner us = ⟨.ok rhs, rest⟩) ∨
        e = lhs ∧ ts = rest ∧ NoBinary ts := by
  constructor
  · intro h
    cases ts with
    | nil =>
      obtain ⟨rfl, rfl⟩ := done_eq_ok_iff.mp h
      exact .inr ⟨rfl, rfl, by simp [NoBinary]⟩
    | cons t ts =>
      rw [binarySuffix] at h
      split at h
      · rename_i op hop
        obtain ⟨rhs, hrhs, rfl⟩ := map_eq_ok_iff.mp h
        exact .inl ⟨op, rhs, ts, rfl, (starts_bare rfl).mpr ⟨t, rfl, hop⟩, hrhs⟩
      · rename_i hop
        obtain ⟨rfl, rfl⟩ := done_eq_ok_iff.mp h
        exact .inr ⟨rfl, rfl, by simpa [NoBinary] using hop⟩
  · rintro (⟨op, rhs, us, rfl, hts, hrhs⟩ | ⟨rfl, rfl, hop⟩)
    · obtain ⟨t, rfl, ht⟩ := (starts_bare rfl).mp hts
      simp only [binarySuffix, ht]
      exact map_eq_ok_iff.mpr ⟨rhs, hrhs, rfl⟩
    · exact binarySuffix_eq_done hop

theorem ternarySuffix_eq_done (h : NoQuestion ts) :
    ternarySuffix inner condition ts = done condition ts := by
  cases ts with
  | nil => rfl
  | cons t ts => rw [ternarySuffix, if_neg (h t rfl)]

theorem ternarySuffix_eq_ok_iff :
    ternarySuffix inner condition ts = ⟨.ok e, rest⟩ ↔
      (∃ consequent alternate us vs ws, e = .ternary condition consequent alternate ∧
          Starts ts [.bare .question] us ∧ inner us = ⟨.ok consequent, vs⟩ ∧
          Starts vs [.bare .colon] ws ∧ inner ws = ⟨.ok alternate, rest⟩) ∨
        e = condition ∧ ts = rest ∧ NoQuestion ts := by
  constructor
  · intro h
    cases ts with
    | nil =>
      obtain ⟨rfl, rfl⟩ := done_eq_ok_iff.mp h
      exact .inr ⟨rfl, rfl, by simp [NoQuestion]⟩
    | cons t ts =>
      rw [ternarySuffix] at h
      split at h
      · rename_i ht
        obtain ⟨consequent, vs, hconsequent, h⟩ := bind_eq_ok_iff.mp h
        obtain ⟨_, ws, hcolon, h⟩ := bind_eq_ok_iff.mp h
        obtain ⟨alternate, halternate, rfl⟩ := map_eq_ok_iff.mp h
        exact .inl ⟨consequent, alternate, ts, vs, ws, rfl, (starts_bare rfl).mpr ⟨t, rfl, ht⟩,
          hconsequent, (starts_bare rfl).mpr (expect_eq_ok_iff.mp hcolon), halternate⟩
      · rename_i ht
        obtain ⟨rfl, rfl⟩ := done_eq_ok_iff.mp h
        exact .inr ⟨rfl, rfl, by simpa [NoQuestion] using ht⟩
  · rintro (⟨consequent, alternate, us, vs, ws, rfl, hts, hconsequent, hcolon, halternate⟩ |
      ⟨rfl, rfl, hquestion⟩)
    · obtain ⟨t, rfl, ht⟩ := (starts_bare rfl).mp hts
      rw [ternarySuffix, if_pos ht]
      refine bind_eq_ok_iff.mpr ⟨consequent, vs, hconsequent, ?_⟩
      refine bind_eq_ok_iff.mpr ⟨(), ws, expect_eq_ok_iff.mpr ((starts_bare rfl).mp hcolon), ?_⟩
      exact map_eq_ok_iff.mpr ⟨alternate, halternate, rfl⟩
    · exact ternarySuffix_eq_done hquestion

end

/-- The tokens `ts` start with the expression `e`, which nests to the right within `levels` levels,
and `rest` does not go on with it. -/
structure Reads (levels : Nat) (ts : List Token) (e : Expr) (rest : List Token) : Prop where
  starts : Starts ts e.signs rest
  rightNested : e.RightNested
  nesting_le : e.nesting ≤ levels
  settled : Settled rest

theorem expression_succ_eq_ok_iff {limit levels : Nat} {ts rest : List Token} {e : Expr} :
    expression limit (levels + 1) ts = ⟨.ok e, rest⟩ ↔
      ∃ head ts₁ body ts₂, primary (expression limit levels) ts = ⟨.ok head, ts₁⟩ ∧
        binarySuffix (expression limit levels) head ts₁ = ⟨.ok body, ts₂⟩ ∧
          ternarySuffix (expression limit levels) body ts₂ = ⟨.ok e, rest⟩ := by
  rw [expression, expressionBy, bind_eq_ok_iff]
  simp only [bind_eq_ok_iff]
  constructor
  · rintro ⟨head, ts₁, hhead, body, ts₂, hbody, h⟩
    exact ⟨head, ts₁, body, ts₂, hhead, hbody, h⟩
  · rintro ⟨head, ts₁, body, ts₂, hhead, hbody, h⟩
    exact ⟨head, ts₁, hhead, body, ts₂, hbody, h⟩

theorem reads_of_expression {limit levels : Nat} {ts rest : List Token} {e : Expr}
    (h : expression limit levels ts = ⟨.ok e, rest⟩) : Reads levels ts e rest := by
  induction levels generalizing ts e rest with
  | zero => simp [expression] at h
  | succ levels ih =>
    obtain ⟨head, ts₁, body, ts₂, hhead, hbody, h⟩ := expression_succ_eq_ok_iff.mp h
    rcases primary_eq_ok_iff.mp hhead with ⟨p, rfl, hp⟩ | ⟨op, operand, us, rfl, hop, hoperand⟩
    · -- only a path is left with a suffix of its own, and it takes one of the two
      obtain ⟨hstarts, hdot⟩ := path_eq_ok_iff.mp hp
      rcases binarySuffix_eq_ok_iff.mp hbody with
        ⟨op, rhs, us, rfl, hop, hrhs⟩ | ⟨rfl, rfl, hbinary⟩
      · have hrhs := ih hrhs
        rw [ternarySuffix_eq_done hrhs.settled.noQuestion] at h
        obtain ⟨rfl, rfl⟩ := done_eq_ok_iff.mp h
        exact ⟨starts_append.mpr ⟨ts₁, hstarts, starts_cons_split.mpr ⟨us, hop, hrhs.starts⟩⟩,
          ⟨rfl, hrhs.rightNested⟩, Nat.succ_le_succ hrhs.nesting_le, hrhs.settled⟩
      · rcases ternarySuffix_eq_ok_iff.mp h with
          ⟨consequent, alternate, us, vs, ws, rfl, hquestion, hc, hcolon, ha⟩ |
          ⟨rfl, rfl, hquestion⟩
        · have hc := ih hc
          have ha := ih ha
          have hbranches := starts_append.mpr
            ⟨vs, hc.starts, starts_cons_split.mpr ⟨ws, hcolon, ha.starts⟩⟩
          exact ⟨starts_append.mpr ⟨ts₁, hstarts, starts_cons_split.mpr ⟨us, hquestion, hbranches⟩⟩,
            ⟨rfl, hc.rightNested, ha.rightNested⟩,
            Nat.succ_le_succ (Nat.max_le.mpr ⟨hc.nesting_le, ha.nesting_le⟩), ha.settled⟩
        · exact ⟨hstarts, trivial, Nat.succ_le_succ (Nat.zero_le _), hdot, hbinary, hquestion⟩
    · -- the operand has taken every suffix, so both suffixes are absent here
      have hoperand := ih hoperand
      rw [binarySuffix_eq_done hoperand.settled.noBinary] at hbody
      obtain ⟨rfl, rfl⟩ := done_eq_ok_iff.mp hbody
      rw [ternarySuffix_eq_done hoperand.settled.noQuestion] at h
      obtain ⟨rfl, rfl⟩ := done_eq_ok_iff.mp h
      exact ⟨starts_cons_split.mpr ⟨us, hop, hoperand.starts⟩, hoperand.rightNested,
        Nat.succ_le_succ hoperand.nesting_le, hoperand.settled⟩

theorem expression_of_reads {limit levels : Nat} {ts rest : List Token} {e : Expr}
    (h : Reads levels ts e rest) : expression limit levels ts = ⟨.ok e, rest⟩ := by
  induction levels generalizing ts e rest with
  | zero =>
    have := h.nesting_le
    cases e <;> simp [Expr.nesting] at this
  | succ levels ih =>
    obtain ⟨hstarts, hnested, hle, hrest⟩ := h
    rw [expression_succ_eq_ok_iff]
    cases e with
    | path p =>
      have hp := path_eq_ok_iff.mpr ⟨hstarts, hrest.noDot⟩
      exact ⟨.path p, rest, .path p, rest, primary_eq_ok_iff.mpr (.inl ⟨p, rfl, hp⟩),
        binarySuffix_eq_done hrest.noBinary, ternarySuffix_eq_done hrest.noQuestion⟩
    | unary op operand =>
      obtain ⟨us, hop, hoperand⟩ := starts_cons_split.mp hstarts
      have hread := ih ⟨hoperand, hnested, Nat.le_of_succ_le_succ hle, hrest⟩
      exact ⟨_, rest, _, rest, primary_eq_ok_iff.mpr (.inr ⟨op, operand, us, rfl, hop, hread⟩),
        binarySuffix_eq_done hrest.noBinary, ternarySuffix_eq_done hrest.noQuestion⟩
    | binary op lhs rhs =>
      obtain ⟨p, rfl⟩ := Expr.isPath_iff.mp hnested.1
      obtain ⟨ts₁, hpath, hsuffix⟩ := starts_append.mp hstarts
      obtain ⟨us, hop, hrhs⟩ := starts_cons_split.mp hsuffix
      have hp := path_eq_ok_iff.mpr ⟨hpath, hop.noDot (by simp)⟩
      have hread := ih ⟨hrhs, hnested.2, Nat.le_of_succ_le_succ hle, hrest⟩
      exact ⟨.path p, ts₁, _, rest, primary_eq_ok_iff.mpr (.inl ⟨p, rfl, hp⟩),
        binarySuffix_eq_ok_iff.mpr (.inl ⟨op, rhs, us, rfl, hop, hread⟩),
        ternarySuffix_eq_done hrest.noQuestion⟩
    | ternary condition consequent alternate =>
      obtain ⟨p, rfl⟩ := Expr.isPath_iff.mp hnested.1
      obtain ⟨ts₁, hpath, hsuffix⟩ := starts_append.mp hstarts
      obtain ⟨us, hquestion, hbranches⟩ := starts_cons_split.mp hsuffix
      obtain ⟨vs, hc, halternate⟩ := starts_append.mp hbranches
      obtain ⟨ws, hcolon, ha⟩ := starts_cons_split.mp halternate
      have hsettled : Settled vs := hcolon.settled (.inl rfl)
      obtain ⟨hlec, hlea⟩ := Nat.max_le.mp (Nat.le_of_succ_le_succ hle)
      have hp := path_eq_ok_iff.mpr ⟨hpath, hquestion.noDot (by simp)⟩
      have hreadc := ih ⟨hc, hnested.2.1, hlec, hsettled⟩
      have hreada := ih ⟨ha, hnested.2.2, hlea, hrest⟩
      exact ⟨.path p, ts₁, .path p, ts₁, primary_eq_ok_iff.mpr (.inl ⟨p, rfl, hp⟩),
        binarySuffix_eq_done (hquestion.noBinary (by simp)), ternarySuffix_eq_ok_iff.mpr
          (.inl ⟨consequent, alternate, us, vs, ws, rfl, hquestion, hreadc, hcolon, hreada⟩)⟩

/-- **What an expression is read from.** -/
theorem expression_eq_ok_iff {limit levels : Nat} {ts rest : List Token} {e : Expr} :
    expression limit levels ts = ⟨.ok e, rest⟩ ↔ Reads levels ts e rest :=
  ⟨reads_of_expression, expression_of_reads⟩

/-! ## Items -/

theorem enclosed_eq_ok_iff {limit : Nat} {ts rest : List Token} {e : Expr} :
    enclosed limit ts = ⟨.ok e, rest⟩ ↔
      Starts ts (e.signs ++ [.bare .closing]) rest ∧ e.RightNested ∧ e.nesting ≤ limit := by
  rw [enclosed, bind_eq_ok_iff, starts_append]
  constructor
  · rintro ⟨e', us, he, h⟩
    obtain ⟨u, hclosing, rfl⟩ := map_eq_ok_iff.mp h
    have hread := expression_eq_ok_iff.mp he
    exact ⟨⟨us, hread.starts, (starts_bare rfl).mpr (expect_eq_ok_iff.mp hclosing)⟩,
      hread.rightNested, hread.nesting_le⟩
  · rintro ⟨⟨us, hstarts, hclosing⟩, hnested, hle⟩
    have hsettled : Settled us := hclosing.settled (.inr rfl)
    refine ⟨e, us, expression_eq_ok_iff.mpr ⟨hstarts, hnested, hle, hsettled⟩, ?_⟩
    exact map_eq_ok_iff.mpr ⟨(), expect_eq_ok_iff.mpr ((starts_bare rfl).mp hclosing), rfl⟩

theorem item_eq_ok_iff {limit : Nat} {ts rest : List Token} {i : Item} :
    item limit ts = ⟨.ok i, rest⟩ ↔
      Starts ts i.signs rest ∧ i.RightNested ∧ i.nesting ≤ limit := by
  constructor
  · intro h
    cases ts with
    | nil => exact absurd h fail_ne_ok
    | cons t ts =>
      rw [item] at h
      split at h
      · rename_i ht
        obtain ⟨rfl, rfl⟩ := done_eq_ok_iff.mp h
        exact ⟨starts_singleton.mpr ⟨t, rfl, Token.sign_eq_literal_iff.mpr ⟨ht, rfl⟩⟩, trivial,
          Nat.zero_le _⟩
      · rename_i d ht
        obtain ⟨e, he, rfl⟩ := map_eq_ok_iff.mp h
        obtain ⟨hstarts, hnested, hle⟩ := enclosed_eq_ok_iff.mp he
        have hopening := Token.sign_eq_bare_iff.mpr ⟨ht, rfl⟩
        exact ⟨starts_cons.mpr ⟨t, ts, rfl, hopening, hstarts⟩, hnested, hle⟩
      · exact absurd h fail_ne_ok
  · rintro ⟨hstarts, hnested, hle⟩
    cases i with
    | literal text =>
      obtain ⟨t, rfl, ht⟩ := starts_singleton.mp hstarts
      obtain ⟨hkind, rfl⟩ := Token.sign_eq_literal_iff.mp ht
      simp only [item, hkind, done]
    | embedded d e =>
      obtain ⟨us, hopening, he⟩ := starts_cons_split.mp hstarts
      obtain ⟨t, rfl, ht⟩ := (starts_bare rfl).mp hopening
      simp only [item, ht]
      exact map_eq_ok_iff.mpr ⟨e, enclosed_eq_ok_iff.mpr ⟨he, hnested, hle⟩, rfl⟩

end Parser

/-! ## Templates -/

namespace Parse

variable {limit : Nat} {t : Token} {ts rest : List Token}

theorem readFrom_of_item {i : Item} (h : Parser.item limit (t :: ts) = ⟨.ok i, rest⟩)
    (items : List Item) (errors : List ParseError) :
    readFrom limit items errors (t :: ts) = readFrom limit (i :: items) errors rest := by
  rw [readFrom]
  split <;> simp_all

theorem readFrom_of_error {e : ParseError} (h : Parser.item limit (t :: ts) = ⟨.error e, rest⟩)
    (items : List Item) (errors : List ParseError) :
    readFrom limit items errors (t :: ts) =
      readFrom limit items (e :: errors) (Parser.recover rest) := by
  rw [readFrom]
  split <;> simp_all

/-- What was found before is kept in front of what is found from here on. -/
theorem readFrom_eq (items : List Item) (errors : List ParseError) (ts : List Token) :
    readFrom limit items errors ts =
      ⟨items.reverse ++ (ofTokens limit ts).items,
        errors.reverse ++ (ofTokens limit ts).errors⟩ := by
  -- the induction needs every accumulator at once, because `ofTokens` starts from empty ones
  induction hn : ts.length using Nat.strongRecOn generalizing items errors ts with
  | ind n ih =>
    subst hn
    cases ts with
    | nil => simp [ofTokens, readFrom]
    | cons t ts =>
      rw [ofTokens]
      cases h : Parser.item limit (t :: ts) with
      | mk result rest =>
        cases result with
        | ok i =>
          have hlt := Parser.length_rest_lt h
          rw [readFrom_of_item h, readFrom_of_item h, ih _ hlt _ _ _ rfl, ih _ hlt _ _ _ rfl]
          simp
        | error e =>
          have hlt := Parser.length_recover_rest_lt h
          rw [readFrom_of_error h, readFrom_of_error h, ih _ hlt _ _ _ rfl, ih _ hlt _ _ _ rfl]
          simp

theorem ofTokens_of_item {i : Item} (h : Parser.item limit (t :: ts) = ⟨.ok i, rest⟩) :
    ofTokens limit (t :: ts) =
      ⟨i :: (ofTokens limit rest).items, (ofTokens limit rest).errors⟩ := by
  rw [ofTokens, readFrom_of_item h, readFrom_eq]
  rfl

theorem ofTokens_of_error {e : ParseError} (h : Parser.item limit (t :: ts) = ⟨.error e, rest⟩) :
    ofTokens limit (t :: ts) =
      ⟨(ofTokens limit (Parser.recover rest)).items,
        e :: (ofTokens limit (Parser.recover rest)).errors⟩ := by
  rw [ofTokens, readFrom_of_error h, readFrom_eq]
  rfl

/-- Where the loop over the items of a template is: what it has found so far, the last item and the
last error first, and the tokens that are left. -/
structure State where
  items : List Item
  errors : List ParseError
  rest : List Token

namespace State

/-- One round of the loop: an item is read, or skipped with an error. -/
def round (limit : Nat) (s : State) : State :=
  match Parser.item limit s.rest with
  | ⟨.ok x, rest⟩ => ⟨x :: s.items, s.errors, rest⟩
  | ⟨.error e, rest⟩ => ⟨s.items, e :: s.errors, Parser.recover rest⟩

/-- What is read from a state on does not change in a round. -/
theorem readFrom_round {s : State} (h : s.rest ≠ []) :
    readFrom limit (s.round limit).items (s.round limit).errors (s.round limit).rest =
      readFrom limit s.items s.errors s.rest := by
  obtain ⟨items, errors, rest⟩ := s
  obtain ⟨t, ts, rfl⟩ := List.exists_cons_of_ne_nil h
  cases hitem : Parser.item limit (t :: ts) with
  | mk result rest =>
    cases result with
    | ok x => rw [readFrom_of_item hitem, round, hitem]
    | error e => rw [readFrom_of_error hitem, round, hitem]

/-- The loop goes on from one state to another one, where it ends, in the given number of rounds. -/
inductive Runs (limit : Nat) : Nat → State → State → Prop where
  | stop {s : State} (h : s.rest = []) : Runs limit 0 s s
  | next {n : Nat} {s s' : State} (h : s.rest ≠ []) (hnext : Runs limit n (s.round limit) s') :
    Runs limit (n + 1) s s'

theorem Runs.readFrom_eq {n : Nat} {s s' : State} (h : Runs limit n s s') :
    readFrom limit s.items s.errors s.rest = ⟨s'.items.reverse, s'.errors.reverse⟩ := by
  induction h with
  | @stop s h => rw [h, readFrom]
  | next h _ ih => rw [← readFrom_round h, ih]

end State

theorem ofTokens_of_runs {n : Nat} {s : State} (h : State.Runs limit n ⟨[], [], ts⟩ s) :
    ofTokens limit ts = ⟨s.items.reverse, s.errors.reverse⟩ := h.readFrom_eq

theorem result_eq_ok_iff {p : Parse} {x : Template} :
    p.result = .ok x ↔ p.errors = [] ∧ p.items = x := by
  obtain ⟨items, errors⟩ := p
  cases errors <;> simp [result]

end Parse

theorem parse_nil (limit : Nat) : parse limit [] = .ok [] := by
  simp [parse, Parse.ofTokens, Parse.readFrom, Parse.result]

theorem parse_cons_eq_ok_iff {limit : Nat} {t : Token} {ts : List Token} {x : Template} :
    parse limit (t :: ts) = .ok x ↔
      ∃ i y rest, x = i :: y ∧ Parser.item limit (t :: ts) = ⟨.ok i, rest⟩ ∧
        parse limit rest = .ok y := by
  simp only [parse, Parse.result_eq_ok_iff]
  constructor
  · intro h
    cases hitem : Parser.item limit (t :: ts) with
    | mk result rest =>
      cases result with
      | ok i =>
        rw [Parse.ofTokens_of_item hitem] at h
        exact ⟨i, _, rest, h.2.symm, rfl, h.1, rfl⟩
      | error e =>
        rw [Parse.ofTokens_of_error hitem] at h
        exact absurd h.1 (List.cons_ne_nil _ _)
  · rintro ⟨i, y, rest, rfl, hitem, herrors, rfl⟩
    rw [Parse.ofTokens_of_item hitem]
    exact ⟨herrors, rfl⟩

/-- Induction along the items of a template that was read. -/
@[elab_as_elim]
theorem parse_induction {limit : Nat} {motive : List Token → Template → Prop} (hnil : motive [] [])
    (hcons : ∀ ts i rest x, Parser.item limit ts = ⟨.ok i, rest⟩ → motive rest x →
      motive ts (i :: x))
    {ts : List Token} {x : Template} (h : parse limit ts = .ok x) : motive ts x := by
  induction x generalizing ts with
  | nil =>
    cases ts with
    | nil => exact hnil
    | cons t ts =>
      obtain ⟨i, y, rest, hx, -⟩ := parse_cons_eq_ok_iff.mp h
      exact absurd hx (List.cons_ne_nil _ _).symm
  | cons i x ih =>
    cases ts with
    | nil =>
      rw [parse_nil] at h
      cases h
    | cons t ts =>
      obtain ⟨i, y, rest, hx, hitem, hrest⟩ := parse_cons_eq_ok_iff.mp h
      obtain ⟨rfl, rfl⟩ := List.cons.inj hx
      exact hcons _ _ _ _ hitem (ih hrest)

theorem shape_of_parse {limit : Nat} {ts : List Token} {x : Template} (h : parse limit ts = .ok x) :
    Starts ts (Template.signs x) [] ∧ Template.RightNested x ∧ Template.NestsWithin limit x := by
  refine parse_induction ?_ ?_ h
  · exact ⟨starts_nil.mpr rfl, List.forall_mem_nil _, List.forall_mem_nil _⟩
  · rintro ts i rest x hitem ⟨hxs, hxnested, hxle⟩
    obtain ⟨hstarts, hnested, hle⟩ := Parser.item_eq_ok_iff.mp hitem
    exact ⟨starts_append.mpr ⟨rest, hstarts, hxs⟩, List.forall_mem_cons.mpr ⟨hnested, hxnested⟩,
      List.forall_mem_cons.mpr ⟨hle, hxle⟩⟩

theorem parse_of_shape {limit : Nat} {ts : List Token} {x : Template}
    (hstarts : Starts ts (Template.signs x) []) (hnested : Template.RightNested x)
    (hle : Template.NestsWithin limit x) : parse limit ts = .ok x := by
  induction x generalizing ts with
  | nil => rw [starts_nil.mp hstarts, parse_nil]
  | cons i x ih =>
    obtain ⟨hi, hx⟩ := List.forall_mem_cons.mp hnested
    obtain ⟨hilimit, hxlimit⟩ := List.forall_mem_cons.mp hle
    obtain ⟨rest, hfirst, hrest⟩ := starts_append.mp hstarts
    have hitem := Parser.item_eq_ok_iff.mpr ⟨hfirst, hi, hilimit⟩
    cases ts with
    | nil => exact absurd hitem Reading.fail_ne_ok
    | cons t ts => exact parse_cons_eq_ok_iff.mpr ⟨i, x, rest, rfl, hitem, ih hrest hx hxlimit⟩

/-- **What a template is read from.** -/
theorem parse_eq_ok_iff {limit : Nat} {ts : List Token} {x : Template} :
    parse limit ts = .ok x ↔
      ts.map Token.sign = Template.signs x ∧ Template.RightNested x ∧
        Template.NestsWithin limit x := by
  rw [← starts_nil_right]
  exact ⟨shape_of_parse, fun ⟨hstarts, hnested, hle⟩ ↦ parse_of_shape hstarts hnested hle⟩

theorem parse_of_signs {limit : Nat} {ts us : List Token} {x : Template}
    (hsigns : us.map Token.sign = ts.map Token.sign) (h : parse limit ts = .ok x) :
    parse limit us = .ok x := by
  rw [parse_eq_ok_iff] at h ⊢
  rwa [hsigns]

theorem Template.NestsWithin.mono {limit limit' : Nat} {x : Template}
    (h : Template.NestsWithin limit x) (hle : limit ≤ limit') : Template.NestsWithin limit' x :=
  fun i hi ↦ Nat.le_trans (h i hi) hle

theorem parse_mono {limit limit' : Nat} {ts : List Token} {x : Template} (hle : limit ≤ limit')
    (h : parse limit ts = .ok x) : parse limit' ts = .ok x := by
  obtain ⟨hsigns, hnested, hlimit⟩ := parse_eq_ok_iff.mp h
  exact parse_eq_ok_iff.mpr ⟨hsigns, hnested, hlimit.mono hle⟩

/-- The limit does not decide what is read, only whether it is. -/
theorem eq_of_parse_of_parse {limit limit' : Nat} {ts : List Token} {x y : Template}
    (hx : parse limit ts = .ok x) (hy : parse limit' ts = .ok y) : x = y := by
  have hx' := parse_mono (Nat.le_max_left limit limit') hx
  have hy' := parse_mono (Nat.le_max_right limit limit') hy
  exact Except.ok.inj (hx'.symm.trans hy')

/-- **Reading is faithful and binds to the right.** Written back as signs, the template that was
read gives the tokens it was read from, none lost, doubled or moved; and only a path stands before a
binary operator or a question mark. -/
theorem parse_faithful {limit : Nat} {ts : List Token} {x : Template}
    (h : parse limit ts = .ok x) :
    Template.signs x = ts.map Token.sign ∧ Template.RightNested x := by
  obtain ⟨hsigns, hnested, -⟩ := parse_eq_ok_iff.mp h
  exact ⟨hsigns.symm, hnested⟩

/-- Faithfulness where a negation, a conjunction and a conditional all end at the same place: the
tokens of `a: #{not b.c and 'd' ? 1 : true}`. -/
theorem parse_faithful_suffixes :
    let ts : List Token :=
      [(.literal, "a: "), (.opening .deferred, "#\x7b"), (.unary .not, "not"), (.identifier, "b"),
        (.dot, "."), (.identifier, "c"), (.binary .and, "and"), (.string .single, "'d'"),
        (.question, "?"), (.integer, "1"), (.colon, ":"), (.boolean, "true"),
        (.closing, "\x7d")].map fun (k, s) ↦ ⟨k, s.toList, .outer, 0⟩
    let x : Template :=
      [.literal "a: ".toList, .embedded .deferred (.unary .not
        (.binary .and (.path ⟨.name ['b'], [['c']]⟩) (.ternary (.path ⟨.string "'d'".toList, []⟩)
          (.path ⟨.integer ['1'], []⟩) (.path ⟨.boolean true, []⟩))))]
    parse 4 ts = .ok x ∧ Template.signs x = ts.map Token.sign ∧ Template.RightNested x := by
  intro ts x
  have h : parse 4 ts = .ok x := parse_eq_ok_iff.mpr (by decide)
  exact ⟨h, parse_faithful h⟩

end Interpolation
