import Interpolation.Proofs.Template.Pieces
import Mathlib.Data.List.Forall2

/-!
# What the depth limit refuses

Reading an expression counts levels as it goes down, and refuses to go below the limit. The levels
of a tree say which expressions that concerns. What stands behind an operator, and each branch of a
conditional, is one level below the operator or the conditional; a first operand and a condition are
at the level of what they belong to, because they are read before it is known that anything follows.

So an expression that nests too deep has parts one level below the limit, and the first of them, in
the order of the tokens, is where reading stops (`Parser.expression_of_deep`). Whatever stands
before it was read as it would have been without a limit. Other items are not concerned.
-/

namespace Interpolation

/-! ## Parts of an expression -/

namespace Expr

/-- The expression `sub` is a part of an expression. It stands at the given level, where the whole
expression is at level one, and the given number of tokens of the whole stands before it. -/
inductive Occurs (sub : Expr) : Expr → (level before : Nat) → Prop where
  | whole : Occurs sub sub 1 0
  | operand {op : UnaryOp} {operand : Expr} {level before : Nat} :
    Occurs sub operand level before → Occurs sub (.unary op operand) (level + 1) (1 + before)
  | lhs {op : BinaryOp} {lhs rhs : Expr} {level before : Nat} :
    Occurs sub lhs level before → Occurs sub (.binary op lhs rhs) level before
  | rhs {op : BinaryOp} {lhs rhs : Expr} {level before : Nat} :
    Occurs sub rhs level before →
      Occurs sub (.binary op lhs rhs) (level + 1) (lhs.signs.length + (1 + before))
  | condition {condition consequent alternate : Expr} {level before : Nat} :
    Occurs sub condition level before →
      Occurs sub (.ternary condition consequent alternate) level before
  | consequent {condition consequent alternate : Expr} {level before : Nat} :
    Occurs sub consequent level before →
      Occurs sub (.ternary condition consequent alternate) (level + 1)
        (condition.signs.length + (1 + before))
  | alternate {condition consequent alternate : Expr} {level before : Nat} :
    Occurs sub alternate level before →
      Occurs sub (.ternary condition consequent alternate) (level + 1)
        (condition.signs.length + (1 + (consequent.signs.length + (1 + before))))

theorem signs_ne_nil (e : Expr) : e.signs ≠ [] := by
  intro h
  have hpos := e.nesting_pos
  have hle := e.nesting_le_length_signs
  rw [h, List.length_nil] at hle
  omega

section

variable {sub e : Expr} {level before : Nat}

theorem Occurs.exists_cut (h : Occurs sub e level before) :
    ∃ front back, e.signs = front ++ (sub.signs ++ back) ∧ front.length = before := by
  induction h with
  | whole => exact ⟨[], [], by simp, rfl⟩
  | @operand op operand level before _ ih =>
    obtain ⟨front, back, hsigns, rfl⟩ := ih
    refine ⟨.bare (.unary op) :: front, back, ?_, Nat.add_comm _ _⟩
    rw [signs, hsigns, List.cons_append]
  | @lhs op lhs rhs level before _ ih =>
    obtain ⟨front, back, hsigns, rfl⟩ := ih
    refine ⟨front, back ++ .bare (.binary op) :: rhs.signs, ?_, rfl⟩
    rw [signs, hsigns, List.append_assoc, List.append_assoc]
  | @rhs op lhs rhs level before _ ih =>
    obtain ⟨front, back, hsigns, rfl⟩ := ih
    refine ⟨lhs.signs ++ .bare (.binary op) :: front, back, ?_, ?_⟩
    · rw [signs, hsigns, List.append_assoc, List.cons_append]
    · rw [List.length_append, List.length_cons, Nat.add_comm front.length]
  | @condition condition consequent alternate level before _ ih =>
    obtain ⟨front, back, hsigns, rfl⟩ := ih
    refine ⟨front, back ++ .bare .question ::
      (consequent.signs ++ .bare .colon :: alternate.signs), ?_, rfl⟩
    rw [signs, hsigns, List.append_assoc, List.append_assoc]
  | @consequent condition consequent alternate level before _ ih =>
    obtain ⟨front, back, hsigns, rfl⟩ := ih
    refine ⟨condition.signs ++ .bare .question :: front, back ++ .bare .colon :: alternate.signs,
      ?_, ?_⟩
    · simp only [signs, hsigns, List.append_assoc, List.cons_append]
    · rw [List.length_append, List.length_cons, Nat.add_comm front.length]
  | @alternate condition consequent alternate level before _ ih =>
    obtain ⟨front, back, hsigns, rfl⟩ := ih
    refine ⟨condition.signs ++ .bare .question :: (consequent.signs ++ .bare .colon :: front),
      back, ?_, ?_⟩
    · simp only [signs, hsigns, List.append_assoc, List.cons_append]
    · simp only [List.length_append, List.length_cons]
      omega

theorem Occurs.before_lt (h : Occurs sub e level before) : before < e.signs.length := by
  obtain ⟨front, back, hsigns, rfl⟩ := h.exists_cut
  have hpos : 0 < sub.signs.length := List.length_pos_iff.mpr sub.signs_ne_nil
  rw [hsigns, List.length_append, List.length_append]
  omega

theorem Occurs.level_eq_one {p : Path} (h : Occurs sub (.path p) level before) : level = 1 := by
  cases h
  rfl

theorem Occurs.level_le (h : Occurs sub e level before) (he : e.RightNested) :
    level ≤ e.nesting := by
  induction h with
  | whole => cases sub <;> exact Nat.succ_le_succ (Nat.zero_le _)
  | operand _ ih => exact Nat.succ_le_succ (ih he)
  | lhs h _ =>
    obtain ⟨p, rfl⟩ := isPath_iff.mp he.1
    exact h.level_eq_one ▸ Nat.succ_le_succ (Nat.zero_le _)
  | rhs _ ih => exact Nat.succ_le_succ (ih he.2)
  | condition h _ =>
    obtain ⟨p, rfl⟩ := isPath_iff.mp he.1
    exact h.level_eq_one ▸ Nat.succ_le_succ (Nat.zero_le _)
  | consequent _ ih => exact Nat.succ_le_succ (Nat.le_trans (ih he.2.1) (Nat.le_max_left _ _))
  | alternate _ ih => exact Nat.succ_le_succ (Nat.le_trans (ih he.2.2) (Nat.le_max_right _ _))

end

/-! ## The first part at a level -/

/-- Behind the given number of tokens stands the first part of the expression at the given level.
-/
structure FirstAt (e : Expr) (level before : Nat) : Prop where
  /-- There is a part. -/
  occurs : ∃ sub, Occurs sub e level before
  /-- None stands before it. -/
  least : ∀ sub before', Occurs sub e level before' → before ≤ before'

namespace FirstAt

variable {level before : Nat}

theorem whole (e : Expr) : FirstAt e 1 0 := ⟨⟨e, .whole⟩, fun _ _ _ ↦ Nat.zero_le _⟩

theorem before_lt {e : Expr} (h : FirstAt e level before) : before < e.signs.length :=
  h.occurs.elim fun _ hsub ↦ hsub.before_lt

theorem operand {op : UnaryOp} {operand : Expr} (h : FirstAt operand (level + 1) before) :
    FirstAt (.unary op operand) (level + 2) (1 + before) := by
  refine ⟨h.occurs.imp fun _ ↦ .operand, ?_⟩
  intro sub before' hsub
  cases hsub with
  | operand hsub => exact Nat.add_le_add_left (h.least _ _ hsub) 1

theorem rhs {op : BinaryOp} {p : Path} {rhs : Expr} (h : FirstAt rhs (level + 1) before) :
    FirstAt (.binary op (.path p) rhs) (level + 2) (p.signs.length + (1 + before)) := by
  refine ⟨h.occurs.imp fun _ ↦ .rhs, ?_⟩
  intro sub before' hsub
  cases hsub with
  | lhs hsub => cases hsub.level_eq_one
  | rhs hsub =>
    have := h.least _ _ hsub
    rw [signs]
    omega

theorem consequent {p : Path} {consequent alternate : Expr}
    (h : FirstAt consequent (level + 1) before) :
    FirstAt (.ternary (.path p) consequent alternate) (level + 2)
      (p.signs.length + (1 + before)) := by
  refine ⟨h.occurs.imp fun _ ↦ .consequent, ?_⟩
  intro sub before' hsub
  cases hsub with
  | condition hsub => cases hsub.level_eq_one
  | consequent hsub =>
    have := h.least _ _ hsub
    rw [signs]
    omega
  | alternate hsub =>
    have := h.before_lt
    rw [signs]
    omega

/-- The second branch has the first part at a level that the first branch does not reach. -/
theorem alternate {p : Path} {consequent alternate : Expr} (hnested : consequent.RightNested)
    (hle : consequent.nesting ≤ level) (h : FirstAt alternate (level + 1) before) :
    FirstAt (.ternary (.path p) consequent alternate) (level + 2)
      (p.signs.length + (1 + (consequent.signs.length + (1 + before)))) := by
  refine ⟨h.occurs.imp fun _ ↦ .alternate, ?_⟩
  intro sub before' hsub
  cases hsub with
  | condition hsub => cases hsub.level_eq_one
  | consequent hsub =>
    have := hsub.level_le hnested
    omega
  | alternate hsub =>
    have := h.least _ _ hsub
    rw [signs]
    omega

end FirstAt

end Expr

/-! ## Where reading stops -/

theorem Starts.drop_length {ts rest : List Token} {signs : List Sign} (h : Starts ts signs rest) :
    ts.drop signs.length = rest := by
  obtain ⟨front, rfl, rfl⟩ := h
  rw [List.length_map, List.drop_left]

theorem Starts.drop_add {ts rest : List Token} {signs : List Sign} (h : Starts ts signs rest)
    (n : Nat) : ts.drop (signs.length + n) = rest.drop n := by
  rw [← List.drop_drop, h.drop_length]

namespace Parser

open Reading

/-- The outcome where the levels are used up before the given tokens. -/
def deep (limit : Nat) (ts : List Token) : Reading Expr :=
  ⟨.error (.tooDeep limit (offsetOf ts)), ts⟩

section

variable {limit : Nat} {inner : List Token → Reading Expr} {ts us vs : List Token}

theorem primary_of_deep {op : UnaryOp} (hop : Starts ts [.bare (.unary op)] us)
    (h : inner us = deep limit vs) : primary inner ts = deep limit vs := by
  obtain ⟨t, rfl, ht⟩ := (starts_bare rfl).mp hop
  simp only [primary, ht, h]
  rfl

theorem binarySuffix_of_deep {op : BinaryOp} {lhs : Expr}
    (hop : Starts ts [.bare (.binary op)] us) (h : inner us = deep limit vs) :
    binarySuffix inner lhs ts = deep limit vs := by
  obtain ⟨t, rfl, ht⟩ := (starts_bare rfl).mp hop
  simp only [binarySuffix, ht, h]
  rfl

theorem ternarySuffix_of_deep_consequent {condition : Expr}
    (hquestion : Starts ts [.bare .question] us) (h : inner us = deep limit vs) :
    ternarySuffix inner condition ts = deep limit vs := by
  obtain ⟨t, rfl, ht⟩ := (starts_bare rfl).mp hquestion
  rw [ternarySuffix, if_pos ht, h]
  rfl

theorem ternarySuffix_of_deep_alternate {condition consequent : Expr} {ws xs : List Token}
    (hquestion : Starts ts [.bare .question] us) (hconsequent : inner us = ⟨.ok consequent, ws⟩)
    (hcolon : Starts ws [.bare .colon] xs) (h : inner xs = deep limit vs) :
    ternarySuffix inner condition ts = deep limit vs := by
  obtain ⟨t, rfl, ht⟩ := (starts_bare rfl).mp hquestion
  have hexpect : expect .colon ws = ⟨.ok (), xs⟩ :=
    expect_eq_ok_iff.mpr ((starts_bare rfl).mp hcolon)
  rw [ternarySuffix, if_pos ht, hconsequent, bind_ok, hexpect, bind_ok, h]
  rfl

end

theorem expression_succ_of_path {limit levels : Nat} {ts rest : List Token} {p : Path}
    (h : path ts = ⟨.ok p, rest⟩) :
    expression limit (levels + 1) ts =
      (binarySuffix (expression limit levels) (.path p) rest).bind fun body us ↦
        ternarySuffix (expression limit levels) body us := by
  rw [expression, expressionBy, primary_eq_ok_iff.mpr (.inl ⟨p, rfl, h⟩), bind_ok]

/-- **Reading stops at the first part below the limit.** -/
theorem expression_of_deep (limit : Nat) {levels : Nat} {ts rest : List Token} {e : Expr}
    (hstarts : Starts ts e.signs rest) (hnested : e.RightNested) (hrest : Settled rest)
    (hdeep : levels < e.nesting) :
    ∃ n, e.FirstAt (levels + 1) n ∧ expression limit levels ts = deep limit (ts.drop n) := by
  induction levels generalizing ts rest e with
  | zero => exact ⟨0, .whole e, rfl⟩
  | succ levels ih =>
    cases e with
    | path p => exact absurd hdeep (Nat.not_lt_of_le (Nat.succ_le_succ (Nat.zero_le _)))
    | unary op operand =>
      obtain ⟨us, hop, hoperand⟩ := starts_cons_split.mp hstarts
      obtain ⟨n, hfirst, hread⟩ := ih hoperand hnested hrest (Nat.lt_of_succ_lt_succ hdeep)
      have hdrop : ts.drop (1 + n) = us.drop n := hop.drop_add n
      refine ⟨1 + n, hfirst.operand, ?_⟩
      rw [expression, expressionBy, primary_of_deep hop hread, hdrop]
      rfl
    | binary op lhs rhs =>
      obtain ⟨p, rfl⟩ := Expr.isPath_iff.mp hnested.1
      obtain ⟨ts₁, hpath, hsuffix⟩ := starts_append.mp hstarts
      obtain ⟨us, hop, hrhs⟩ := starts_cons_split.mp hsuffix
      have hp := path_eq_ok_iff.mpr ⟨hpath, hop.noDot (by simp)⟩
      obtain ⟨n, hfirst, hread⟩ := ih hrhs hnested.2 hrest (Nat.lt_of_succ_lt_succ hdeep)
      have hdrop : ts.drop (p.signs.length + (1 + n)) = us.drop n :=
        (hpath.drop_add (1 + n)).trans (hop.drop_add n)
      refine ⟨_, hfirst.rhs, ?_⟩
      rw [expression_succ_of_path hp, binarySuffix_of_deep hop hread, hdrop]
      rfl
    | ternary condition consequent alternate =>
      obtain ⟨p, rfl⟩ := Expr.isPath_iff.mp hnested.1
      obtain ⟨ts₁, hpath, hsuffix⟩ := starts_append.mp hstarts
      obtain ⟨us, hquestion, hbranches⟩ := starts_cons_split.mp hsuffix
      obtain ⟨vs, hc, halternate⟩ := starts_append.mp hbranches
      obtain ⟨ws, hcolon, ha⟩ := starts_cons_split.mp halternate
      have hsettled : Settled vs := hcolon.settled (.inl rfl)
      have hp := path_eq_ok_iff.mpr ⟨hpath, hquestion.noDot (by simp)⟩
      rw [expression_succ_of_path hp, binarySuffix_eq_done (hquestion.noBinary (by simp)), done,
        bind_ok]
      by_cases hlevels : levels < consequent.nesting
      · obtain ⟨n, hfirst, hread⟩ := ih hc hnested.2.1 hsettled hlevels
        have hdrop : ts.drop (p.signs.length + (1 + n)) = us.drop n :=
          (hpath.drop_add (1 + n)).trans (hquestion.drop_add n)
        refine ⟨_, hfirst.consequent, ?_⟩
        rw [ternarySuffix_of_deep_consequent hquestion hread, hdrop]
      · -- the first branch stays within the levels and is read, so the second one does not
        have hle : consequent.nesting ≤ levels := Nat.le_of_not_lt hlevels
        have hlt : levels < alternate.nesting := by
          have hmax : levels < max consequent.nesting alternate.nesting :=
            Nat.lt_of_succ_lt_succ hdeep
          omega
        obtain ⟨n, hfirst, hread⟩ := ih ha hnested.2.2 hrest hlt
        have hreadc : expression limit levels us = ⟨.ok consequent, vs⟩ :=
          expression_of_reads ⟨hc, hnested.2.1, hle, hsettled⟩
        have hdrop : ts.drop (p.signs.length + (1 + (consequent.signs.length + (1 + n)))) =
            ws.drop n := by
          calc ts.drop (p.signs.length + (1 + (consequent.signs.length + (1 + n))))
            _ = ts₁.drop (1 + (consequent.signs.length + (1 + n))) := hpath.drop_add _
            _ = us.drop (consequent.signs.length + (1 + n)) := hquestion.drop_add _
            _ = vs.drop (1 + n) := hc.drop_add _
            _ = ws.drop n := hcolon.drop_add n
        refine ⟨_, hfirst.alternate hnested.2.1 hle, ?_⟩
        rw [ternarySuffix_of_deep_alternate hquestion hreadc hcolon hread, hdrop]

theorem enclosed_of_deep {limit : Nat} {ts rest : List Token} {e : Expr}
    (hstarts : Starts ts (e.signs ++ [.bare .closing]) rest) (hnested : e.RightNested)
    (hdeep : limit < e.nesting) :
    ∃ n, e.FirstAt (limit + 1) n ∧ enclosed limit ts = deep limit (ts.drop n) := by
  obtain ⟨us, he, hclosing⟩ := starts_append.mp hstarts
  have hsettled : Settled us := hclosing.settled (.inr rfl)
  obtain ⟨n, hfirst, hread⟩ := expression_of_deep limit he hnested hsettled hdeep
  refine ⟨n, hfirst, ?_⟩
  rw [enclosed, hread]
  rfl

theorem offsetOf_drop_append {ts : List Token} {n : Nat} (h : n < ts.length) (rest : List Token) :
    ∃ t, ts[n]? = some t ∧ offsetOf ((ts ++ rest).drop n) = t.offset := by
  refine ⟨ts[n], List.getElem?_eq_getElem h, ?_⟩
  rw [List.drop_append_of_le_length (Nat.le_of_lt h), List.drop_eq_getElem_cons h]
  rfl

end Parser

/-! ## Items -/

theorem exists_body_of_item {limit : Nat} {ts rest : List Token} {d : Delimiter} {e : Expr}
    (h : Parser.item limit ts = ⟨.ok (.embedded d e), rest⟩) :
    ∃ t body c, ts = t :: (body ++ c :: rest) ∧ t.kind = .opening d ∧
      (∀ u ∈ body, u.kind.isInner) ∧ c.kind = .closing ∧
        (body ++ [c]).map Token.sign = e.signs ++ [.bare .closing] := by
  obtain ⟨hstarts, hnested, hle⟩ := Parser.item_eq_ok_iff.mp h
  obtain ⟨us, hopening, he⟩ := starts_cons_split.mp hstarts
  obtain ⟨t, rfl, ht⟩ := (starts_bare rfl).mp hopening
  have hread : Parser.enclosed limit us = ⟨.ok e, rest⟩ :=
    Parser.enclosed_eq_ok_iff.mpr ⟨he, hnested, hle⟩
  obtain ⟨body, vs, rfl, hbody, ⟨e', c, ws, rfl, hc, heq⟩ | ⟨err, -, heq⟩⟩ :=
    Parser.enclosed_cases limit us
  · rw [hread] at heq
    cases heq
    obtain ⟨front, hfront, hsigns⟩ := he
    have hcut : body ++ [c] = front := List.append_cancel_right (by simpa using hfront)
    exact ⟨t, body, c, rfl, ht, hbody, hc, hcut ▸ hsigns⟩
  · rw [hread] at heq
    cases heq

/-- The error is about an expression that nests too deep, and is at the first token of the first
part below the limit. The tokens are those of the item, so a delimiter stands before the expression.
-/
def ParseError.IsBelow (limit : Nat) (err : ParseError) (p : List Token × Item) : Prop :=
  ∃ d e n t, p.2 = .embedded d e ∧ e.FirstAt (limit + 1) n ∧ p.1[n + 1]? = some t ∧
    err = .tooDeep limit t.offset

namespace Parse

variable {limit large : Nat} {ts rest : List Token}

theorem ofTokens_of_deep {d : Delimiter} {e : Expr} {t c : Token} {body : List Token}
    (ht : t.kind = .opening d) (hbody : ∀ u ∈ body, u.kind.isInner) (hc : c.kind = .closing)
    (hsigns : (body ++ [c]).map Token.sign = e.signs ++ [.bare .closing])
    (hnested : e.RightNested) (hdeep : limit < e.nesting) (rest : List Token) :
    ∃ err, err.IsBelow limit (t :: (body ++ [c]), .embedded d e) ∧
      ofTokens limit (t :: (body ++ c :: rest)) = ⟨[], [err]⟩ ++ ofTokens limit rest := by
  have hcut : body ++ c :: rest = body ++ [c] ++ rest := by simp
  have hstarts : Starts (body ++ c :: rest) (e.signs ++ [.bare .closing]) rest :=
    ⟨body ++ [c], hcut, hsigns⟩
  obtain ⟨n, hfirst, hread⟩ := Parser.enclosed_of_deep hstarts hnested hdeep
  have hlt : n < (body ++ [c]).length := by
    have hlength := congrArg List.length hsigns
    have hbefore := hfirst.before_lt
    simp only [List.length_map, List.length_append, List.length_singleton] at hlength ⊢
    omega
  obtain ⟨u, hu, hoffset⟩ := Parser.offsetOf_drop_append hlt rest
  refine ⟨.tooDeep limit u.offset, ⟨d, e, n, u, rfl, hfirst, hu, rfl⟩, ?_⟩
  rw [ofTokens_opening ht, recover_append hbody, recover_closing hc, hread, Parser.deep, hcut,
    hoffset]
  rfl

/-- An item that is read under one limit gives no error under another, or the one error that it
nests too deep. -/
theorem errors_of_item {i : Item} (h : Parser.item large ts = ⟨.ok i, rest⟩) (limit : Nat) :
    ∃ p, p.map Token.sign = i.signs ∧ pieces ts = p :: pieces rest ∧
      (i.nesting ≤ limit ∧ (ofTokens limit ts).errors = (ofTokens limit rest).errors ∨
        limit < i.nesting ∧ ∃ err, err.IsBelow limit (p, i) ∧
          (ofTokens limit ts).errors = err :: (ofTokens limit rest).errors) := by
  obtain ⟨hstarts, hnested, -⟩ := Parser.item_eq_ok_iff.mp h
  cases i with
  | literal text =>
    obtain ⟨t, rfl, ht⟩ := starts_singleton.mp hstarts
    have hkind := (Token.sign_eq_literal_iff.mp ht).1
    refine ⟨[t], congrArg ([·]) ht, pieces_literal hkind, .inl ⟨Nat.zero_le _, ?_⟩⟩
    rw [ofTokens_literal hkind, errors_append, List.nil_append]
  | embedded d e =>
    obtain ⟨t, body, c, rfl, ht, hbody, hc, hsigns⟩ := exists_body_of_item h
    refine ⟨t :: (body ++ [c]), ?_, pieces_closed ht hbody hc, ?_⟩
    · rw [List.map_cons, hsigns, Token.sign_eq_bare_iff.mpr ⟨ht, rfl⟩, Item.signs]
    by_cases hdeep : limit < e.nesting
    · obtain ⟨err, hbelow, hread⟩ := ofTokens_of_deep ht hbody hc hsigns hnested hdeep rest
      exact .inr ⟨hdeep, err, hbelow, by rw [hread, errors_append, List.singleton_append]⟩
    · have hle : e.nesting ≤ limit := Nat.le_of_not_lt hdeep
      have hitem := Parser.item_eq_ok_iff.mpr ⟨hstarts, hnested, hle⟩
      exact .inl ⟨hle, by rw [ofTokens_of_item hitem]⟩

/-! ## Templates -/

/-- What the tokens of a template come to under a limit. -/
structure LimitedTo (limit : Nat) (ts : List Token) (x : Template) : Prop where
  /-- Every item has its own tokens. -/
  flatten : (pieces ts).flatten = ts
  /-- They are what the item is read from, in the same order. -/
  signs : List.Forall₂ (fun p i ↦ p.map Token.sign = Item.signs i) (pieces ts) x
  /-- A template that stays within the limit is read. -/
  accepted : Template.NestsWithin limit x → parse limit ts = .ok x
  /-- A template that does not is refused with the first error there is. -/
  refused : ¬ Template.NestsWithin limit x → ∃ err errs,
    (ofTokens limit ts).errors = err :: errs ∧ parse limit ts = .error err
  /-- There is one error for each item that nests too deep, in the same order. -/
  errors : List.Forall₂ (ParseError.IsBelow limit) (ofTokens limit ts).errors
    (((pieces ts).zip x).filter fun p ↦ limit < p.2.nesting)

theorem forall₂_signs_of_parse {x : Template} (h : parse large ts = .ok x) :
    List.Forall₂ (fun p i ↦ p.map Token.sign = Item.signs i) (pieces ts) x := by
  refine parse_induction ?_ ?_ h
  · rw [pieces]
    exact .nil
  · intro ts i rest x hitem ih
    obtain ⟨p, hsigns, hpieces, -⟩ := errors_of_item hitem large
    rw [hpieces]
    exact .cons hsigns ih

theorem forall₂_errors_of_parse {x : Template} (h : parse large ts = .ok x) (limit : Nat) :
    List.Forall₂ (ParseError.IsBelow limit) (ofTokens limit ts).errors
      (((pieces ts).zip x).filter fun p ↦ limit < p.2.nesting) := by
  refine parse_induction ?_ ?_ h
  · rw [pieces, ofTokens_nil]
    exact .nil
  · intro ts i rest x hitem ih
    obtain ⟨p, -, hpieces, ⟨hle, herrors⟩ | ⟨hdeep, err, hbelow, herrors⟩⟩ :=
      errors_of_item hitem limit
    · rw [hpieces, herrors, List.zip_cons_cons, List.filter_cons, if_neg (by simpa using hle)]
      exact ih
    · rw [hpieces, herrors, List.zip_cons_cons, List.filter_cons, if_pos (by simpa using hdeep)]
      exact .cons hbelow ih

theorem limitedTo_of_parse {x : Template} (h : parse large ts = .ok x) (limit : Nat) :
    LimitedTo limit ts x := by
  refine ⟨flatten_pieces ts, forall₂_signs_of_parse h, ?_, ?_, forall₂_errors_of_parse h limit⟩
  · intro hwithin
    obtain ⟨hsigns, hnested, -⟩ := parse_eq_ok_iff.mp h
    exact parse_eq_ok_iff.mpr ⟨hsigns, hnested, hwithin⟩
  · intro hdeep
    cases herrors : (ofTokens limit ts).errors with
    | nil =>
      -- without errors the tokens would give the same template under the limit
      have hread : parse limit ts = .ok (ofTokens limit ts).items :=
        result_eq_ok_iff.mpr ⟨herrors, rfl⟩
      obtain ⟨-, -, hwithin⟩ := parse_eq_ok_iff.mp hread
      exact absurd (eq_of_parse_of_parse hread h ▸ hwithin) hdeep
    | cons err errs => exact ⟨err, errs, rfl, parse_eq_error_of_head? (by rw [herrors]; rfl)⟩

end Parse

/-- **The limit refuses exactly what nests too deep.** Take a limit that the number of tokens does
not exceed. What is read under it is read under any other limit that it stays within, and otherwise
every item that nests too deep is reported, where it first goes below the limit. What is not read
under it is not read under any. -/
theorem parse_limited {large : Nat} {ts : List Token} (hlarge : ts.length ≤ large) (limit : Nat) :
    (∀ x, parse large ts = .ok x → Parse.LimitedTo limit ts x) ∧
      ((∀ x, parse large ts ≠ .ok x) → ∀ x, parse limit ts ≠ .ok x) := by
  refine ⟨fun x h ↦ Parse.limitedTo_of_parse h limit, fun hnone x h ↦ hnone x ?_⟩
  obtain ⟨hsigns, hnested, -⟩ := parse_eq_ok_iff.mp h
  have hlength : (Template.signs x).length ≤ large := by
    rw [← hsigns, List.length_map]
    exact hlarge
  exact parse_eq_ok_iff.mpr ⟨hsigns, hnested, (Template.nestsWithin_length_signs x).mono hlength⟩

/-- An item of three levels and one of four between others, with the tokens of
`a#{not not b}${c ? d : e and not f}#{g}`, and an expression that is not closed, `#{a`. -/
theorem parse_limited_two :
    let ts : List Token :=
      [(.literal, "a", 0), (.opening .deferred, "#\x7b", 1), (.unary .not, "not", 3),
        (.unary .not, "not", 7), (.identifier, "b", 11), (.closing, "\x7d", 12),
        (.opening .dynamic, "$\x7b", 13), (.identifier, "c", 15), (.question, "?", 17),
        (.identifier, "d", 19), (.colon, ":", 21), (.identifier, "e", 23),
        (.binary .and, "and", 25), (.unary .not, "not", 29), (.identifier, "f", 33),
        (.closing, "\x7d", 34), (.opening .deferred, "#\x7b", 35), (.identifier, "g", 37),
        (.closing, "\x7d", 38)].map fun (k, s, n) ↦ ⟨k, s.toList, .outer, n⟩
    let x : Template :=
      [.literal ['a'], .embedded .deferred (.unary .not (.unary .not (.path ⟨.name ['b'], []⟩))),
        .embedded .dynamic (.ternary (.path ⟨.name ['c'], []⟩) (.path ⟨.name ['d'], []⟩)
          (.binary .and (.path ⟨.name ['e'], []⟩) (.unary .not (.path ⟨.name ['f'], []⟩)))),
        .embedded .deferred (.path ⟨.name ['g'], []⟩)]
    let us : List Token :=
      [⟨.opening .deferred, "#\x7b".toList, .outer, 0⟩, ⟨.identifier, ['a'], .outer, 2⟩]
    parse ts.length ts = .ok x ∧ ¬ Template.NestsWithin 2 x ∧ Parse.LimitedTo 2 ts x ∧
      (∀ y, parse us.length us ≠ .ok y) ∧ ∀ y, parse 1 us ≠ .ok y := by
  intro ts x us
  have hx : parse ts.length ts = .ok x := parse_eq_ok_iff.mpr (by decide)
  have hus : ∀ y, parse us.length us ≠ .ok y := by
    intro y hy
    have hunclosed : ∃ e, Parse.ofTokens us.length us = ⟨[], [e]⟩ :=
      Parse.ofTokens_unclosed _ rfl (by decide)
    obtain ⟨e, he⟩ := hunclosed
    cases (Parse.parse_of_error he).symm.trans hy
  exact ⟨hx, by decide, (parse_limited (Nat.le_refl _) 2).1 x hx, hus,
    (parse_limited (Nat.le_refl _) 1).2 hus⟩

end Interpolation
