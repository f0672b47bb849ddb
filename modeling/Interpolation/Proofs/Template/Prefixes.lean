import Interpolation.Proofs.Template.Depth
import Interpolation.Proofs.Template.Grammar

/-!
# Errors at the earliest place

Where reading fails, the tokens before the error could still have become a template, and with the
token at the error they no longer can. The first half is about the grammar: every reader that fails
has taken the beginning of a phrase, and the phrase can be completed from there
(`Interrupted`). The derivation that shows it need not be the one that the reader was after, so the
ambiguity of the grammar does no harm.

The second half speaks of all continuations, of which the reader has seen none. It follows from the
fact that a reader looks one token ahead and no further (`Reading.OneAhead`): with any other tokens
behind the one at the error it fails in the same way, and a list that is refused for any reason but
its depth is no sentence of the grammar.
-/

namespace Interpolation

open Grammar

/-! ## One token ahead -/

namespace Reading

variable {α β : Type}

/-- What the reader makes of the tokens depends on those that it takes and on the one behind them.
-/
def OneAhead (f : List Token → Reading α) (ts : List Token) : Prop :=
  ∃ front, ts = front ++ (f ts).rest ∧
    ∀ us, us.head? = (f ts).rest.head? → f (front ++ us) = ⟨(f ts).result, us⟩

namespace OneAhead

variable {f g : List Token → Reading α} {ts : List Token}

theorem stay (h : ∀ us, us.head? = ts.head? → f us = ⟨(f ts).result, us⟩) : OneAhead f ts := by
  have hrest : (f ts).rest = ts := congrArg Reading.rest (h ts rfl)
  exact ⟨[], hrest.symm, fun us hus ↦ h us (by rw [hus, hrest])⟩

theorem cons {t : Token} (h : OneAhead f ts) (hg : ∀ us, g (t :: us) = f us) :
    OneAhead g (t :: ts) := by
  obtain ⟨front, hts, hfront⟩ := h
  refine ⟨t :: front, ?_, fun us hus ↦ ?_⟩
  · rw [hg, List.cons_append, ← hts]
  · rw [hg] at hus ⊢
    rw [List.cons_append, hg, hfront us hus]

theorem congr (h : OneAhead f ts) (hg : ∀ us, us.head? = ts.head? → g us = f us) :
    OneAhead g ts := by
  obtain ⟨front, hts, hfront⟩ := h
  rw [← hg ts rfl] at hts hfront
  refine ⟨front, hts, fun us hus ↦ ?_⟩
  have hhead : (front ++ us).head? = ts.head? := by
    rw [hts, List.head?_append, List.head?_append, hus]
  rw [hg _ hhead, hfront us hus]

theorem map (h : OneAhead f ts) (k : α → β) : OneAhead (fun us ↦ (f us).map k) ts := by
  obtain ⟨front, hts, hfront⟩ := h
  exact ⟨front, hts, fun us hus ↦ congrArg (Reading.map k) (hfront us hus)⟩

theorem bind {k : α → List Token → Reading β} (h : OneAhead f ts)
    (hk : ∀ value, OneAhead (k value) (f ts).rest) : OneAhead (fun us ↦ (f us).bind k) ts := by
  obtain ⟨front, hts, hfront⟩ := h
  cases hresult : (f ts).result with
  | error e =>
    have hbind : (f ts).bind k = ⟨.error e, (f ts).rest⟩ := by rw [Reading.bind, hresult]
    refine ⟨front, by simpa only [hbind] using hts, fun us hus ↦ ?_⟩
    simp only [hbind] at hus ⊢
    rw [hfront us hus, hresult]
    rfl
  | ok value =>
    have hbind : (f ts).bind k = k value (f ts).rest := by rw [Reading.bind, hresult]
    obtain ⟨front', hrest, hfront'⟩ := hk value
    refine ⟨front ++ front', ?_, fun us hus ↦ ?_⟩
    · simp only [hbind]
      rw [List.append_assoc, ← hrest, ← hts]
    · simp only [hbind] at hus ⊢
      -- what stands behind the first phrase still starts with the same token
      have hhead : (front' ++ us).head? = (f ts).rest.head? := by
        rw [hrest, List.head?_append, List.head?_append, hus]
      rw [List.append_assoc, hfront _ hhead, hresult]
      exact hfront' us hus

end OneAhead

theorem oneAhead_expect (kind : Token.Kind) (ts : List Token) : OneAhead (expect kind) ts := by
  cases ts with
  | nil => exact .stay fun us hus ↦ by rw [List.head?_eq_none_iff.mp hus]; rfl
  | cons t ts =>
    by_cases ht : t.kind = kind
    · refine .cons (f := done ()) (.stay fun us _ ↦ rfl) fun us ↦ ?_
      rw [expect, if_pos ht]
    · refine .stay fun us hus ↦ ?_
      obtain ⟨us, rfl⟩ := List.head?_eq_some_iff.mp hus
      rw [expect, expect, if_neg ht, if_neg ht]
      rfl

end Reading

namespace Parser

open Reading

theorem oneAhead_properties (names : List Text) (ts : List Token) :
    OneAhead (properties names) ts := by
  -- without a dot nothing is taken, and that depends on the next token alone
  have hdone : ∀ {names ts}, NoDot ts → OneAhead (properties names) ts := by
    intro names ts hdot
    refine .stay fun us hus ↦ ?_
    rw [properties_eq_done hdot, properties_eq_done (by rwa [NoDot, hus])]
    rfl
  fun_induction properties names ts with
  | case1 names => exact hdone (by simp [NoDot])
  | case2 names t ht =>
    refine .cons (f := fun us ↦ properties names (t :: us)) (.stay fun us hus ↦ ?_) fun _ ↦ rfl
    rw [List.head?_eq_none_iff.mp hus, properties, if_pos ht]
    rfl
  | case3 names t ht => exact hdone (by simpa [NoDot] using ht)
  | case4 names t u ts ht hu ih =>
    refine .cons (f := fun us ↦ properties names (t :: us)) (ih.cons fun us ↦ ?_) fun _ ↦ rfl
    rw [properties, if_pos ht, if_pos hu]
  | case5 names t u ts ht hu =>
    refine .cons (f := fun us ↦ properties names (t :: us)) (.stay fun us hus ↦ ?_) fun _ ↦ rfl
    obtain ⟨us, rfl⟩ := List.head?_eq_some_iff.mp hus
    rw [properties, properties, if_pos ht, if_pos ht, if_neg hu, if_neg hu]
    rfl
  | case6 names t u ts ht => exact hdone (by simpa [NoDot] using ht)

theorem oneAhead_path (ts : List Token) : OneAhead path ts := by
  cases ts with
  | nil => exact .stay fun us hus ↦ by rw [List.head?_eq_none_iff.mp hus]; rfl
  | cons t ts =>
    cases hatom : t.atom? with
    | some a =>
      refine .cons ((oneAhead_properties [] ts).map (Path.mk a)) fun us ↦ ?_
      rw [path, hatom]
    | none =>
      refine .stay fun us hus ↦ ?_
      obtain ⟨us, rfl⟩ := List.head?_eq_some_iff.mp hus
      rw [path, path, hatom]
      rfl

section

variable {inner : List Token → Reading Expr} (hinner : ∀ ts, OneAhead inner ts)
include hinner

theorem oneAhead_primary (ts : List Token) : OneAhead (primary inner) ts := by
  by_cases hunary : ∃ t us op, ts = t :: us ∧ t.kind = .unary op
  · obtain ⟨t, us, op, rfl, ht⟩ := hunary
    exact .cons ((hinner us).map (.unary op)) fun us ↦ by simp only [primary, ht]
  · refine ((oneAhead_path ts).map Expr.path).congr fun us hus ↦ ?_
    cases us with
    | nil => rfl
    | cons t us =>
      obtain ⟨ts, rfl⟩ := List.head?_eq_some_iff.mp hus.symm
      rw [primary]
      split
      · exact absurd ⟨t, ts, _, rfl, ‹_›⟩ hunary
      · rfl

theorem oneAhead_binarySuffix (lhs : Expr) (ts : List Token) :
    OneAhead (binarySuffix inner lhs) ts := by
  by_cases hbinary : NoBinary ts
  · refine .stay fun us hus ↦ ?_
    rw [binarySuffix_eq_done hbinary, binarySuffix_eq_done (by rwa [NoBinary, hus])]
    rfl
  · simp only [NoBinary, not_forall, not_not] at hbinary
    obtain ⟨t, ht, op, hop⟩ := hbinary
    obtain ⟨ts, rfl⟩ := List.head?_eq_some_iff.mp ht
    exact .cons ((hinner ts).map (.binary op lhs)) fun us ↦ by simp only [binarySuffix, hop]

theorem oneAhead_ternarySuffix (condition : Expr) (ts : List Token) :
    OneAhead (ternarySuffix inner condition) ts := by
  by_cases hquestion : NoQuestion ts
  · refine .stay fun us hus ↦ ?_
    rw [ternarySuffix_eq_done hquestion, ternarySuffix_eq_done (by rwa [NoQuestion, hus])]
    rfl
  · simp only [NoQuestion, not_forall, not_not] at hquestion
    obtain ⟨t, ht, hkind⟩ := hquestion
    obtain ⟨ts, rfl⟩ := List.head?_eq_some_iff.mp ht
    refine .cons (.bind (hinner ts) fun consequent ↦ ?_) fun us ↦ by
      rw [ternarySuffix, if_pos hkind]
    exact (oneAhead_expect _ _).bind fun _ ↦ (hinner _).map _

end

theorem oneAhead_expression (limit levels : Nat) (ts : List Token) :
    OneAhead (expression limit levels) ts := by
  induction levels generalizing ts with
  | zero =>
    refine .stay fun us hus ↦ ?_
    have hoffset : offsetOf us = offsetOf ts := by
      cases us with
      | nil => rw [List.head?_eq_none_iff.mp hus.symm]
      | cons t us =>
        obtain ⟨ts, rfl⟩ := List.head?_eq_some_iff.mp hus.symm
        rfl
    rw [expression, expression, hoffset]
  | succ levels ih =>
    refine (oneAhead_primary ih ts).bind fun head ↦ ?_
    exact (oneAhead_binarySuffix ih head _).bind fun body ↦ oneAhead_ternarySuffix ih body _

theorem oneAhead_enclosed (limit : Nat) (ts : List Token) : OneAhead (enclosed limit) ts :=
  (oneAhead_expression limit limit ts).bind fun _ ↦ (oneAhead_expect _ _).map _

theorem oneAhead_item (limit : Nat) (ts : List Token) : OneAhead (item limit) ts := by
  cases ts with
  | nil => exact .stay fun us hus ↦ by rw [List.head?_eq_none_iff.mp hus]; rfl
  | cons t ts =>
    cases ht : t.kind with
    | literal =>
      refine .cons (f := done (.literal t.text)) (.stay fun us _ ↦ rfl) fun us ↦ ?_
      simp only [item, ht]
    | opening d =>
      exact .cons ((oneAhead_enclosed limit ts).map (.embedded d)) fun us ↦ by simp only [item, ht]
    | _ =>
      refine .stay fun us hus ↦ ?_
      obtain ⟨us, rfl⟩ := List.head?_eq_some_iff.mp hus
      simp only [item, ht]
      rfl

end Parser

/-! ## Beginnings of phrases -/

namespace Grammar

/-- The kinds are the beginning of a phrase. -/
def Phrase.Viable (p : Phrase) (ks : List Token.Kind) : Prop := ∃ more, Derives p (ks ++ more)

theorem Derives.viable {p : Phrase} {ks ms : List Token.Kind} (h : Derives p ms)
    (heq : ks <+: ms) : p.Viable ks := by
  obtain ⟨more, rfl⟩ := heq
  exact ⟨more, h⟩

theorem Phrase.Viable.shorten {p : Phrase} {ks ms : List Token.Kind} (h : p.Viable ms)
    (heq : ks <+: ms) : p.Viable ks := by
  obtain ⟨more, hmore⟩ := h
  exact hmore.viable (heq.trans (List.prefix_append ms more))

/-- A name is an expression, and so every place that asks for an expression can be filled. -/
theorem derives_identifier : Derives .expression [.identifier] :=
  .expression (.primaryPath (.path .identifier .done)) .absent .absent

/-- The tokens `ts` are a phrase, and then `rest`. -/
def Phrase.Leads (p : Phrase) (ts rest : List Token) : Prop :=
  ∃ front, ts = front ++ rest ∧ Derives p (front.map Token.kind)

/-- Reading a phrase from the tokens `ts` stopped at `rest` with an error. What was taken is the
beginning of a phrase, and the error is about the next token, unless at least one token was taken
for each of the levels. -/
def Phrase.Interrupted (p : Phrase) (levels : Nat) (ts : List Token) (e : ParseError)
    (rest : List Token) : Prop :=
  ∃ front, ts = front ++ rest ∧ p.Viable (front.map Token.kind) ∧
    ((∃ x, e = Reading.mismatch x rest) ∨ levels ≤ front.length)

namespace Phrase

variable {p q : Phrase} {levels : Nat} {ts rest : List Token} {e : ParseError}

theorem interrupted_at_start (h : p.Viable []) (levels : Nat) (x : Expectation)
    (ts : List Token) : p.Interrupted levels ts (Reading.mismatch x ts) ts :=
  ⟨[], rfl, h, .inl ⟨x, rfl⟩⟩

/-- A phrase that was interrupted interrupts the phrase that it is a part of. -/
theorem Interrupted.behind (h : p.Interrupted levels ts e rest) (before : List Token)
    (hq : ∀ ks, Derives p ks → q.Viable (before.map Token.kind ++ ks)) :
    q.Interrupted (before.length + levels) (before ++ ts) e rest := by
  obtain ⟨front, rfl, ⟨more, hmore⟩, hcause⟩ := h
  refine ⟨before ++ front, (List.append_assoc ..).symm, ?_, ?_⟩
  · refine (hq _ hmore).shorten ?_
    rw [List.map_append, ← List.append_assoc]
    exact List.prefix_append _ _
  · rw [List.length_append]
    exact hcause.imp_right fun hle ↦ Nat.add_le_add_left hle _

theorem Interrupted.cons (h : p.Interrupted levels ts e rest) {t : Token} {k : Token.Kind}
    (ht : t.kind = k) (hq : ∀ ks, Derives p ks → q.Viable (k :: ks)) :
    q.Interrupted (levels + 1) (t :: ts) e rest := by
  subst ht
  rw [Nat.add_comm]
  exact h.behind [t] hq

theorem Interrupted.mono {levels' : Nat} (h : p.Interrupted levels ts e rest)
    (hle : levels' ≤ levels) : p.Interrupted levels' ts e rest := by
  obtain ⟨front, hts, hviable, hcause⟩ := h
  exact ⟨front, hts, hviable, hcause.imp_right (Nat.le_trans hle)⟩

end Phrase

end Grammar

/-! ## Where readers stop -/

namespace Reading

variable {α β : Type} {e : ParseError} {rest : List Token}

theorem bind_eq_error {r : Reading α} {f : α → List Token → Reading β}
    (h : r.bind f = ⟨.error e, rest⟩) :
    r = ⟨.error e, rest⟩ ∨ ∃ a ts, r = ⟨.ok a, ts⟩ ∧ f a ts = ⟨.error e, rest⟩ := by
  obtain ⟨_ | a, ts⟩ := r
  · cases h
    exact .inl rfl
  · exact .inr ⟨a, ts, rfl, h⟩

theorem map_eq_error {r : Reading α} {f : α → β} (h : r.map f = ⟨.error e, rest⟩) :
    r = ⟨.error e, rest⟩ := by
  obtain ⟨_ | a, ts⟩ := r
  · cases h
    rfl
  · cases h

theorem expect_eq_error {kind : Token.Kind} {ts : List Token}
    (h : expect kind ts = ⟨.error e, rest⟩) : ts = rest ∧ e = mismatch (.token kind) rest := by
  cases ts with
  | nil =>
    cases h
    exact ⟨rfl, rfl⟩
  | cons t ts =>
    rw [expect] at h
    split at h
    · cases h
    · cases h
      exact ⟨rfl, rfl⟩

end Reading

namespace Parser

open Reading

variable {limit levels : Nat} {ts rest : List Token} {e : ParseError}

theorem interrupted_properties {names : List Text} (h : properties names ts = ⟨.error e, rest⟩) :
    Phrase.Interrupted (.many .property) levels ts e rest := by
  -- a dot and a name are a property, and no property need follow
  have hproperty : Derives (.many .property) [.dot, .identifier] := .more .property .done
  fun_induction properties names ts with
  | case1 => cases h
  | case2 names t ht =>
    cases h
    exact ⟨[t], rfl, hproperty.viable (by simp [ht]), .inl ⟨.property, rfl⟩⟩
  | case3 => cases h
  | case4 names t u ts ht hu ih =>
    refine ((ih h).behind [t, u] fun ks hks ↦ ?_).mono (Nat.le_add_left _ _)
    refine Derives.viable (.more .property hks) ?_
    simp [ht, hu]
  | case5 names t u ts ht hu =>
    cases h
    exact ⟨[t], rfl, hproperty.viable (by simp [ht]), .inl ⟨.property, rfl⟩⟩
  | case6 => cases h

theorem interrupted_path (h : path ts = ⟨.error e, rest⟩) :
    Phrase.Interrupted .path levels ts e rest := by
  have hpath : Phrase.Viable .path [] := Derives.viable (.path .identifier .done) List.nil_prefix
  cases ts with
  | nil =>
    cases h
    exact Phrase.interrupted_at_start hpath _ _ _
  | cons t ts =>
    rw [path] at h
    split at h
    · rename_i a ha
      have hatom := Token.derives_of_sign (Token.sign_eq_atom_iff.mpr ha)
      refine ((interrupted_properties (map_eq_error h)).cons rfl fun ks hks ↦ ?_).mono
        (Nat.le_succ levels)
      exact Derives.viable (.path hatom hks) (List.prefix_refl _)
    · cases h
      exact Phrase.interrupted_at_start hpath _ _ _

theorem leads_path {p : Path} (h : path ts = ⟨.ok p, rest⟩) : Phrase.Leads .path ts rest := by
  obtain ⟨front, hts, hsigns⟩ := (path_eq_ok_iff.mp h).1
  exact ⟨front, hts, Path.derives hsigns⟩

theorem leads_expression {expr : Expr} (h : expression limit levels ts = ⟨.ok expr, rest⟩) :
    Phrase.Leads .expression ts rest := by
  obtain ⟨⟨front, hts, hsigns⟩, hnested, -, -⟩ := reads_of_expression h
  exact ⟨front, hts, Expr.derives hnested hsigns⟩

section

variable {inner : List Token → Reading Expr}
  (hok : ∀ {ts expr rest}, inner ts = ⟨.ok expr, rest⟩ → Phrase.Leads .expression ts rest)
  (herror : ∀ {ts e rest}, inner ts = ⟨.error e, rest⟩ →
    Phrase.Interrupted .expression levels ts e rest)

include hok in
theorem leads_primary {expr : Expr} (h : primary inner ts = ⟨.ok expr, rest⟩) :
    Phrase.Leads .primary ts rest := by
  rcases primary_eq_ok_iff.mp h with ⟨p, -, hp⟩ | ⟨op, operand, us, -, hop, hoperand⟩
  · obtain ⟨front, hts, hder⟩ := leads_path hp
    exact ⟨front, hts, .primaryPath hder⟩
  · obtain ⟨t, rfl, ht⟩ := (starts_bare rfl).mp hop
    obtain ⟨front, rfl, hder⟩ := hok hoperand
    refine ⟨t :: front, rfl, .primaryUnary ?_⟩
    rw [List.map_cons, ht]
    exact .unary hder

include hok in
theorem leads_binarySuffix {lhs expr : Expr} (h : binarySuffix inner lhs ts = ⟨.ok expr, rest⟩) :
    Phrase.Leads (.optional .binary) ts rest := by
  rcases binarySuffix_eq_ok_iff.mp h with ⟨op, rhs, us, -, hop, hrhs⟩ | ⟨-, rfl, -⟩
  · obtain ⟨t, rfl, ht⟩ := (starts_bare rfl).mp hop
    obtain ⟨front, rfl, hder⟩ := hok hrhs
    refine ⟨t :: front, rfl, .present ?_⟩
    rw [List.map_cons, ht]
    exact .binary hder
  · exact ⟨[], rfl, .absent⟩

include herror in
theorem interrupted_primary (h : primary inner ts = ⟨.error e, rest⟩) :
    Phrase.Interrupted .primary (levels + 1) ts e rest := by
  have hpath : ∀ {ts}, path ts = ⟨.error e, rest⟩ →
      Phrase.Interrupted .primary (levels + 1) ts e rest := by
    intro ts h
    exact ((interrupted_path h).behind [] fun ks hks ↦
      Derives.viable (.primaryPath hks) (List.prefix_refl _)).mono (Nat.le_add_left _ _)
  cases ts with
  | nil => exact hpath (map_eq_error h)
  | cons t ts =>
    rw [primary] at h
    split at h
    · rename_i op hop
      exact (herror (map_eq_error h)).cons hop fun ks hks ↦
        Derives.viable (.primaryUnary (.unary hks)) (List.prefix_refl _)
    · exact hpath (map_eq_error h)

include herror in
theorem interrupted_binarySuffix {lhs : Expr} (h : binarySuffix inner lhs ts = ⟨.error e, rest⟩) :
    Phrase.Interrupted (.optional .binary) (levels + 1) ts e rest := by
  cases ts with
  | nil => cases h
  | cons t ts =>
    rw [binarySuffix] at h
    split at h
    · rename_i op hop
      exact (herror (map_eq_error h)).cons hop fun ks hks ↦
        Derives.viable (.present (.binary hks)) (List.prefix_refl _)
    · cases h

include hok herror in
/-- A conditional can be interrupted in either branch and before the colon between them. -/
theorem interrupted_ternarySuffix {condition : Expr}
    (h : ternarySuffix inner condition ts = ⟨.error e, rest⟩) :
    Phrase.Interrupted (.optional .ternary) (levels + 1) ts e rest := by
  cases ts with
  | nil => cases h
  | cons t ts =>
    rw [ternarySuffix] at h
    split at h
    · rename_i ht
      rcases bind_eq_error h with hconsequent | ⟨consequent, vs, hconsequent, hbehind⟩
      · exact (herror hconsequent).cons ht fun ks hks ↦
          Derives.viable (.present (.ternary hks derives_identifier)) (by simp)
      obtain ⟨front, rfl, hfront⟩ := hok hconsequent
      rcases bind_eq_error hbehind with hcolon | ⟨_, ws, hcolon, halternate⟩
      · obtain ⟨rfl, rfl⟩ := expect_eq_error hcolon
        refine ⟨t :: front, rfl, ?_, .inl ⟨_, rfl⟩⟩
        refine Derives.viable (.present (.ternary hfront derives_identifier)) ?_
        simp [ht]
      · obtain ⟨c, rfl, hc⟩ := expect_eq_ok_iff.mp hcolon
        have hlast := (herror (map_eq_error halternate)).behind (t :: (front ++ [c])) fun ks hks ↦
          Derives.viable (.present (.ternary hfront hks)) (by simp [ht, hc])
        simp only [List.cons_append, List.append_assoc, List.nil_append, List.length_cons] at hlast
        exact hlast.mono (by omega)
    · cases h

end

/-- **An expression that cannot be read is the beginning of one that can.** -/
theorem interrupted_expression (h : expression limit levels ts = ⟨.error e, rest⟩) :
    Phrase.Interrupted .expression levels ts e rest := by
  induction levels generalizing ts e rest with
  | zero =>
    cases h
    exact ⟨[], rfl, ⟨_, derives_identifier⟩, .inr (Nat.le_refl 0)⟩
  | succ levels ih =>
    rw [expression, expressionBy] at h
    rcases bind_eq_error h with hprimary | ⟨head, ts₁, hprimary, hsuffix⟩
    · refine ((interrupted_primary ih hprimary).behind [] fun ks hks ↦ ?_).mono
        (Nat.le_add_left _ _)
      exact Derives.viable (.expression hks .absent .absent) (by simp)
    obtain ⟨front, rfl, hfront⟩ := leads_primary leads_expression hprimary
    rcases bind_eq_error hsuffix with hbinary | ⟨body, ts₂, hbinary, hternary⟩
    · refine ((interrupted_binarySuffix ih hbinary).behind front fun ks hks ↦ ?_).mono
        (Nat.le_add_left _ _)
      exact Derives.viable (.expression hfront hks .absent) (by simp)
    obtain ⟨front', rfl, hfront'⟩ := leads_binarySuffix leads_expression hbinary
    have hlast := (interrupted_ternarySuffix leads_expression ih hternary).behind (front ++ front')
      fun ks hks ↦ Derives.viable (.expression hfront hfront' hks) (by simp)
    rw [List.append_assoc] at hlast
    exact hlast.mono (Nat.le_add_left _ _)

theorem interrupted_item (h : item limit ts = ⟨.error e, rest⟩) :
    Phrase.Interrupted .item (limit + 1) ts e rest := by
  have hitem : Phrase.Viable .item [] := Derives.viable .literal List.nil_prefix
  cases ts with
  | nil =>
    cases h
    exact Phrase.interrupted_at_start hitem _ _ _
  | cons t ts =>
    rw [item] at h
    split at h
    · cases h
    · rename_i d hd
      rcases bind_eq_error (map_eq_error h) with hexpr | ⟨expr, us, hexpr, hclosing⟩
      · exact (interrupted_expression hexpr).cons hd fun ks hks ↦
          Derives.viable (.embedded (d := d) hks) (by simp)
      · obtain ⟨front, rfl, hfront⟩ := leads_expression hexpr
        obtain ⟨rfl, rfl⟩ := expect_eq_error (map_eq_error hclosing)
        refine ⟨t :: front, rfl, ?_, .inl ⟨_, rfl⟩⟩
        exact Derives.viable (.embedded (d := d) hfront) (by simp [hd])
    · cases h
      exact Phrase.interrupted_at_start hitem _ _ _

theorem leads_item {i : Item} (h : item limit ts = ⟨.ok i, rest⟩) :
    Phrase.Leads .item ts rest := by
  obtain ⟨⟨front, hts, hsigns⟩, hnested, -⟩ := item_eq_ok_iff.mp h
  exact ⟨front, hts, Item.derives hnested hsigns⟩

theorem item_of_head {front us : List Token} {result : Except ParseError Item}
    (h : item limit (front ++ rest) = ⟨result, rest⟩) (hus : us.head? = rest.head?) :
    item limit (front ++ us) = ⟨result, us⟩ := by
  obtain ⟨front', hcut, hahead⟩ := oneAhead_item limit (front ++ rest)
  rw [h] at hcut hahead
  obtain rfl := List.append_cancel_right hcut
  exact hahead us hus

end Parser

/-! ## Where reading a template stops -/

section

variable {limit : Nat} {ts rest : List Token} {e : ParseError}

theorem parse_eq_error_iff_of_item {i : Item} (h : Parser.item limit ts = ⟨.ok i, rest⟩) :
    parse limit ts = .error e ↔ parse limit rest = .error e := by
  cases ts with
  | nil => cases h
  | cons t ts =>
    rw [parse, parse, Parse.ofTokens_of_item h, Parse.result, Parse.result]
    cases (Parse.ofTokens limit rest).errors <;> simp

theorem parse_of_item_error (hne : ts ≠ []) (h : Parser.item limit ts = ⟨.error e, rest⟩) :
    parse limit ts = .error e := by
  obtain ⟨t, ts, rfl⟩ := List.exists_cons_of_ne_nil hne
  rw [parse, Parse.ofTokens_of_error h]
  rfl

/-- **A template that cannot be read is the beginning of one that can**, up to the place of the
error. What stands behind the next token has no part in the error. -/
theorem exists_interrupted_of_parse (h : parse limit ts = .error e) :
    ∃ rest, Phrase.Interrupted .template (limit + 1) ts e rest ∧
      ∀ front us, ts = front ++ rest → us.head? = rest.head? →
        parse limit (front ++ us) = .error e := by
  induction hn : ts.length using Nat.strongRecOn generalizing ts with
  | ind n ih =>
    subst hn
    have hne : ts ≠ [] := by
      rintro rfl
      rw [parse_nil] at h
      cases h
    rcases hitem : Parser.item limit ts with ⟨e' | i, rest₁⟩
    · obtain rfl : e' = e := Except.error.inj ((parse_of_item_error hne hitem).symm.trans h)
      refine ⟨rest₁, ?_, ?_⟩
      · refine ((Parser.interrupted_item hitem).behind [] fun ks hks ↦ ?_).mono
          (Nat.le_add_left _ _)
        exact Derives.viable (.template (.more hks .done)) (by simp)
      · rintro front us rfl hus
        refine parse_of_item_error ?_ (Parser.item_of_head hitem hus)
        intro hnil
        obtain ⟨rfl, rfl⟩ := List.append_eq_nil_iff.mp hnil
        exact hne (List.head?_eq_none_iff.mp hus.symm)
    · obtain ⟨t, ts, rfl⟩ := List.exists_cons_of_ne_nil hne
      obtain ⟨rest, hinterrupted, hahead⟩ := ih _ (Parser.length_rest_lt hitem)
        ((parse_eq_error_iff_of_item hitem).mp h) rfl
      obtain ⟨front₁, hts, hfront₁⟩ := Parser.leads_item hitem
      refine ⟨rest, ?_, ?_⟩
      · rw [hts]
        refine (hinterrupted.behind front₁ fun ks hks ↦ ?_).mono (Nat.le_add_left _ _)
        cases hks with
        | template hks => exact Derives.viable (.template (.more hfront₁ hks)) (List.prefix_refl _)
      · intro front us hfront hus
        obtain ⟨front₂, hrest₁, -⟩ := hinterrupted
        have hcut : front₁ ++ front₂ ++ rest = front ++ rest := by
          rw [← hfront, hts, hrest₁, List.append_assoc]
        obtain rfl := List.append_cancel_right hcut
        rw [hts] at hitem
        -- the item is read as before, since its next token is the same
        have hhead : (front₂ ++ us).head? = rest₁.head? := by
          rw [hrest₁, List.head?_append, List.head?_append, hus]
        rw [List.append_assoc]
        exact (parse_eq_error_iff_of_item (Parser.item_of_head hitem hhead)).mpr
          (hahead front₂ us hrest₁ hus)

/-! ## Sentences -/

theorem derives_of_parse {x : Template} (h : parse limit ts = .ok x) :
    Derives .template (ts.map Token.kind) := by
  obtain ⟨hsigns, hnested, -⟩ := parse_eq_ok_iff.mp h
  exact Template.derives hnested hsigns

theorem exists_parse_of_derives (h : Derives .template (ts.map Token.kind)) :
    ∃ x, parse ts.length ts = .ok x := by
  obtain ⟨x, hnested, hsigns⟩ := Phrase.readable_of_derives h rfl
  have hwithin := Template.nestsWithin_length_signs x
  rw [← hsigns, List.length_map] at hwithin
  exact ⟨x, parse_eq_ok_iff.mpr ⟨hsigns, hnested, hwithin⟩⟩

/-- Under any limit, a sentence is refused for its depth or not at all. -/
theorem not_derives_of_mismatch {x : Expectation}
    (h : parse limit ts = .error (Reading.mismatch x rest)) :
    ¬ Derives .template (ts.map Token.kind) := by
  intro hder
  obtain ⟨y, hy⟩ := exists_parse_of_derives hder
  have hlimited := Parse.limitedTo_of_parse hy limit
  by_cases hwithin : Template.NestsWithin limit y
  · cases h.symm.trans (hlimited.accepted hwithin)
  · obtain ⟨err, errs, herrs, hrefused⟩ := hlimited.refused hwithin
    obtain rfl : err = Reading.mismatch x rest := Except.error.inj (hrefused.symm.trans h)
    have herrors := hlimited.errors
    rw [herrs] at herrors
    obtain ⟨_, _, ⟨d, e, n, t, -, -, -, hbelow⟩, -⟩ := List.forall₂_cons_left_iff.mp herrors
    cases rest <;> cases hbelow

end

/-! ## The place of the error -/

/-- The error is about a token up to which the tokens are the beginning of a sentence, and with
which they no longer are. -/
def ParseError.IsEarliest (ts : List Token) (e : ParseError) : Prop :=
  ∃ i t x, ts[i]? = some t ∧ e = .unexpected x t.kind t.text t.offset ∧
    Phrase.Viable .template ((ts.take i).map Token.kind) ∧
      ¬ Phrase.Viable .template ((ts.take (i + 1)).map Token.kind)

theorem exists_tokens (ks : List Token.Kind) : ∃ us : List Token, us.map Token.kind = ks :=
  ⟨ks.map fun k ↦ ⟨k, [], .outer, 0⟩, by rw [List.map_map]; exact List.map_id ks⟩

theorem earliest_or_end {limit : Nat} {ts : List Token} (hlimit : ts.length ≤ limit)
    {e : ParseError} (h : parse limit ts = .error e) :
    (∃ x, e = .unexpectedEnd x) ∧ Phrase.Viable .template (ts.map Token.kind) ∨
      e.IsEarliest ts := by
  obtain ⟨rest, ⟨front, rfl, hviable, ⟨x, rfl⟩ | hdeep⟩, hahead⟩ := exists_interrupted_of_parse h
  · cases rest with
    | nil => exact .inl ⟨⟨x, rfl⟩, by rwa [List.append_nil]⟩
    | cons t rest =>
      have htake : (front ++ t :: rest).take (front.length + 1) = front ++ [t] :=
        List.take_length_add_append 1
      refine .inr ⟨front.length, t, x, by simp, rfl, by rwa [List.take_left], ?_⟩
      rintro ⟨ks, hks⟩
      obtain ⟨us, rfl⟩ := exists_tokens ks
      rw [htake, ← List.map_append, List.append_assoc, List.singleton_append] at hks
      exact not_derives_of_mismatch (hahead front (t :: us) rfl rfl) hks
  · -- the levels are never used up, since there are more of them than tokens
    rw [List.length_append] at hlimit
    omega

/-- **The error is at the earliest place.** Take a limit that the number of tokens does not exceed,
so that depth is no reason to fail. The end of the tokens is reported exactly if they are no
sentence of the grammar but the beginning of one. Any other error is about the first token with
which they are not even that. -/
theorem parse_error_earliest {limit : Nat} {ts : List Token} (hlimit : ts.length ≤ limit) :
    (∀ e, parse limit ts = .error e → (∃ x, e = .unexpectedEnd x) ∨ e.IsEarliest ts) ∧
      ((∃ x, parse limit ts = .error (.unexpectedEnd x)) ↔
        ¬ Derives .template (ts.map Token.kind) ∧
          Phrase.Viable .template (ts.map Token.kind)) := by
  refine ⟨fun e he ↦ (earliest_or_end hlimit he).imp_left And.left, ?_, ?_⟩
  · rintro ⟨x, hx⟩
    have hend : parse limit ts = .error (Reading.mismatch x []) := hx
    refine ⟨not_derives_of_mismatch hend, ?_⟩
    rcases earliest_or_end hlimit hx with ⟨-, hviable⟩ | ⟨i, t, y, -, heq, -⟩
    · exact hviable
    · cases heq
  · rintro ⟨hno, hviable⟩
    cases hparse : parse limit ts with
    | ok x => exact absurd (derives_of_parse hparse) hno
    | error e =>
      rcases earliest_or_end hlimit hparse with ⟨⟨x, rfl⟩, -⟩ | ⟨i, t, x, -, -, -, hdead⟩
      · exact ⟨x, rfl⟩
      · exact absurd (hviable.shorten ((List.take_prefix _ ts).map _)) hdead

/-- Behind literal text, a conditional below a negation lacks its second branch where the brace
closes the expression: `x#{not a ? b.c}d}`. Without the tokens from that brace on, it only lacks
its end. -/
theorem parse_error_earliest_conditional :
    let ts : List Token :=
      [(.literal, "x", 0), (.opening .deferred, "#\x7b", 1), (.unary .not, "not", 3),
        (.identifier, "a", 7), (.question, "?", 9), (.identifier, "b", 11), (.dot, ".", 12),
        (.identifier, "c", 13), (.closing, "\x7d", 14), (.literal, "d", 15),
        (.closing, "\x7d", 16)].map fun (k, s, n) ↦ ⟨k, s.toList, .outer, n⟩
    let us := ts.take 8
    ts.length ≤ 11 ∧ parse 11 ts = .error (.unexpected (.token .colon) .closing ['\x7d'] 14) ∧
      (ParseError.unexpected (.token .colon) .closing ['\x7d'] 14).IsEarliest ts ∧
      parse 11 us = .error (.unexpectedEnd (.token .colon)) ∧
      ¬ Derives .template (us.map Token.kind) ∧
      Phrase.Viable .template (us.map Token.kind) := by
  intro ts us
  have hts : parse 11 ts = .error (.unexpected (.token .colon) .closing ['\x7d'] 14) :=
    (parse_eq_error_iff_of_item rfl).mpr (parse_of_item_error (by decide) rfl)
  have hus : parse 11 us = .error (.unexpectedEnd (.token .colon)) :=
    (parse_eq_error_iff_of_item rfl).mpr (parse_of_item_error (by decide) rfl)
  have hearliest := (parse_error_earliest (by decide : ts.length ≤ 11)).1 _ hts
  refine ⟨by decide, hts, hearliest.resolve_left nofun, hus, ?_⟩
  exact (parse_error_earliest (by decide : us.length ≤ 11)).2.mp ⟨_, hus⟩

end Interpolation
