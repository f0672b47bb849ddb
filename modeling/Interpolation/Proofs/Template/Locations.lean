import Interpolation.Proofs.Template.Prefixes

/-!
# Where errors are

An error that gives an offset is about a token, and that token stands behind the delimiter of the
item that cannot be read. Items follow each other, so the offsets of the errors increase.

There is one exception. An expression below the limit is refused before any of its tokens is looked
at (`Reading.StopsBlindly`), and so also where the template ends and no token is left. The error
then gives offset zero, while every other error at the end of a template gives none. When that
happens can be told from the tokens: it takes an expression that is not closed and of which the
first part below the limit would come next (`EndsBelow`).
-/

namespace Interpolation

open Grammar

/-! ## Offsets of tokens -/

namespace Scanner

variable {s s' : Scanner} {ts : List Token}

theorem offset_le_of_run (h : Run s ts s') : ∀ t ∈ ts, s.offset ≤ t.offset := by
  induction h with
  | refl => exact List.forall_mem_nil _
  | @step s s' s'' t ts hstep _ ih =>
    have htakes := step_eq_some_iff.mp hstep
    refine List.forall_mem_cons.mpr ⟨Nat.le_of_eq htakes.offset_eq.symm, fun u hu ↦ ?_⟩
    exact Nat.le_trans (Nat.le_of_lt htakes.offset_lt) (ih u hu)

theorem pairwise_offset_of_run (h : Run s ts s') :
    ts.Pairwise fun t u ↦ t.offset < u.offset := by
  induction h with
  | refl => exact .nil
  | @step s s' s'' t ts hstep hrun ih =>
    have htakes := step_eq_some_iff.mp hstep
    refine .cons (fun u hu ↦ ?_) ih
    calc t.offset
      _ = s.offset := htakes.offset_eq
      _ < s'.offset := htakes.offset_lt
      _ ≤ u.offset := offset_le_of_run hrun u hu

theorem pairwise_offset_of_tokenize {input : Text} (h : tokenize input = .ok ts) :
    ts.Pairwise fun t u ↦ t.offset < u.offset := by
  obtain ⟨all, s, hrun, -, rfl⟩ := tokenize_eq_ok_iff.mp h
  exact (pairwise_offset_of_run hrun).filter _

end Scanner

/-! ## Levels that are used up -/

namespace Reading

variable {α β : Type} {limit : Nat}

/-- Behind the tokens `front` the levels are used up, whatever comes next. -/
def Exhausted (limit : Nat) (f : List Token → Reading α) (front : List Token) : Prop :=
  ∀ us, f (front ++ us) = ⟨.error (.tooDeep limit (Parser.offsetOf us)), us⟩

/-- Where the reader says that the levels are used up, it does not look at what comes next. -/
def StopsBlindly (limit : Nat) (f : List Token → Reading α) : Prop :=
  ∀ ts offset rest, f ts = ⟨.error (.tooDeep limit offset), rest⟩ →
    ∃ front, ts = front ++ rest ∧ Exhausted limit f front

/-- A phrase before the one that is not read. It is read as before, since the other one has a first
token. -/
theorem Exhausted.behind {f : List Token → Reading α} {g k : List Token → Reading β} {a : α}
    {ts front rest : List Token} (hg : Exhausted limit g front) (hne : front ≠ [])
    (hf : OneAhead f ts) (hts : f ts = ⟨.ok a, front ++ rest⟩)
    (hk : ∀ us vs, f us = ⟨.ok a, vs⟩ → k us = g vs) :
    ∃ before, ts = before ++ (front ++ rest) ∧ Exhausted limit k (before ++ front) := by
  obtain ⟨before, hcut, hahead⟩ := hf
  rw [hts] at hcut hahead
  refine ⟨before, hcut, fun us ↦ ?_⟩
  have hhead : (front ++ us).head? = (front ++ rest).head? := by
    rw [List.head?_append_of_ne_nil _ hne, List.head?_append_of_ne_nil _ hne]
  rw [List.append_assoc, hk _ _ (hahead _ hhead), hg us]

end Reading

namespace Parser

open Reading

variable {limit levels : Nat} {ts rest : List Token}

theorem path_ne_tooDeep {offset : Nat} : path ts ≠ ⟨.error (.tooDeep limit offset), rest⟩ := by
  intro h
  have hinterrupted : Phrase.Interrupted .path (ts.length + 1) ts _ rest := interrupted_path h
  obtain ⟨front, rfl, -, ⟨x, hx⟩ | hle⟩ := hinterrupted
  · cases rest <;> cases hx
  · rw [List.length_append] at hle
    omega

section

variable {inner : List Token → Reading Expr} (hinner : StopsBlindly limit inner)
include hinner

theorem stopsBlindly_primary : StopsBlindly limit (primary inner) := by
  intro ts offset rest h
  cases ts with
  | nil => exact absurd (map_eq_error h) path_ne_tooDeep
  | cons t ts =>
    rw [primary] at h
    split at h
    · rename_i op hop
      obtain ⟨front, rfl, hfront⟩ := hinner _ _ _ (map_eq_error h)
      refine ⟨t :: front, rfl, fun us ↦ ?_⟩
      simp only [List.cons_append, primary, hop, hfront us]
      rfl
    · exact absurd (map_eq_error h) path_ne_tooDeep

theorem stopsBlindly_binarySuffix (lhs : Expr) : StopsBlindly limit (binarySuffix inner lhs) := by
  intro ts offset rest h
  cases ts with
  | nil => cases h
  | cons t ts =>
    rw [binarySuffix] at h
    split at h
    · rename_i op hop
      obtain ⟨front, rfl, hfront⟩ := hinner _ _ _ (map_eq_error h)
      refine ⟨t :: front, rfl, fun us ↦ ?_⟩
      simp only [List.cons_append, binarySuffix, hop, hfront us]
      rfl
    · cases h

theorem stopsBlindly_ternarySuffix (hahead : ∀ ts, OneAhead inner ts) (condition : Expr) :
    StopsBlindly limit (ternarySuffix inner condition) := by
  intro ts offset rest h
  cases ts with
  | nil => cases h
  | cons t ts =>
    rw [ternarySuffix] at h
    split at h
    · rename_i ht
      rcases bind_eq_error h with hconsequent | ⟨consequent, vs, hconsequent, hbehind⟩
      · obtain ⟨front, rfl, hfront⟩ := hinner _ _ _ hconsequent
        refine ⟨t :: front, rfl, fun us ↦ ?_⟩
        rw [List.cons_append, ternarySuffix, if_pos ht, hfront us]
        rfl
      rcases bind_eq_error hbehind with hcolon | ⟨_, ws, hcolon, halternate⟩
      · obtain ⟨rfl, he⟩ := expect_eq_error hcolon
        cases vs <;> cases he
      · obtain ⟨c, rfl, hc⟩ := expect_eq_ok_iff.mp hcolon
        obtain ⟨front, rfl, hfront⟩ := hinner _ _ _ (map_eq_error halternate)
        have hsecond : Exhausted limit (fun us ↦ (expect .colon us).bind fun _ vs ↦
            (inner vs).map (Expr.ternary condition consequent)) (c :: front) := by
          intro us
          have hexpect : expect .colon (c :: (front ++ us)) = ⟨.ok (), front ++ us⟩ :=
            expect_eq_ok_iff.mpr ⟨c, rfl, hc⟩
          dsimp only
          rw [List.cons_append, hexpect, bind_ok, hfront us]
          rfl
        obtain ⟨before, rfl, hboth⟩ := hsecond.behind (List.cons_ne_nil c front) (hahead ts)
          hconsequent (k := fun us ↦ ternarySuffix inner condition (t :: us)) fun us vs hus ↦ by
            rw [ternarySuffix, if_pos ht, hus, bind_ok]
        exact ⟨t :: (before ++ c :: front), by simp, hboth⟩
    · cases h

end

/-- **An expression below the limit is refused unseen.** -/
theorem stopsBlindly_expression (limit levels : Nat) :
    StopsBlindly limit (expression limit levels) := by
  induction levels with
  | zero =>
    intro ts offset rest h
    cases h
    exact ⟨[], rfl, fun us ↦ rfl⟩
  | succ levels ih =>
    have hahead := oneAhead_expression limit levels
    intro ts offset rest h
    rw [expression, expressionBy] at h
    rcases bind_eq_error h with hprimary | ⟨head, ts₁, hprimary, hsuffix⟩
    · obtain ⟨front, rfl, hfront⟩ := stopsBlindly_primary ih _ _ _ hprimary
      refine ⟨front, rfl, fun us ↦ ?_⟩
      rw [expression, expressionBy, hfront us]
      rfl
    -- from here on, a primary that is read and suffixes that are not
    suffices hsuffixes : ∃ front, ts₁ = front ++ rest ∧ front ≠ [] ∧ Exhausted limit (fun us ↦
        (binarySuffix (expression limit levels) head us).bind
          (ternarySuffix (expression limit levels))) front by
      obtain ⟨front, rfl, hne, hfront⟩ := hsuffixes
      obtain ⟨before, rfl, hall⟩ := hfront.behind hne (oneAhead_primary hahead ts) hprimary
        (k := expression limit (levels + 1)) fun us vs hus ↦ by
          rw [expression, expressionBy, hus]; rfl
      exact ⟨before ++ front, (List.append_assoc ..).symm, hall⟩
    rcases bind_eq_error hsuffix with hbinary | ⟨body, ts₂, hbinary, hternary⟩
    · obtain ⟨front, rfl, hfront⟩ := stopsBlindly_binarySuffix ih head _ _ _ hbinary
      refine ⟨front, rfl, ?_, fun us ↦ ?_⟩
      · rintro rfl
        cases hfront []
      · dsimp only
        rw [hfront us]
        rfl
    · obtain ⟨front, rfl, hfront⟩ := stopsBlindly_ternarySuffix ih hahead body _ _ _ hternary
      have hne : front ≠ [] := by
        rintro rfl
        cases hfront []
      obtain ⟨before, rfl, hboth⟩ := hfront.behind hne (oneAhead_binarySuffix hahead head ts₁)
        hbinary (k := fun us ↦ (binarySuffix (expression limit levels) head us).bind
          (ternarySuffix (expression limit levels))) fun us vs hus ↦ by rw [hus]; rfl
      exact ⟨before ++ front, (List.append_assoc ..).symm,
        List.append_ne_nil_of_right_ne_nil _ hne, hboth⟩

end Parser

/-! ## Templates that end below the limit -/

theorem Expr.FirstAt.unique {e : Expr} {level n n' : Nat} (h : e.FirstAt level n)
    (h' : e.FirstAt level n') : n = n' := by
  obtain ⟨sub, hsub⟩ := h.occurs
  obtain ⟨sub', hsub'⟩ := h'.occurs
  exact Nat.le_antisymm (h.least _ _ hsub') (h'.least _ _ hsub)

/-- There is an expression that starts with the tokens `body`, and the first of its parts at the
given level is what comes next. -/
def PartIsNext (level : Nat) (body : List Token) : Prop :=
  ∃ (more : List Token) (e : Expr), e.RightNested ∧ (body ++ more).map Token.sign = e.signs ∧
    e.FirstAt level body.length

/-- The tokens end in an expression that is not closed, and what comes next is the first part of it
below the limit. -/
def EndsBelow (limit : Nat) (ts : List Token) : Prop :=
  ∃ before t d body, ts = before ++ t :: body ∧ t.kind = .opening d ∧
    (∀ u ∈ body, u.kind.isInner) ∧ PartIsNext (limit + 1) body

theorem not_endsBelow_of_closing {limit : Nat} {ts : List Token} {c : Token}
    (hc : c.kind = .closing) : ¬ EndsBelow limit (ts ++ [c]) := by
  rintro ⟨before, t, d, body, hcut, ht, hbody, -⟩
  have hlast : (t :: body).getLast? = some c := by
    rw [← List.getLast?_append_of_ne_nil before (List.cons_ne_nil t body), ← hcut,
      List.getLast?_append_of_ne_nil ts (List.cons_ne_nil c [])]
    rfl
  rcases List.mem_cons.mp (List.mem_of_getLast? hlast) with rfl | hmem
  · cases ht.symm.trans hc
  · exact Token.Kind.ne_closing_of_isInner (hbody c hmem) hc

namespace Parser

open Reading

variable {limit levels : Nat} {body : List Token}

/-- **The levels are used up at the end of the tokens** exactly if the first part below them comes
next. -/
theorem expression_eq_deep_nil_iff :
    expression limit levels body = deep limit [] ↔ PartIsNext (levels + 1) body := by
  obtain ⟨c, hc⟩ : ∃ c : Token, c.kind = .closing := ⟨⟨.closing, [], .outer, 0⟩, rfl⟩
  have hsettled : Settled [c] :=
    ((starts_bare rfl).mpr ⟨c, rfl, hc⟩ : Starts [c] [.bare .closing] []).settled (.inr rfl)
  constructor
  · intro h
    obtain ⟨front, hfront, hout⟩ := stopsBlindly_expression limit levels _ _ _ h
    obtain rfl : body = front := by rw [hfront, List.append_nil]
    -- any way to complete the expression will do
    obtain ⟨front, hbody, ⟨ks, hks⟩, -⟩ := interrupted_expression h
    obtain rfl : body = front := by rw [hbody, List.append_nil]
    obtain ⟨more, rfl⟩ := exists_tokens ks
    rw [← List.map_append] at hks
    obtain ⟨e, hnested, hsigns⟩ := Phrase.readable_of_derives hks rfl
    have hstarts : Starts (body ++ (more ++ [c])) e.signs [c] :=
      ⟨body ++ more, (List.append_assoc ..).symm, hsigns⟩
    by_cases hdeep : levels < e.nesting
    · obtain ⟨n, hfirst, hread⟩ := expression_of_deep limit hstarts hnested hsettled hdeep
      have hdrop := congrArg (List.length ∘ Reading.rest) ((hout (more ++ [c])).symm.trans hread)
      have hlength : n = body.length := by
        simp only [Function.comp_apply, deep, List.length_append, List.length_drop,
          List.length_singleton] at hdrop
        omega
      exact ⟨more, e, hnested, hsigns, hlength ▸ hfirst⟩
    · have hread : expression limit levels (body ++ (more ++ [c])) = ⟨.ok e, [c]⟩ :=
        expression_of_reads ⟨hstarts, hnested, Nat.le_of_not_lt hdeep, hsettled⟩
      rw [hout] at hread
      cases hread
  · rintro ⟨more, e, hnested, hsigns, hfirst⟩
    have hstarts : Starts (body ++ (more ++ [c])) e.signs [c] :=
      ⟨body ++ more, (List.append_assoc ..).symm, hsigns⟩
    have hdeep : levels < e.nesting := by
      obtain ⟨sub, hsub⟩ := hfirst.occurs
      exact hsub.level_le hnested
    obtain ⟨n, hfirst', hread⟩ := expression_of_deep limit hstarts hnested hsettled hdeep
    rw [hfirst'.unique hfirst, List.drop_left] at hread
    obtain ⟨front, hcut, hout⟩ := stopsBlindly_expression limit levels _ _ _ hread
    obtain rfl := List.append_cancel_right hcut
    simpa [deep] using hout []

theorem enclosed_eq_deep_nil_iff :
    enclosed limit body = ⟨.error (.tooDeep limit 0), []⟩ ↔ PartIsNext (limit + 1) body := by
  rw [← @expression_eq_deep_nil_iff limit limit body]
  constructor
  · intro h
    rcases bind_eq_error h with hexpr | ⟨e, us, -, hclosing⟩
    · exact hexpr
    · obtain ⟨-, he⟩ := expect_eq_error (map_eq_error hclosing)
      cases he
  · intro h
    rw [enclosed, h]
    rfl

end Parser

/-! ## The last item -/

section

variable {ts before body : List Token} {t : Token} {d : Delimiter} {m : Mode}

theorem Passes.eq_append_of_unclosed (h : Passes .outer ts m) (hp : t :: body ∈ pieces ts)
    (ht : t.kind = .opening d) (hbody : ∀ u ∈ body, u.kind.isInner) :
    m = .inside d ∧ ∃ before, ts = before ++ t :: body := by
  revert hp
  refine h.pieces_induction (motive := fun ts m ↦ t :: body ∈ pieces ts →
    m = .inside d ∧ ∃ before, ts = before ++ t :: body) ?_ ?_ ?_ ?_
  · intro hp
    rw [pieces] at hp
    cases hp
  · intro t' ts m ht' ih hp
    rw [pieces_literal ht'] at hp
    rcases List.mem_cons.mp hp with heq | hp
    · cases heq
      cases ht.symm.trans ht'
    · obtain ⟨hm, before, rfl⟩ := ih hp
      exact ⟨hm, t' :: before, rfl⟩
  · intro t' d' body' c ts m ht' hbody' hc ih hp
    rw [pieces_closed ht' hbody' hc] at hp
    rcases List.mem_cons.mp hp with heq | hp
    · -- the closing brace would stand inside the expression
      cases heq
      have hinner := hbody c (List.mem_append_right body' List.mem_cons_self)
      exact absurd hc (Token.Kind.ne_closing_of_isInner hinner)
    · obtain ⟨hm, before, rfl⟩ := ih hp
      exact ⟨hm, t' :: (body' ++ c :: before), by simp⟩
  · intro t' d' body' ht' hbody' hp
    rw [pieces_unclosed ht' hbody'] at hp
    cases List.mem_singleton.mp hp
    cases ht.symm.trans ht'
    exact ⟨rfl, [], rfl⟩

theorem Passes.exists_of_append {us : List Token} {m₀ : Mode} (h : Passes m₀ (before ++ us) m) :
    ∃ m₁, Passes m₀ before m₁ ∧ Passes m₁ us m := by
  induction before generalizing m₀ with
  | nil => exact ⟨m₀, .nil m₀, h⟩
  | cons u before ih =>
    cases h with
    | cons hmode hafter hts =>
      obtain ⟨m₁, hbefore, hus⟩ := ih hts
      exact ⟨m₁, .cons hmode hafter hbefore, hus⟩

theorem Passes.outer_of_opening (h : Passes .outer (before ++ t :: body) m)
    (ht : t.kind = .opening d) : Passes .outer before .outer := by
  obtain ⟨m₁, hbefore, hus⟩ := h.exists_of_append
  cases hus with
  | cons hmode hafter hts =>
    cases m₁ with
    | outer => exact hbefore
    | inside d' =>
      rw [ht] at hafter
      cases hafter

theorem pieces_append (h : Passes .outer before .outer) (us : List Token) :
    pieces (before ++ us) = pieces before ++ pieces us := by
  refine h.pieces_induction (motive := fun ts m ↦ m = .outer →
    pieces (ts ++ us) = pieces ts ++ pieces us) ?_ ?_ ?_ ?_ rfl
  · intro _
    rw [pieces]
    rfl
  · intro t ts m ht ih hm
    rw [List.cons_append, pieces_literal ht, pieces_literal ht, ih hm, List.cons_append]
  · intro t d body c ts m ht hbody hc ih hm
    have hcut : t :: (body ++ c :: ts) ++ us = t :: (body ++ c :: (ts ++ us)) := by simp
    rw [hcut, pieces_closed ht hbody hc, pieces_closed ht hbody hc, ih hm, List.cons_append]
  · intro t d body ht hbody hm
    cases hm

end

/-! ## Located errors -/

/-- The offset that an error gives. -/
def ParseError.offset? : ParseError → Option Nat
  | .unexpected _ _ _ offset => some offset
  | .unexpectedEnd _ => none
  | .tooDeep _ offset => some offset

namespace Parse

variable {limit : Nat} {ts : List Token} {m : Mode} {input : Text}

/-- Every error of the given items that gives an offset is located: it is behind the delimiter of
its item, at a token of the item or at the end of the template, and behind the errors before it. -/
structure Located (input : Text) (limit : Nat) (ps : List (List Token)) : Prop where
  /-- The error of an item is inside the item. -/
  inside : ∀ p ∈ ps, ∀ e ∈ failure? limit p, ∀ n ∈ e.offset?, ∃ t d body, p = t :: body ∧
    t.kind = .opening d ∧ t.offset < n ∧ ((∃ u ∈ p, u.offset = n) ∨ n = Text.byteSize input)
  /-- The offsets increase. -/
  increasing : ((ps.filterMap (failure? limit)).filterMap ParseError.offset?).Pairwise (· < ·)

/-- The offset that the error of an item gives is that of a token behind its delimiter, unless the
levels are used up at the end of the template. -/
theorem offset_of_failure (h : Passes .outer ts m) {p : List Token} (hp : p ∈ pieces ts)
    {e : ParseError} (he : failure? limit p = some e) {n : Nat} (hn : e.offset? = some n) :
    ∃ t d body, p = t :: body ∧ t.kind = .opening d ∧
      ((∃ u ∈ body, u.offset = n) ∨
        (∀ u ∈ body, u.kind.isInner) ∧ PartIsNext (limit + 1) body) := by
  rcases outcome_of_mem_pieces limit h hp with
    ⟨t, -, -, houtcome⟩ | ⟨t, d, body, rfl, ht, -, houtcome⟩
  · rw [failure?, parse_of_item houtcome] at he
    cases he
  · refine ⟨t, d, body, rfl, ht, ?_⟩
    obtain ⟨front, rest, hbody, hfront, ⟨e', c, us, -, -, heq⟩ | ⟨e', hat, heq⟩⟩ :=
      Parser.enclosed_cases limit body
    · rw [heq] at houtcome
      rw [failure?, parse_of_item houtcome] at he
      cases he
    · rw [heq] at houtcome
      rw [failure?, parse_of_error houtcome] at he
      cases he
      cases rest with
      | cons u rest =>
        refine .inl ⟨u, hbody ▸ List.mem_append_right front List.mem_cons_self, ?_⟩
        rcases hat with ⟨x, -, rfl⟩ | rfl <;> exact Option.some.inj hn
      | nil =>
        rw [List.append_nil] at hbody
        rcases hat with ⟨x, -, rfl⟩ | rfl
        · cases hn
        · exact .inr ⟨hbody ▸ hfront, Parser.enclosed_eq_deep_nil_iff.mp heq⟩

theorem located_of_forall {ps : List (List Token)}
    (hoffset : ps.flatten.Pairwise fun t u ↦ t.offset < u.offset)
    (h : ∀ p ∈ ps, ∀ e ∈ failure? limit p, ∀ n ∈ e.offset?,
      ∃ t d body, p = t :: body ∧ t.kind = .opening d ∧ ∃ u ∈ body, u.offset = n) :
    Located input limit ps := by
  obtain ⟨hwithin, hbetween⟩ := List.pairwise_flatten.mp hoffset
  refine ⟨fun p hp e he n hn ↦ ?_, ?_⟩
  · obtain ⟨t, d, body, rfl, ht, u, hu, rfl⟩ := h p hp e he n hn
    exact ⟨t, d, body, rfl, ht, (List.pairwise_cons.mp (hwithin _ hp)).1 u hu,
      .inl ⟨u, List.mem_cons_of_mem t hu, rfl⟩⟩
  · rw [List.pairwise_filterMap, List.pairwise_filterMap]
    refine hbetween.imp_of_mem fun {p q} hp hq hlt e he e' he' n hn n' hn' ↦ ?_
    obtain ⟨t, d, body, rfl, -, u, hu, rfl⟩ := h p hp e he n hn
    obtain ⟨t', d', body', rfl, -, u', hu', rfl⟩ := h q hq e' he' n' hn'
    exact hlt u (List.mem_cons_of_mem t hu) u' (List.mem_cons_of_mem t' hu')

/-- Unless the tokens end below the limit, all errors are located. -/
theorem located_of_not_endsBelow (h : Passes .outer ts m)
    (hoffset : ts.Pairwise fun t u ↦ t.offset < u.offset) (hend : ¬ EndsBelow limit ts) :
    Located input limit (pieces ts) := by
  refine located_of_forall (by rwa [flatten_pieces]) fun p hp e he n hn ↦ ?_
  obtain ⟨t, d, body, rfl, ht, hu | ⟨hbody, hnext⟩⟩ := offset_of_failure h hp he hn
  · exact ⟨t, d, body, rfl, ht, hu⟩
  · obtain ⟨-, before, rfl⟩ := h.eq_append_of_unclosed hp ht hbody
    exact absurd ⟨before, t, d, body, rfl, ht, hbody, hnext⟩ hend

/-- Where the tokens end below the limit, the last error gives offset zero, and the others are
located. -/
theorem exists_last_of_endsBelow (input : Text) (h : Passes .outer ts m)
    (hoffset : ts.Pairwise fun t u ↦ t.offset < u.offset) (hend : EndsBelow limit ts) :
    ∃ ps p, pieces ts = ps ++ [p] ∧ Located input limit ps ∧
      failure? limit p = some (.tooDeep limit 0) := by
  obtain ⟨before, t, d, body, rfl, ht, hbody, hnext⟩ := hend
  have hbefore := h.outer_of_opening ht
  refine ⟨pieces before, t :: body, ?_, ?_, ?_⟩
  · rw [pieces_append hbefore, pieces_unclosed ht hbody]
  · refine located_of_not_endsBelow hbefore (List.pairwise_append.mp hoffset).1 ?_
    rintro ⟨before', t', d', body', rfl, ht', hbody', -⟩
    -- the tokens before the last expression do not end in an expression
    have hmem : t' :: body' ∈ pieces (before' ++ t' :: body') := by
      rw [pieces_append (hbefore.outer_of_opening ht'), pieces_unclosed ht' hbody']
      exact List.mem_append_right _ List.mem_cons_self
    cases (hbefore.eq_append_of_unclosed hmem ht' hbody').1
  · have hread : ofTokens limit (t :: body) = ⟨[], [.tooDeep limit 0]⟩ := by
      rw [ofTokens_opening ht, recover_of_inner hbody, ofTokens_nil, append_empty,
        Parser.enclosed_eq_deep_nil_iff.mpr hnext]
      rfl
    rw [failure?, parse_of_error hread]

end Parse

open Parse

/-- **Errors are where the fault is, but for one.** Every item that cannot be read has one error,
and an offset that it gives is that of a token of the item behind its delimiter; from one error to
the next the offsets increase. This holds exactly if the template does not end below the limit. If
it does, the last error gives offset zero in place of the end of the template, and all others are as
they should be. -/
theorem errors_located_iff {input : Text} {ts : List Token} (limit : Nat)
    (h : tokenize input = .ok ts) :
    (ofTokens limit ts).errors = (pieces ts).filterMap (failure? limit) ∧
      (Located input limit (pieces ts) ↔ ¬ EndsBelow limit ts) ∧
      (EndsBelow limit ts → ∃ ps p, pieces ts = ps ++ [p] ∧ Located input limit ps ∧
        failure? limit p = some (.tooDeep limit 0)) := by
  obtain ⟨m, hpasses⟩ := Scanner.passes_of_tokenize h
  have hoffset := Scanner.pairwise_offset_of_tokenize h
  refine ⟨?_, ⟨fun hlocated hend ↦ ?_, located_of_not_endsBelow hpasses hoffset⟩,
    exists_last_of_endsBelow input hpasses hoffset⟩
  · rw [ofTokens_eq hpasses]
    exact flatMap_errors_eq fun p hp ↦ item_or_error_of_mem_pieces limit hpasses hp
  · obtain ⟨ps, p, hpieces, -, hp⟩ := exists_last_of_endsBelow input hpasses hoffset hend
    have hmem : p ∈ pieces ts := hpieces ▸ List.mem_append_right ps List.mem_cons_self
    obtain ⟨t, d, body, -, -, hlt, -⟩ := hlocated.inside p hmem _ hp 0 rfl
    exact Nat.not_lt_zero _ hlt

/-- A negation whose operand would be below the limit, behind another error. In `#{a b}${not}` the
closing brace is where the operand is missing; in `#{a b}${not` nothing is, and the second error
gives an offset before the first. -/
theorem errors_located_iff_negation :
    let us : List Token := [⟨.opening .deferred, "#\x7b".toList, .outer, 0⟩,
      ⟨.identifier, ['a'], .inside .deferred, 2⟩, ⟨.identifier, ['b'], .inside .deferred, 4⟩,
      ⟨.closing, ['\x7d'], .inside .deferred, 5⟩, ⟨.opening .dynamic, "$\x7b".toList, .outer, 6⟩,
      ⟨.unary .not, "not".toList, .inside .dynamic, 8⟩]
    let ts := us ++ [⟨.closing, ['\x7d'], .inside .dynamic, 11⟩]
    tokenize "#\x7ba b\x7d$\x7bnot\x7d".toList = .ok ts ∧
      (ofTokens 1 ts).errors.map ParseError.offset? = [some 4, some 11] ∧ ¬ EndsBelow 1 ts ∧
      Located "#\x7ba b\x7d$\x7bnot\x7d".toList 1 (pieces ts) ∧
      tokenize "#\x7ba b\x7d$\x7bnot".toList = .ok us ∧
      (ofTokens 1 us).errors.map ParseError.offset? = [some 4, some 0] ∧ EndsBelow 1 us ∧
      ¬ Located "#\x7ba b\x7d$\x7bnot".toList 1 (pieces us) := by
  intro us ts
  have hts : tokenize "#\x7ba b\x7d$\x7bnot\x7d".toList = .ok ts :=
    Scanner.tokenize_of_returned _ 8 (by decide) (by decide)
  have hus : tokenize "#\x7ba b\x7d$\x7bnot".toList = .ok us :=
    Scanner.tokenize_of_returned _ 7 (by decide) (by decide)
  have hopen : ¬ EndsBelow 1 ts := not_endsBelow_of_closing rfl
  have hend : EndsBelow 1 us := ⟨us.take 4, _, .dynamic, [_], rfl, rfl, by decide,
    [⟨.identifier, ['b'], .outer, 0⟩], .unary .not (.path ⟨.name ['b'], []⟩), trivial, rfl,
    .operand (.whole _)⟩
  refine ⟨hts, ?_, hopen, (errors_located_iff 1 hts).2.1.mpr hopen, hus, ?_, hend,
    fun h ↦ (errors_located_iff 1 hus).2.1.mp h hend⟩
  · have hread : ofTokens 1 ts = ofEmbedded .deferred (Parser.enclosed 1 (ts.drop 1)).result ++
        (ofEmbedded .dynamic (Parser.enclosed 1 (ts.drop 5)).result ++ ofTokens 1 []) :=
      (ofTokens_opening rfl _).trans (congrArg (_ ++ ·) (ofTokens_opening rfl _))
    rw [hread, ofTokens_nil]
    decide
  · have hread : ofTokens 1 us = ofEmbedded .deferred (Parser.enclosed 1 (us.drop 1)).result ++
        (ofEmbedded .dynamic (Parser.enclosed 1 (us.drop 5)).result ++ ofTokens 1 []) :=
      (ofTokens_opening rfl _).trans (congrArg (_ ++ ·) (ofTokens_opening rfl _))
    rw [hread, ofTokens_nil]
    decide

end Interpolation
