import Interpolation.Proofs.Template.Lookahead

/-!
# Reading a template piece by piece

A list of tokens falls into *pieces*: a delimiter starts a piece that goes up to the next closing
brace, and literal text is a piece of its own. Reading goes through the list from the left and may
stop anywhere inside a piece, before the closing brace or on it, but what it does next is always the
same: it goes on behind that brace. So every piece is read as if it were alone, and gives one item
or one error (`Parse.ofTokens_eq`).

For that the tokens have to come from a template. The reader has an error for tokens that stand
outside every expression without being text or a delimiter, but no template has such tokens.
-/

namespace Interpolation

open Interpolation.Parser (recover enclosed)

/-! ## Pieces -/

/-- The tokens up to the next closing brace, that one included. -/
def upToClosing (ts : List Token) : List Token :=
  ts.takeWhile (·.kind ≠ .closing) ++ (ts.dropWhile (·.kind ≠ .closing)).take 1

/-- The pieces of a list of tokens. A delimiter takes all tokens up to the next closing brace with
it; any other token is a piece by itself. -/
def pieces : List Token → List (List Token)
  | [] => []
  | t :: ts =>
    match t.kind with
    | .opening _ => (t :: upToClosing ts) :: pieces (recover ts)
    | _ => [t] :: pieces ts
termination_by ts => ts.length
decreasing_by
  · exact Nat.lt_succ_of_le (Parser.length_recover_le ts)
  · exact Nat.lt_succ_self _

theorem upToClosing_append_recover (ts : List Token) : upToClosing ts ++ recover ts = ts := by
  rw [upToClosing, recover, List.append_assoc, ← List.drop_one, List.take_append_drop,
    List.takeWhile_append_dropWhile]

theorem flatten_pieces (ts : List Token) : (pieces ts).flatten = ts := by
  fun_induction pieces ts with
  | case1 => rfl
  | case2 t ts d hd ih =>
    rw [List.flatten_cons, ih, List.cons_append, upToClosing_append_recover]
  | case3 t ts hd ih => rw [List.flatten_cons, ih, List.singleton_append]

section

variable {t c : Token} {d : Delimiter} {body rest : List Token}

theorem upToClosing_append (hbody : ∀ u ∈ body, u.kind.isInner) (rest : List Token) :
    upToClosing (body ++ rest) = body ++ upToClosing rest := by
  have hpos : ∀ u ∈ body, decide (u.kind ≠ .closing) = true := fun u hu ↦
    decide_eq_true (Token.Kind.ne_closing_of_isInner (hbody u hu))
  rw [upToClosing, List.takeWhile_append_of_pos hpos, List.dropWhile_append_of_pos hpos,
    List.append_assoc, upToClosing]

theorem recover_append (hbody : ∀ u ∈ body, u.kind.isInner) (rest : List Token) :
    recover (body ++ rest) = recover rest := by
  have hpos : ∀ u ∈ body, decide (u.kind ≠ .closing) = true := fun u hu ↦
    decide_eq_true (Token.Kind.ne_closing_of_isInner (hbody u hu))
  rw [recover, List.dropWhile_append_of_pos hpos, recover]

theorem recover_of_inner (hbody : ∀ u ∈ body, u.kind.isInner) : recover body = [] := by
  rw [← List.append_nil body, recover_append hbody]
  rfl

theorem upToClosing_closing (hc : c.kind = .closing) : upToClosing (c :: rest) = [c] := by
  rw [upToClosing, List.takeWhile_cons_of_neg (by simpa using hc),
    List.dropWhile_cons_of_neg (by simpa using hc)]
  rfl

theorem recover_closing (hc : c.kind = .closing) : recover (c :: rest) = rest := by
  rw [recover, List.dropWhile_cons_of_neg (by simpa using hc), List.tail_cons]

theorem pieces_literal (ht : t.kind = .literal) : pieces (t :: rest) = [t] :: pieces rest := by
  rw [pieces, ht]

theorem pieces_closed (ht : t.kind = .opening d) (hbody : ∀ u ∈ body, u.kind.isInner)
    (hc : c.kind = .closing) :
    pieces (t :: (body ++ c :: rest)) = (t :: (body ++ [c])) :: pieces rest := by
  rw [pieces, ht]
  dsimp only
  rw [upToClosing_append hbody, upToClosing_closing hc, recover_append hbody, recover_closing hc]

theorem pieces_unclosed (ht : t.kind = .opening d) (hbody : ∀ u ∈ body, u.kind.isInner) :
    pieces (t :: body) = [t :: body] := by
  have hup : upToClosing body = body := by
    simpa [upToClosing] using upToClosing_append hbody []
  rw [pieces, ht]
  dsimp only
  rw [hup, recover_of_inner hbody, pieces]

end

/-- Induction along the pieces of the tokens of a template: literal text, an expression with its
closing brace, and an expression that the template ends in. -/
theorem Passes.pieces_induction {motive : List Token → Mode → Prop} (hnil : motive [] .outer)
    (hliteral : ∀ t ts m, t.kind = .literal → motive ts m → motive (t :: ts) m)
    (hclosed : ∀ t d body c ts m, t.kind = .opening d → (∀ u ∈ body, u.kind.isInner) →
      c.kind = .closing → motive ts m → motive (t :: (body ++ c :: ts)) m)
    (hunclosed : ∀ t d body, t.kind = .opening d → (∀ u ∈ body, u.kind.isInner) →
      motive (t :: body) (.inside d))
    {ts : List Token} {m : Mode} (h : Passes .outer ts m) : motive ts m := by
  induction hn : ts.length using Nat.strongRecOn generalizing ts m with
  | ind n ih =>
    subst hn
    cases h with
    | nil => exact hnil
    | @cons _ m₁ _ t ts hmode hafter hts =>
      rcases Mode.after_outer_eq_some hafter with ⟨ht, rfl⟩ | ⟨d, ht, rfl⟩
      · exact hliteral t ts m ht (ih _ (Nat.lt_succ_self _) hts rfl)
      · rcases hts.inside with ⟨rfl, hbody⟩ | ⟨body, c, rest, rfl, hbody, hc, hrest⟩
        · exact hunclosed t d ts ht hbody
        · have hlt : rest.length < (t :: (body ++ c :: rest)).length := by
            simp only [List.length_cons, List.length_append]
            omega
          exact hclosed t d body c rest m ht hbody hc (ih _ hlt hrest rfl)

/-! ## One piece -/

/-- The tokens behind an expression, whether it can be read or not: reading takes tokens from its
inside, and then either the closing brace, or it stops at an error. -/
theorem Parser.enclosed_cases (limit : Nat) (ts : List Token) :
    ∃ front rest, ts = front ++ rest ∧ (∀ t ∈ front, t.kind.isInner) ∧
      ((∃ e c us, rest = c :: us ∧ c.kind = .closing ∧ enclosed limit ts = ⟨.ok e, us⟩) ∨
        ∃ e : ParseError, e.At limit rest ∧ enclosed limit ts = ⟨.error e, rest⟩) := by
  have hsound := sound_expression limit limit ts
  obtain ⟨front, hts, hfront⟩ := hsound.taken
  refine ⟨front, _, hts, hfront, ?_⟩
  rw [enclosed, Reading.bind]
  split
  · rename_i e he
    cases hrest : (expression limit limit ts).rest with
    | nil => exact .inr ⟨_, .inl ⟨.token .closing, by simp, rfl⟩, rfl⟩
    | cons c us =>
      rw [Reading.expect]
      split
      · exact .inl ⟨e, c, us, rfl, ‹_›, rfl⟩
      · exact .inr ⟨_, .inl ⟨.token .closing, by simp, rfl⟩, rfl⟩
  · rename_i e he
    exact .inr ⟨e, hsound.error_at e he, rfl⟩

/-- Whether an expression can be read or not, reading goes on behind the next closing brace. -/
theorem Parser.enclosed_recover (limit : Nat) (ts : List Token) :
    (∃ e, enclosed limit ts = ⟨.ok e, recover ts⟩) ∨
      ∃ e rest, enclosed limit ts = ⟨.error e, rest⟩ ∧ recover rest = recover ts := by
  obtain ⟨front, rest, hts, hfront, ⟨e, c, us, rfl, hc, heq⟩ | ⟨e, -, heq⟩⟩ :=
    enclosed_cases limit ts
  · have hrecover : recover ts = us := by rw [hts, recover_append hfront, recover_closing hc]
    exact .inl ⟨e, by rw [heq, hrecover]⟩
  · exact .inr ⟨e, rest, heq, by rw [hts, recover_append hfront]⟩

theorem Parser.enclosed_result_eq {ts us : List Token} (h : Agree ts us) (limit : Nat) :
    (enclosed limit ts).result = (enclosed limit us).result := by
  have hsame := respects_expression limit limit h
  rw [enclosed, enclosed, Reading.bind, Reading.bind, hsame.result_eq]
  split
  · -- whether the next token closes the expression is seen from that token alone
    have hrest := hsame.rest_agree
    generalize (expression limit limit ts).rest = vs at hrest
    generalize (expression limit limit us).rest = ws at hrest
    cases vs with
    | nil =>
      cases hrest
      rfl
    | cons t vs =>
      obtain ⟨u, ws, rfl, halike⟩ := hrest.head_alike
      rw [Reading.expect, Reading.expect, ← halike.kind_eq]
      split
      · rfl
      · exact congrArg Except.error (hrest.mismatch_eq _)
  · rfl

namespace Parse

/-- What two lists of tokens give, one after the other. -/
instance : Append Parse := ⟨fun p q ↦ ⟨p.items ++ q.items, p.errors ++ q.errors⟩⟩

@[simp] theorem items_append (p q : Parse) : (p ++ q).items = p.items ++ q.items := rfl

@[simp] theorem errors_append (p q : Parse) : (p ++ q).errors = p.errors ++ q.errors := rfl

/-- What an expression between delimiters gives: one item or one error. -/
def ofEmbedded (d : Delimiter) : Except ParseError Expr → Parse
  | .ok e => ⟨[.embedded d e], []⟩
  | .error e => ⟨[], [e]⟩

variable {limit : Nat} {t c : Token} {d : Delimiter} {ts body rest : List Token}

theorem ofTokens_nil (limit : Nat) : ofTokens limit [] = empty := by
  rw [ofTokens, readFrom]
  rfl

@[simp] theorem append_empty (p : Parse) : p ++ empty = p := by
  obtain ⟨items, errors⟩ := p
  simp only [HAppend.hAppend, Append.append, empty]
  simp

theorem ofTokens_literal (ht : t.kind = .literal) (ts : List Token) :
    ofTokens limit (t :: ts) = ⟨[.literal t.text], []⟩ ++ ofTokens limit ts := by
  have hitem : Parser.item limit (t :: ts) = ⟨.ok (.literal t.text), ts⟩ := by
    rw [Parser.item, ht]
    rfl
  rw [ofTokens_of_item hitem]
  rfl

/-- Behind a delimiter reading goes on at the next closing brace, whatever happens before. -/
theorem ofTokens_opening (ht : t.kind = .opening d) (ts : List Token) :
    ofTokens limit (t :: ts) =
      ofEmbedded d (enclosed limit ts).result ++ ofTokens limit (recover ts) := by
  have hitem : Parser.item limit (t :: ts) = (enclosed limit ts).map (.embedded d) := by
    rw [Parser.item, ht]
  obtain ⟨e, heq⟩ | ⟨e, rest, heq, hrecover⟩ := Parser.enclosed_recover limit ts
  · rw [heq] at hitem ⊢
    rw [ofTokens_of_item hitem]
    rfl
  · rw [heq] at hitem ⊢
    rw [ofTokens_of_error hitem, hrecover]
    rfl

theorem ofTokens_closed (ht : t.kind = .opening d) (hbody : ∀ u ∈ body, u.kind.isInner)
    (hc : c.kind = .closing) (rest : List Token) :
    ofTokens limit (t :: (body ++ c :: rest)) =
      ofTokens limit (t :: (body ++ [c])) ++ ofTokens limit rest := by
  have hagree : Agree (body ++ c :: rest) (body ++ [c]) := by
    have hstop : Agree (c :: rest) [c] := .stop hc (.refl c)
    simpa using Agree.append_map hbody (fun u _ ↦ .refl u) hstop
  rw [ofTokens_opening ht, ofTokens_opening ht, recover_append hbody, recover_append hbody,
    recover_closing hc, recover_closing hc, ofTokens_nil, append_empty,
    Parser.enclosed_result_eq hagree]

theorem ofTokens_unclosed (limit : Nat) (ht : t.kind = .opening d)
    (hbody : ∀ u ∈ body, u.kind.isInner) :
    ∃ e, ofTokens limit (t :: body) = ⟨[], [e]⟩ := by
  rw [ofTokens_opening ht, recover_of_inner hbody, ofTokens_nil, append_empty]
  obtain ⟨front, rest, rfl, -, ⟨e, c, us, rfl, hc, -⟩ | ⟨e, -, heq⟩⟩ :=
    Parser.enclosed_cases limit body
  · have hinner := hbody c (List.mem_append_right front List.mem_cons_self)
    exact absurd hc (Token.Kind.ne_closing_of_isInner hinner)
  · exact ⟨e, by rw [heq]; rfl⟩

/-! ## All pieces -/

/-- **Every piece is read as if it were alone.** -/
theorem ofTokens_eq {ts : List Token} {m : Mode} (h : Passes .outer ts m) :
    ofTokens limit ts = ⟨(pieces ts).flatMap fun p ↦ (ofTokens limit p).items,
      (pieces ts).flatMap fun p ↦ (ofTokens limit p).errors⟩ := by
  refine h.pieces_induction (motive := fun ts _ ↦ ofTokens limit ts =
    ⟨(pieces ts).flatMap fun p ↦ (ofTokens limit p).items,
      (pieces ts).flatMap fun p ↦ (ofTokens limit p).errors⟩) ?_ ?_ ?_ ?_
  · rw [ofTokens_nil, pieces]
    rfl
  · intro t ts m ht ih
    rw [ofTokens_literal ht, pieces_literal ht, ih, List.flatMap_cons, List.flatMap_cons,
      ofTokens_literal ht, ofTokens_nil, append_empty]
    rfl
  · intro t d body c ts m ht hbody hc ih
    rw [ofTokens_closed ht hbody hc, pieces_closed ht hbody hc, ih]
    rfl
  · intro t d body ht hbody
    rw [pieces_unclosed ht hbody, List.flatMap_singleton, List.flatMap_singleton]

theorem outcome_of_mem_pieces (limit : Nat) {p : List Token} {m : Mode} (h : Passes .outer ts m)
    (hp : p ∈ pieces ts) :
    (∃ t, p = [t] ∧ t.kind = .literal ∧ ofTokens limit p = ⟨[.literal t.text], []⟩) ∨
      ∃ t d body, p = t :: body ∧ t.kind = .opening d ∧
        (∀ u ∈ body, u.kind.isInner ∨ u.kind = .closing) ∧
          ofTokens limit p = ofEmbedded d (enclosed limit body).result := by
  revert hp
  refine h.pieces_induction (motive := fun ts _ ↦ p ∈ pieces ts → _) ?_ ?_ ?_ ?_
  · intro hp
    rw [pieces] at hp
    cases hp
  · intro t ts m ht ih hp
    rw [pieces_literal ht] at hp
    rcases List.mem_cons.mp hp with rfl | hp
    · refine .inl ⟨t, rfl, ht, ?_⟩
      rw [ofTokens_literal ht, ofTokens_nil, append_empty]
    · exact ih hp
  · intro t d body c ts m ht hbody hc ih hp
    rw [pieces_closed ht hbody hc] at hp
    rcases List.mem_cons.mp hp with rfl | hp
    · refine .inr ⟨t, d, body ++ [c], rfl, ht, ?_, ?_⟩
      · exact List.forall_mem_append.mpr
          ⟨fun u hu ↦ .inl (hbody u hu), List.forall_mem_singleton.mpr (.inr hc)⟩
      · rw [ofTokens_opening ht, recover_append hbody, recover_closing hc, ofTokens_nil,
          append_empty]
    · exact ih hp
  · intro t d body ht hbody hp
    rw [pieces_unclosed ht hbody] at hp
    obtain rfl := List.mem_singleton.mp hp
    refine .inr ⟨t, d, body, rfl, ht, fun u hu ↦ .inl (hbody u hu), ?_⟩
    rw [ofTokens_opening ht, recover_of_inner hbody, ofTokens_nil, append_empty]

end Parse

/-! ## Errors -/

/-- What the error asks for. -/
def ParseError.expected? : ParseError → Option Expectation
  | .unexpected x _ _ _ => some x
  | .unexpectedEnd x => some x
  | .tooDeep _ _ => none

/-- The kind of the token that does not fit. -/
def ParseError.found? : ParseError → Option Token.Kind
  | .unexpected _ k _ _ => some k
  | .unexpectedEnd _ => none
  | .tooDeep _ _ => none

theorem ParseError.At.expected?_ne {limit : Nat} {ts : List Token} {e : ParseError}
    (h : e.At limit ts) : e.expected? ≠ some .item := by
  rcases h with ⟨x, hx, rfl⟩ | rfl
  · cases ts <;> simpa [Reading.mismatch, expected?] using hx
  · simp [expected?]

theorem ParseError.At.exists_mem {limit : Nat} {ts : List Token} {e : ParseError}
    (h : e.At limit ts) {k : Token.Kind} (hk : e.found? = some k) : ∃ t ∈ ts, t.kind = k := by
  rcases h with ⟨x, hx, rfl⟩ | rfl
  · cases ts with
    | nil => cases hk
    | cons t ts => exact ⟨t, List.mem_cons_self, Option.some.inj hk⟩
  · cases hk

namespace Parse

variable {limit : Nat} {ts : List Token}

theorem error_of_mem {m : Mode} (h : Passes .outer ts m) {e : ParseError}
    (he : e ∈ (ofTokens limit ts).errors) :
    e.expected? ≠ some .item ∧ ∀ k ∈ e.found?, k.isInner ∨ k = .closing := by
  rw [ofTokens_eq h] at he
  obtain ⟨p, hp, he⟩ := List.mem_flatMap.mp he
  rcases outcome_of_mem_pieces limit h hp with
    ⟨t, -, -, houtcome⟩ | ⟨t, d, body, -, -, hbody, houtcome⟩
  · rw [houtcome] at he
    cases he
  · rw [houtcome] at he
    obtain ⟨front, rest, rfl, -, ⟨e', c, us, -, -, heq⟩ | ⟨e', hat, heq⟩⟩ :=
      Parser.enclosed_cases limit body
    · rw [heq] at he
      cases he
    · rw [heq] at he
      obtain rfl := List.mem_singleton.mp he
      refine ⟨hat.expected?_ne, fun k hk ↦ ?_⟩
      obtain ⟨u, hu, rfl⟩ := hat.exists_mem hk
      exact hbody u (List.mem_append_right front hu)

/-- The error of a list of tokens that is read by itself. -/
def failure? (limit : Nat) (ts : List Token) : Option ParseError :=
  match parse limit ts with
  | .ok _ => none
  | .error e => some e

theorem literal_or_embedded_of_mem_pieces (limit : Nat) {m : Mode} (h : Passes .outer ts m)
    {p : List Token} (hp : p ∈ pieces ts) :
    (∃ t, p = [t] ∧ t.kind = .literal ∧ ofTokens limit p = ⟨[.literal t.text], []⟩) ∨
      ∃ t d body, p = t :: body ∧ t.kind = .opening d ∧
        ((∃ e, ofTokens limit p = ⟨[.embedded d e], []⟩) ∨ ∃ e, ofTokens limit p = ⟨[], [e]⟩) := by
  rcases outcome_of_mem_pieces limit h hp with hliteral | ⟨t, d, body, hp, ht, -, houtcome⟩
  · exact .inl hliteral
  · refine .inr ⟨t, d, body, hp, ht, ?_⟩
    rw [houtcome]
    cases (enclosed limit body).result with
    | ok e => exact .inl ⟨e, rfl⟩
    | error e => exact .inr ⟨e, rfl⟩

theorem item_or_error_of_mem_pieces (limit : Nat) {m : Mode} (h : Passes .outer ts m)
    {p : List Token} (hp : p ∈ pieces ts) :
    (∃ i, ofTokens limit p = ⟨[i], []⟩) ∨ ∃ e, ofTokens limit p = ⟨[], [e]⟩ := by
  rcases literal_or_embedded_of_mem_pieces limit h hp with
    ⟨t, -, -, hitem⟩ | ⟨t, d, body, -, -, ⟨e, hitem⟩ | herror⟩
  · exact .inl ⟨_, hitem⟩
  · exact .inl ⟨_, hitem⟩
  · exact .inr herror

theorem parse_of_item {p : List Token} {i : Item} (h : ofTokens limit p = ⟨[i], []⟩) :
    parse limit p = .ok [i] := by
  rw [parse, h]
  rfl

theorem parse_of_error {p : List Token} {e : ParseError} (h : ofTokens limit p = ⟨[], [e]⟩) :
    parse limit p = .error e := by
  rw [parse, h]
  rfl

theorem flatMap_errors_eq {ps : List (List Token)}
    (h : ∀ p ∈ ps, (∃ i, ofTokens limit p = ⟨[i], []⟩) ∨ ∃ e, ofTokens limit p = ⟨[], [e]⟩) :
    (ps.flatMap fun p ↦ (ofTokens limit p).errors) = ps.filterMap (failure? limit) := by
  induction ps with
  | nil => rfl
  | cons p ps ih =>
    obtain ⟨hp, hps⟩ := List.forall_mem_cons.mp h
    rw [List.flatMap_cons, ih hps]
    rcases hp with ⟨i, hi⟩ | ⟨e, he⟩
    · have hnone : failure? limit p = none := by rw [failure?, parse_of_item hi]
      rw [List.filterMap_cons_none hnone, hi, List.nil_append]
    · have hsome : failure? limit p = some e := by rw [failure?, parse_of_error he]
      rw [List.filterMap_cons_some hsome, he, List.singleton_append]

theorem map_parse_eq {ps : List (List Token)}
    (h : ∀ p ∈ ps, (∃ i, ofTokens limit p = ⟨[i], []⟩) ∨ ∃ e, ofTokens limit p = ⟨[], [e]⟩)
    (hok : ps.filterMap (failure? limit) = []) :
    ps.map (parse limit) =
      (ps.flatMap fun p ↦ (ofTokens limit p).items).map fun i ↦ .ok [i] := by
  induction ps with
  | nil => rfl
  | cons p ps ih =>
    obtain ⟨hp, hps⟩ := List.forall_mem_cons.mp h
    rcases hp with ⟨i, hi⟩ | ⟨e, he⟩
    · have hnone : failure? limit p = none := by rw [failure?, parse_of_item hi]
      rw [List.filterMap_cons_none hnone] at hok
      rw [List.map_cons, ih hps hok, List.flatMap_cons, parse_of_item hi, hi]
      rfl
    · have hsome : failure? limit p = some e := by rw [failure?, parse_of_error he]
      rw [List.filterMap_cons_some hsome] at hok
      cases hok

theorem parse_eq_error_of_head? {e : ParseError} (h : (ofTokens limit ts).errors.head? = some e) :
    parse limit ts = .error e := by
  obtain ⟨es, hes⟩ := List.head?_eq_some_iff.mp h
  rw [parse, result, hes]

theorem failure?_of_unclosed (limit : Nat) {t : Token} {d : Delimiter} {body : List Token}
    {m : Mode} (h : Passes .outer ts m) (hp : t :: body ∈ pieces ts) (ht : t.kind = .opening d)
    (hbody : ∀ u ∈ body, u.kind ≠ .closing) : ∃ e, failure? limit (t :: body) = some e := by
  rcases outcome_of_mem_pieces limit h hp with
    ⟨t', hp', ht', -⟩ | ⟨t', d', body', hp', -, hinner, -⟩
  · cases hp'
    rw [ht] at ht'
    cases ht'
  · cases hp'
    have hall : ∀ u ∈ body, u.kind.isInner := fun u hu ↦ (hinner u hu).resolve_right (hbody u hu)
    obtain ⟨e, he⟩ := ofTokens_unclosed limit ht hall
    exact ⟨e, by rw [failure?, parse_of_error he]⟩

/-- What reading the tokens comes to when every piece of them is read by itself. -/
structure ReadByPieces (limit : Nat) (ts : List Token) : Prop where
  /-- The pieces are all there is. -/
  cut : (pieces ts).flatten = ts
  /-- A piece is literal text, which is read as it is, or an expression behind a delimiter, which
  gives one item or one error. -/
  piece : ∀ p ∈ pieces ts,
    (∃ t, p = [t] ∧ t.kind = .literal ∧ ofTokens limit p = ⟨[.literal t.text], []⟩) ∨
      ∃ t d body, p = t :: body ∧ t.kind = .opening d ∧
        ((∃ e, ofTokens limit p = ⟨[.embedded d e], []⟩) ∨ ∃ e, ofTokens limit p = ⟨[], [e]⟩)
  /-- The errors are those of the pieces that fail, in the same order. -/
  errors_eq : (ofTokens limit ts).errors = (pieces ts).filterMap (failure? limit)
  /-- The first of them is the one that is reported. -/
  first_error : ∀ e ∈ (ofTokens limit ts).errors.head?, parse limit ts = .error e
  /-- If there is none, there is one item for each piece, in the same order. -/
  items : (ofTokens limit ts).errors = [] → ∃ x, parse limit ts = .ok x ∧
    (pieces ts).map (parse limit) = x.map fun i ↦ .ok [i]
  /-- No error asks for an item. -/
  expected_ne : ∀ e ∈ (ofTokens limit ts).errors, e.expected? ≠ some .item
  /-- No error is about literal text or a delimiter. -/
  found_ne : ∀ e ∈ (ofTokens limit ts).errors,
    e.found? ≠ some .literal ∧ ∀ d, e.found? ≠ some (.opening d)
  /-- An expression without its closing brace makes reading fail. -/
  unclosed : ∀ t d body, t :: body ∈ pieces ts → t.kind = .opening d →
    (∀ u ∈ body, u.kind ≠ .closing) → ∃ e, parse limit ts = .error e

end Parse

open Parse

/-- **Errors stay in step with the items.** Whatever is wrong with the items of a template, each of
them is read as if it were alone: the errors are those of the items that fail, no error swallows the
item behind it, and none is reported twice. -/
theorem readByPieces_of_tokenize {input : Text} {ts : List Token} (limit : Nat)
    (h : tokenize input = .ok ts) : ReadByPieces limit ts := by
  obtain ⟨m, hpasses⟩ := Scanner.passes_of_tokenize h
  have hone := fun p hp ↦ item_or_error_of_mem_pieces limit (p := p) hpasses hp
  have herrors : (ofTokens limit ts).errors = (pieces ts).filterMap (failure? limit) := by
    rw [ofTokens_eq hpasses, flatMap_errors_eq hone]
  refine ⟨flatten_pieces ts, fun p hp ↦ literal_or_embedded_of_mem_pieces limit hpasses hp,
    herrors, fun e he ↦ parse_eq_error_of_head? he, ?_, fun e he ↦ (error_of_mem hpasses he).1,
    fun e he ↦ ?_, ?_⟩
  · intro hnil
    refine ⟨_, ?_, map_parse_eq hone (herrors ▸ hnil)⟩
    rw [parse, result, hnil, ofTokens_eq hpasses]
  · have hfound := (error_of_mem hpasses he).2
    refine ⟨fun hk ↦ ?_, fun d hk ↦ ?_⟩
    · rcases hfound _ hk with hinner | hclosing
      · cases hinner
      · cases hclosing
    · rcases hfound _ hk with hinner | hclosing
      · cases hinner
      · cases hclosing
  · intro t d body hp ht hbody
    obtain ⟨e, he⟩ := failure?_of_unclosed limit hpasses hp ht hbody
    have hmem : e ∈ (ofTokens limit ts).errors := by
      rw [herrors]
      exact List.mem_filterMap.mpr ⟨_, hp, he⟩
    obtain ⟨e', es, hes⟩ := List.exists_cons_of_ne_nil (List.ne_nil_of_mem hmem)
    exact ⟨e', parse_eq_error_of_head? (by rw [hes, List.head?_cons])⟩

/-- Two expressions that fail, one before its closing brace and one on it, between items that can be
read, and an expression that is not closed: `a#{b c}${d.}#{e}f${g`. -/
theorem readByPieces_mixed :
    let ts : List Token :=
      [(.literal, "a", .outer, 0), (.opening .deferred, "#\x7b", .outer, 1),
        (.identifier, "b", .inside .deferred, 3), (.identifier, "c", .inside .deferred, 5),
        (.closing, "\x7d", .inside .deferred, 6), (.opening .dynamic, "$\x7b", .outer, 7),
        (.identifier, "d", .inside .dynamic, 9), (.dot, ".", .inside .dynamic, 10),
        (.closing, "\x7d", .inside .dynamic, 11), (.opening .deferred, "#\x7b", .outer, 12),
        (.identifier, "e", .inside .deferred, 14), (.closing, "\x7d", .inside .deferred, 15),
        (.literal, "f", .outer, 16), (.opening .dynamic, "$\x7b", .outer, 17),
        (.identifier, "g", .inside .dynamic, 19)].map fun (k, s, m, n) ↦ ⟨k, s.toList, m, n⟩
    tokenize "a#\x7bb c\x7d$\x7bd.\x7d#\x7be\x7df$\x7bg".toList = .ok ts ∧ ReadByPieces 3 ts ∧
      (ofTokens 3 ts).errors = [.unexpected (.token .closing) .identifier ['c'] 5,
        .unexpected .property .closing ['}'] 11, .unexpectedEnd (.token .closing)] ∧
      (ofTokens 3 ts).items = [.literal ['a'], .embedded .deferred (.path ⟨.name ['e'], []⟩),
        .literal ['f']] := by
  intro ts
  have htokens : tokenize "a#\x7bb c\x7d$\x7bd.\x7d#\x7be\x7df$\x7bg".toList = .ok ts :=
    Scanner.tokenize_of_returned _ 17 (by decide) (by decide)
  have hruns : State.Runs 3 6 ⟨[], [], ts⟩ ⟨[.literal ['f'],
      .embedded .deferred (.path ⟨.name ['e'], []⟩), .literal ['a']],
      [.unexpectedEnd (.token .closing), .unexpected .property .closing ['}'] 11,
        .unexpected (.token .closing) .identifier ['c'] 5], []⟩ :=
    .next (by decide) (.next (by decide) (.next (by decide) (.next (by decide)
      (.next (by decide) (.next (by decide) (.stop rfl))))))
  rw [ofTokens_of_runs hruns]
  exact ⟨htokens, readByPieces_of_tokenize 3 htokens, rfl, rfl⟩

end Interpolation
