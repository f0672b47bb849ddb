import Interpolation.Proofs.Template.Exact
import Interpolation.Proofs.Token.Modes

/-!
# What a reader looks at

Two facts about the readers of expressions, whether they succeed or fail.

A reader takes nothing but tokens that stand inside an expression, and an error is about the first
token that it has left (`Reading.Sound`). So a reader never takes a closing brace, and wherever it
stops, the next closing brace is still the same.

A reader also does not look behind the next closing brace, and not at the modes of tokens: on lists
that *agree* up to that brace it comes to the same result (`Reading.Respects`).

Both are preserved by `Reading.map` and `Reading.bind`, so each reader is dealt with once.
-/

namespace Interpolation

open Reading

/-! ## Where an error is -/

/-- The error is about the first of the tokens, or about their end. -/
def ParseError.At (limit : Nat) (ts : List Token) (e : ParseError) : Prop :=
  (∃ x, x ≠ .item ∧ e = mismatch x ts) ∨ e = .tooDeep limit (Parser.offsetOf ts)

/-- What was taken from the tokens `ts` stands inside an expression, and an error is about the
tokens that are left. -/
structure Reading.Sound {α : Type} (limit : Nat) (ts : List Token) (r : Reading α) : Prop where
  /-- Nothing but tokens inside an expression is taken. -/
  taken : ∃ front, ts = front ++ r.rest ∧ ∀ t ∈ front, t.kind.isInner
  /-- An error is where reading stopped. -/
  error_at : ∀ e, r.result = .error e → e.At limit r.rest

namespace Reading

variable {α β : Type} {limit : Nat} {ts : List Token}

theorem sound_done (value : α) (ts : List Token) : (done value ts).Sound limit ts :=
  ⟨⟨[], rfl, List.forall_mem_nil _⟩, fun e he ↦ by cases he⟩

theorem sound_fail {x : Expectation} (hx : x ≠ .item) (ts : List Token) :
    (fail x ts : Reading α).Sound limit ts := by
  refine ⟨⟨[], rfl, List.forall_mem_nil _⟩, fun e he ↦ ?_⟩
  cases he
  exact .inl ⟨x, hx, rfl⟩

theorem Sound.cons {t : Token} {r : Reading α} (h : r.Sound limit ts) (ht : t.kind.isInner) :
    r.Sound limit (t :: ts) := by
  obtain ⟨⟨front, hts, hfront⟩, herror⟩ := h
  refine ⟨⟨t :: front, ?_, List.forall_mem_cons.mpr ⟨ht, hfront⟩⟩, herror⟩
  rw [List.cons_append, ← hts]

theorem Sound.map {r : Reading α} (h : r.Sound limit ts) (f : α → β) :
    (r.map f).Sound limit ts := by
  refine ⟨h.taken, fun e he ↦ h.error_at e ?_⟩
  cases hr : r.result with
  | ok value =>
    rw [Reading.map, hr] at he
    cases he
  | error e' =>
    rw [Reading.map, hr] at he
    cases he
    rfl

theorem Sound.bind {r : Reading α} (h : r.Sound limit ts) {f : α → List Token → Reading β}
    (hf : ∀ value, (f value r.rest).Sound limit r.rest) : (r.bind f).Sound limit ts := by
  rw [Reading.bind]
  split
  · rename_i value _
    obtain ⟨front, hts, hfront⟩ := h.taken
    obtain ⟨front', hrest, hfront'⟩ := (hf value).taken
    refine ⟨⟨front ++ front', ?_, List.forall_mem_append.mpr ⟨hfront, hfront'⟩⟩,
      (hf value).error_at⟩
    rw [List.append_assoc, ← hrest, ← hts]
  · rename_i e he
    refine ⟨h.taken, fun e' he' ↦ ?_⟩
    cases he'
    exact h.error_at e he

theorem sound_expect {kind : Token.Kind} (hkind : kind.isInner) (ts : List Token) :
    (expect kind ts).Sound limit ts := by
  cases ts with
  | nil => exact sound_fail (by simp) []
  | cons t ts =>
    rw [expect]
    split
    · rename_i ht
      exact (sound_done () ts).cons (ht ▸ hkind)
    · exact sound_fail (by simp) _

end Reading

namespace Parser

variable {limit : Nat}

theorem isInner_of_atom? {t : Token} {a : Atom} (h : t.atom? = some a) : t.kind.isInner := by
  rw [Token.atom?] at h
  split at h <;> first | cases h; done | simp [*, Token.Kind.isInner]

theorem sound_properties (names : List Text) (ts : List Token) :
    (properties names ts).Sound limit ts := by
  fun_induction properties names ts with
  | case1 names => exact sound_done _ _
  | case2 names t ht =>
    refine Sound.cons (sound_fail (by simp) _) ?_
    rw [ht]
    rfl
  | case3 names t ht => exact sound_done _ _
  | case4 names t u ts ht hu ih =>
    refine (ih.cons ?_).cons ?_
    · rw [hu]
      rfl
    · rw [ht]
      rfl
  | case5 names t u ts ht hu =>
    refine Sound.cons (sound_fail (by simp) _) ?_
    rw [ht]
    rfl
  | case6 names t u ts ht => exact sound_done _ _

theorem sound_path (ts : List Token) : (path ts).Sound limit ts := by
  cases ts with
  | nil => exact sound_fail (by simp) []
  | cons t ts =>
    rw [path]
    split
    · rename_i ha
      exact ((sound_properties [] ts).map _).cons (isInner_of_atom? ha)
    · exact sound_fail (by simp) _

section

variable {inner : List Token → Reading Expr} (hinner : ∀ ts, (inner ts).Sound limit ts)
include hinner

theorem sound_primary (ts : List Token) : (primary inner ts).Sound limit ts := by
  cases ts with
  | nil => exact (sound_path []).map _
  | cons t ts =>
    rw [primary]
    split
    · rename_i hop
      refine ((hinner ts).map _).cons ?_
      rw [hop]
      rfl
    · exact (sound_path (t :: ts)).map _

theorem sound_binarySuffix (lhs : Expr) (ts : List Token) :
    (binarySuffix inner lhs ts).Sound limit ts := by
  cases ts with
  | nil => exact sound_done _ _
  | cons t ts =>
    rw [binarySuffix]
    split
    · rename_i hop
      refine ((hinner ts).map _).cons ?_
      rw [hop]
      rfl
    · exact sound_done _ _

theorem sound_ternarySuffix (condition : Expr) (ts : List Token) :
    (ternarySuffix inner condition ts).Sound limit ts := by
  cases ts with
  | nil => exact sound_done _ _
  | cons t ts =>
    rw [ternarySuffix]
    split
    · rename_i ht
      refine Sound.cons ((hinner ts).bind fun consequent ↦ ?_) ?_
      · exact (sound_expect rfl _).bind fun _ ↦ (hinner _).map _
      · rw [ht]
        rfl
    · exact sound_done _ _

end

theorem sound_expression (limit levels : Nat) (ts : List Token) :
    (expression limit levels ts).Sound limit ts := by
  induction levels generalizing ts with
  | zero =>
    refine ⟨⟨[], rfl, List.forall_mem_nil _⟩, fun e he ↦ ?_⟩
    cases he
    exact .inr rfl
  | succ levels ih =>
    rw [expression, expressionBy]
    refine (sound_primary ih ts).bind fun head ↦ ?_
    exact (sound_binarySuffix ih head _).bind fun body ↦ sound_ternarySuffix ih body _

end Parser

/-! ## Lists that agree up to the next closing brace -/

/-- The tokens are the same but for the mode that they were found in. -/
structure Token.Alike (t u : Token) : Prop where
  kind_eq : t.kind = u.kind
  text_eq : t.text = u.text
  offset_eq : t.offset = u.offset

theorem Token.Alike.refl (t : Token) : t.Alike t := ⟨rfl, rfl, rfl⟩

theorem Token.Alike.atom?_eq {t u : Token} (h : t.Alike u) : t.atom? = u.atom? := by
  rw [Token.atom?, Token.atom?, h.kind_eq, h.text_eq]

/-- The lists are alike up to their first closing brace, that one included. -/
inductive Agree : List Token → List Token → Prop where
  | nil : Agree [] []
  | stop {t u : Token} {ts us : List Token} (hclosing : t.kind = .closing) (h : t.Alike u) :
    Agree (t :: ts) (u :: us)
  | cons {t u : Token} {ts us : List Token} (hclosing : t.kind ≠ .closing) (h : t.Alike u)
    (hrest : Agree ts us) : Agree (t :: ts) (u :: us)

namespace Agree

variable {ts us : List Token}

theorem head_alike {t : Token} (h : Agree (t :: ts) us) : ∃ u vs, us = u :: vs ∧ t.Alike u := by
  cases h with
  | stop _ halike => exact ⟨_, _, rfl, halike⟩
  | cons _ halike _ => exact ⟨_, _, rfl, halike⟩

theorem tail {t u : Token} (h : Agree (t :: ts) (u :: us)) (ht : t.kind ≠ .closing) :
    Agree ts us := by
  cases h with
  | stop hclosing _ => exact absurd hclosing ht
  | cons _ _ hrest => exact hrest

theorem mismatch_eq (h : Agree ts us) (x : Expectation) : mismatch x ts = mismatch x us := by
  cases ts with
  | nil =>
    cases h
    rfl
  | cons t ts =>
    obtain ⟨u, vs, rfl, halike⟩ := h.head_alike
    rw [mismatch, mismatch, halike.kind_eq, halike.text_eq, halike.offset_eq]

theorem offsetOf_eq (h : Agree ts us) : Parser.offsetOf ts = Parser.offsetOf us := by
  cases ts with
  | nil =>
    cases h
    rfl
  | cons t ts =>
    obtain ⟨u, vs, rfl, halike⟩ := h.head_alike
    exact halike.offset_eq

/-- Tokens from the inside of an expression, each changed into one that is alike, do not matter. -/
theorem append_map {body : List Token} {f : Token → Token} (hbody : ∀ t ∈ body, t.kind.isInner)
    (hf : ∀ t ∈ body, t.Alike (f t)) (h : Agree ts us) : Agree (body ++ ts) (body.map f ++ us) := by
  induction body with
  | nil => exact h
  | cons t body ih =>
    obtain ⟨ht, hbody⟩ := List.forall_mem_cons.mp hbody
    obtain ⟨hft, hf⟩ := List.forall_mem_cons.mp hf
    exact .cons (Token.Kind.ne_closing_of_isInner ht) hft (ih hbody hf)

end Agree

/-- The two outcomes are the same, and the tokens that are left agree. -/
structure Reading.Same {α : Type} (r r' : Reading α) : Prop where
  result_eq : r.result = r'.result
  rest_agree : Agree r.rest r'.rest

/-- On lists that agree the reader comes to the same outcome. -/
def Reading.Respects {α : Type} (f : List Token → Reading α) : Prop :=
  ∀ ⦃ts us⦄, Agree ts us → (f ts).Same (f us)

namespace Reading

variable {α β : Type}

theorem respects_done (value : α) : Respects (done value) := fun _ _ h ↦ ⟨rfl, h⟩

theorem respects_fail (x : Expectation) : Respects (fail x : List Token → Reading α) :=
  fun _ _ h ↦ ⟨congrArg Except.error (h.mismatch_eq x), h⟩

theorem Same.map {r r' : Reading α} (h : r.Same r') (f : α → β) : (r.map f).Same (r'.map f) := by
  refine ⟨?_, h.rest_agree⟩
  rw [Reading.map, Reading.map, h.result_eq]

theorem Same.bind {r r' : Reading α} (h : r.Same r') {f : α → List Token → Reading β}
    (hf : ∀ value, Respects (f value)) : (r.bind f).Same (r'.bind f) := by
  rw [Reading.bind, Reading.bind, h.result_eq]
  split
  · exact hf _ h.rest_agree
  · exact ⟨rfl, h.rest_agree⟩

theorem respects_expect {kind : Token.Kind} (hkind : kind ≠ .closing) : Respects (expect kind) := by
  intro ts us h
  cases ts with
  | nil =>
    cases h
    exact respects_fail _ .nil
  | cons t ts =>
    obtain ⟨u, vs, rfl, halike⟩ := h.head_alike
    rw [expect, expect, ← halike.kind_eq]
    split
    · rename_i ht
      exact respects_done () (h.tail (ht ▸ hkind))
    · exact respects_fail _ h

end Reading

namespace Parser

theorem respects_properties (names : List Text) : Respects (properties names) := by
  intro ts us h
  fun_induction properties names ts generalizing us with
  | case1 names =>
    cases h
    exact respects_done _ .nil
  | case2 names t ht =>
    obtain ⟨u, vs, rfl, halike⟩ := h.head_alike
    cases h.tail (by simp [ht])
    rw [properties, if_pos (halike.kind_eq ▸ ht)]
    exact respects_fail _ .nil
  | case3 names t ht =>
    obtain ⟨u, vs, rfl, halike⟩ := h.head_alike
    have hdot : NoDot (u :: vs) := by simpa [NoDot, ← halike.kind_eq] using ht
    rw [properties_eq_done hdot]
    exact respects_done _ h
  | case4 names t v ts ht hv ih =>
    obtain ⟨u, vs, rfl, halike⟩ := h.head_alike
    have hrest := h.tail (by simp [ht])
    obtain ⟨w, ws, rfl, halike'⟩ := hrest.head_alike
    rw [properties, if_pos (halike.kind_eq ▸ ht), if_pos (halike'.kind_eq ▸ hv),
      ← halike'.text_eq]
    exact ih (hrest.tail (by simp [hv]))
  | case5 names t v ts ht hv =>
    obtain ⟨u, vs, rfl, halike⟩ := h.head_alike
    have hrest := h.tail (by simp [ht])
    obtain ⟨w, ws, rfl, halike'⟩ := hrest.head_alike
    rw [properties, if_pos (halike.kind_eq ▸ ht), if_neg (halike'.kind_eq ▸ hv)]
    exact respects_fail _ hrest
  | case6 names t v ts ht =>
    obtain ⟨u, vs, rfl, halike⟩ := h.head_alike
    have hdot : NoDot (u :: vs) := by simpa [NoDot, ← halike.kind_eq] using ht
    rw [properties_eq_done hdot]
    exact respects_done _ h

theorem respects_path : Respects path := by
  intro ts us h
  cases ts with
  | nil =>
    cases h
    exact respects_fail _ .nil
  | cons t ts =>
    obtain ⟨u, vs, rfl, halike⟩ := h.head_alike
    rw [path, path, ← halike.atom?_eq]
    split
    · rename_i ha
      have hclosing := Token.Kind.ne_closing_of_isInner (isInner_of_atom? ha)
      exact (respects_properties [] (h.tail hclosing)).map _
    · exact respects_fail _ h

section

variable {inner : List Token → Reading Expr} (hinner : Respects inner)
include hinner

theorem respects_primary : Respects (primary inner) := by
  intro ts us h
  cases ts with
  | nil =>
    cases h
    exact (respects_path .nil).map _
  | cons t ts =>
    obtain ⟨u, vs, rfl, halike⟩ := h.head_alike
    rw [primary, primary, ← halike.kind_eq]
    split
    · rename_i hop
      exact (hinner (h.tail (by simp [hop]))).map _
    · exact (respects_path h).map _

theorem respects_binarySuffix (lhs : Expr) : Respects (binarySuffix inner lhs) := by
  intro ts us h
  cases ts with
  | nil =>
    cases h
    exact respects_done _ .nil
  | cons t ts =>
    obtain ⟨u, vs, rfl, halike⟩ := h.head_alike
    rw [binarySuffix, binarySuffix, ← halike.kind_eq]
    split
    · rename_i hop
      exact (hinner (h.tail (by simp [hop]))).map _
    · exact respects_done _ h

theorem respects_ternarySuffix (condition : Expr) : Respects (ternarySuffix inner condition) := by
  intro ts us h
  cases ts with
  | nil =>
    cases h
    exact respects_done _ .nil
  | cons t ts =>
    obtain ⟨u, vs, rfl, halike⟩ := h.head_alike
    rw [ternarySuffix, ternarySuffix, ← halike.kind_eq]
    split
    · rename_i ht
      refine (hinner (h.tail (by simp [ht]))).bind fun consequent _ _ hrest₁ ↦ ?_
      exact (respects_expect (by simp) hrest₁).bind fun _ _ _ hrest₂ ↦ (hinner hrest₂).map _
    · exact respects_done _ h

end

theorem respects_expression (limit levels : Nat) : Respects (expression limit levels) := by
  induction levels with
  | zero =>
    intro ts us h
    refine ⟨?_, h⟩
    rw [expression, expression, h.offsetOf_eq]
  | succ levels ih =>
    intro ts us h
    rw [expression, expression, expressionBy, expressionBy]
    refine (respects_primary ih h).bind fun head _ _ h₁ ↦ ?_
    exact (respects_binarySuffix ih head h₁).bind fun body ↦ respects_ternarySuffix ih body

end Parser

end Interpolation
