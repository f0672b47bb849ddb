import Interpolation.Proofs.Token.Modes
import Mathlib.Data.List.Chain

/-!
# The shape of the tokens of a template

The stack of a scanner could hold any number of modes. It never holds more than two, so what the
tokens of a template look like can be said without it: literal text and expressions follow one
another, an expression goes from its delimiter to the first closing brace behind it, and only the
last one may lack that brace.

That much follows from the modes alone, one token at a time (`Shape.snoc`). Two more facts need the
text that is left. Literal text has no brace, and where it ends there is either nothing more or a
place that no literal text can start at (`Scanner.Takes.of_literal`), so literal text never stands
next to literal text.
-/

namespace Interpolation

/-! ## Pieces -/

/-- The tokens are one piece of literal text. -/
def IsLiteral (p : List Token) : Prop := ∃ t, p = [t] ∧ t.kind = .literal ∧ t.mode = .outer

/-- The tokens are a delimiter and tokens from the inside of the expression that it opens. -/
def IsOpened (d : Delimiter) (p : List Token) : Prop :=
  ∃ t body, p = t :: body ∧ t.kind = .opening d ∧ t.mode = .outer ∧
    ∀ u ∈ body, u.kind.isInner ∧ u.mode = .inside d

/-- The tokens are a whole expression, from its delimiter to its closing brace. -/
def IsClosed (d : Delimiter) (p : List Token) : Prop :=
  ∃ q c, p = q ++ [c] ∧ IsOpened d q ∧ c.kind = .closing ∧ c.mode = .inside d

/-- The tokens at the end that belong to no whole piece, when the scanner is in the given mode. -/
def Pending : Mode → List Token → Prop
  | .outer, last => last = []
  | .inside d, last => IsOpened d last

/-- The tokens are whole pieces one after the other, and what is pending in the given mode. -/
def Shape (m : Mode) (ts : List Token) : Prop :=
  ∃ (front : List (List Token)) (last : List Token), ts = front.flatten ++ last ∧
    (∀ p ∈ front, IsLiteral p ∨ ∃ d, IsClosed d p) ∧ Pending m last

theorem shape_nil : Shape .outer [] := ⟨[], [], rfl, List.forall_mem_nil _, rfl⟩

/-- One token more either adds to what is pending or completes a piece. -/
theorem Shape.snoc {m m' : Mode} {ts : List Token} {t : Token} (h : Shape m ts) (hmode : t.mode = m)
    (hafter : m.after t.kind = some m') : Shape m' (ts ++ [t]) := by
  obtain ⟨front, last, rfl, hfront, hlast⟩ := h
  match m with
  | .outer =>
    obtain rfl : last = [] := hlast
    rcases Mode.after_outer_eq_some hafter with ⟨ht, rfl⟩ | ⟨d, ht, rfl⟩
    · refine ⟨front ++ [[t]], [], by simp, ?_, rfl⟩
      exact List.forall_mem_append.mpr
        ⟨hfront, List.forall_mem_singleton.mpr (.inl ⟨t, rfl, ht, hmode⟩)⟩
    · exact ⟨front, [t], by simp, hfront, t, [], rfl, ht, hmode, List.forall_mem_nil _⟩
  | .inside d =>
    rcases Mode.after_inside_eq_some hafter with ⟨ht, rfl⟩ | ⟨hinner, rfl⟩
    · refine ⟨front ++ [last ++ [t]], [], by simp, ?_, rfl⟩
      exact List.forall_mem_append.mpr
        ⟨hfront, List.forall_mem_singleton.mpr (.inr ⟨d, last, t, rfl, hlast, ht, hmode⟩)⟩
    · obtain ⟨u, body, rfl, hu, humode, hbody⟩ := hlast
      refine ⟨front, u :: (body ++ [t]), by simp, hfront, u, body ++ [t], rfl, hu, humode, ?_⟩
      exact List.forall_mem_append.mpr ⟨hbody, List.forall_mem_singleton.mpr ⟨hinner, hmode⟩⟩

theorem Shape.append {m m' : Mode} {ts us : List Token} (h : Shape m ts) (hus : Passes m us m') :
    Shape m' (ts ++ us) := by
  induction hus generalizing ts with
  | nil m => rwa [List.append_nil]
  | @cons m m₁ m' u us hmode hafter _ ih =>
    have hsnoc := ih (h.snoc hmode hafter)
    rwa [List.append_assoc, List.singleton_append] at hsnoc

/-! ## Literal text -/

namespace Scanner

section

variable {s s' s'' : Scanner} {t u : Token}

theorem Takes.of_literal (h : Takes s t s') (ht : t.kind = .literal) :
    ('{' ∉ t.text ∧ '}' ∉ t.text) ∧ (s'.rest = [] ∨ endsLiteral s'.rest = true) := by
  obtain ⟨w, r, hrest, hwidth, hw, hr⟩ := literalWidth_cut 0 s.rest
  have hlength : t.text.length = w.length := by
    rw [h.length_of_literal ht, hwidth, Nat.zero_add]
  obtain ⟨htext, hnext⟩ := List.append_inj (h.rest_eq.symm.trans hrest) hlength
  rw [htext, hnext]
  exact ⟨hw, hr⟩

theorem Takes.opening_of_literal (h : Takes s t s') (ht : t.kind = .literal) (h' : Takes s' u s'')
    (hm : s'.modes = Mode.outer.stack) : ∃ d, u.kind = .opening d := by
  rcases h'.recognize_outer hm with ⟨d, hk, -⟩ | ⟨-, hends⟩
  · exact ⟨d, hk⟩
  · rcases (h.of_literal ht).2 with hnil | htrue
    · have hempty := h'.rest_eq.symm.trans hnil
      exact absurd (List.append_eq_nil_iff.mp hempty).1 h'.text_ne_nil
    · rw [htrue] at hends
      cases hends

end

theorem isChain_of_run {s s' : Scanner} {ts : List Token} (h : Run s ts s') {m : Mode}
    (hm : s.modes = m.stack) :
    ts.IsChain fun t u ↦ t.kind = .literal → ∃ d, u.kind = .opening d := by
  induction h generalizing m with
  | refl => exact .nil
  | @step s s₁ s' t ts hstep hrun ih =>
    have htakes := step_eq_some_iff.mp hstep
    obtain ⟨m₁, hafter, hm₁⟩ := after_of_takes htakes hm
    refine List.isChain_cons.mpr ⟨fun u hu ht ↦ ?_, ih hm₁⟩
    -- the mode behind literal text is the outer one
    obtain rfl : m₁ = .outer := by
      rw [ht] at hafter
      match m with
      | .outer => exact (Option.some.inj hafter).symm
      | .inside d => cases hafter
    cases hrun with
    | refl => cases hu
    | step hstep' _ =>
      obtain rfl := Option.some.inj hu
      exact htakes.opening_of_literal ht (step_eq_some_iff.mp hstep') hm₁

theorem no_brace_of_run {s s' : Scanner} {ts : List Token} (h : Run s ts s') :
    ∀ t ∈ ts, t.kind = .literal → '{' ∉ t.text ∧ '}' ∉ t.text :=
  forall_mem_of_run (fun _ _ _ htakes ht ↦ (htakes.of_literal ht).1) h

end Scanner

/-- Leaving out white space brings no literal text next to other literal text. -/
theorem isChain_filter {ts : List Token}
    (h : ts.IsChain fun t u ↦ t.kind = .literal → ∃ d, u.kind = .opening d) :
    (ts.filter (·.kind ≠ .whitespace)).IsChain fun t u ↦
      t.kind = .literal → ∃ d, u.kind = .opening d := by
  induction ts with
  | nil => exact .nil
  | cons t ts ih =>
    obtain ⟨hhead, hts⟩ := List.isChain_cons.mp h
    by_cases hwhite : t.kind = .whitespace
    · rw [List.filter_cons_of_neg (by simpa using hwhite)]
      exact ih hts
    · rw [List.filter_cons_of_pos (by simpa using hwhite)]
      refine List.isChain_cons.mpr ⟨fun u hu ht ↦ ?_, ih hts⟩
      -- the token behind literal text is no white space, so it is still the next one
      cases ts with
      | nil => cases hu
      | cons v ts =>
        obtain ⟨d, hd⟩ := hhead v rfl ht
        rw [List.filter_cons_of_pos (by simp [hd])] at hu
        obtain rfl := Option.some.inj hu
        exact ⟨d, hd⟩

/-! ## Two levels -/

/-- What the tokens of a template look like when its scan ends with the given number of open
expressions. -/
structure TwoLevels (ts : List Token) (openCount : Nat) : Prop where
  /-- The tokens are whole pieces one after the other, and at the end there may be an expression
  without its closing brace: there is one exactly if an expression is still open. -/
  pieces : ∃ (front : List (List Token)) (last : List Token), ts = front.flatten ++ last ∧
    (∀ p ∈ front, IsLiteral p ∨ ∃ d, IsClosed d p) ∧
      (last = [] ∧ openCount = 0 ∨ (∃ d, IsOpened d last) ∧ openCount = 1)
  /-- No literal text stands next to other literal text. -/
  apart : ts.IsChain fun t u ↦ ¬(t.kind = .literal ∧ u.kind = .literal)
  /-- Literal text has no brace. -/
  no_brace : ∀ t ∈ ts, t.kind = .literal → '{' ∉ t.text ∧ '}' ∉ t.text

namespace Scanner

theorem openCount_of_stack {s : Scanner} {m : Mode} (h : s.modes = m.stack) :
    m = .outer ∧ s.openCount = 0 ∨ (∃ d, m = .inside d) ∧ s.openCount = 1 := by
  rw [openCount, h]
  match m with
  | .outer => exact .inl ⟨rfl, rfl⟩
  | .inside d => exact .inr ⟨⟨d, rfl⟩, rfl⟩

theorem twoLevels_of_run {s : Scanner} {input : Text} {all : List Token}
    (h : Run (ofText input) all s) :
    TwoLevels (all.filter (·.kind ≠ .whitespace)) s.openCount := by
  obtain ⟨m, hm, hpasses⟩ := passes_of_run h (m := .outer) rfl
  refine ⟨?_, ?_, ?_⟩
  · obtain ⟨front, last, heq, hfront, hlast⟩ := shape_nil.append hpasses.filter
    refine ⟨front, last, heq, hfront, ?_⟩
    rcases openCount_of_stack hm with ⟨rfl, hcount⟩ | ⟨⟨d, rfl⟩, hcount⟩
    · exact .inl ⟨hlast, hcount⟩
    · exact .inr ⟨⟨d, hlast⟩, hcount⟩
  · refine (isChain_filter (isChain_of_run h (m := .outer) rfl)).imp ?_
    rintro t u hnext ⟨ht, hu⟩
    obtain ⟨d, hd⟩ := hnext ht
    rw [hu] at hd
    cases hd
  · intro t ht
    exact no_brace_of_run h t (List.mem_of_mem_filter ht)

theorem modes_after (input : Text) (n : Nat) :
    ∃ m : Mode, (after n (ofText input)).modes = m.stack := by
  obtain ⟨m, hm, -⟩ := passes_of_run (run_returned n (ofText input)) (m := .outer) rfl
  exact ⟨m, hm⟩

end Scanner

/-- **The modes of a scanner are a machine with two levels, and they give the tokens their shape.**
After any number of calls the stack holds the outer mode and at most one expression on top of it,
and whatever is recognized there, the change of modes does not fail. So the tokens of a template are
literal text and expressions from a delimiter to the first closing brace, of which only the last may
lack its brace. -/
theorem two_levels (input : Text) :
    (∀ n, let s := Scanner.after n (.ofText input)
      (s.modes = [.outer] ∨ ∃ d, s.modes = [.inside d, .outer]) ∧
        (s.openCount = 0 ∨ s.openCount = 1) ∧
          ∀ c k width, s.recognize c = .ok (k, width) → ∃ modes, s.shift k = .ok modes) ∧
      ∀ ts, tokenize input = .ok ts → TwoLevels ts (Scan.ofText input).openCount := by
  constructor
  · intro n s
    obtain ⟨m, hm⟩ := Scanner.modes_after input n
    refine ⟨?_, ?_, ?_⟩
    · match m with
      | .outer => exact .inl hm
      | .inside d => exact .inr ⟨d, hm⟩
    · exact (Scanner.openCount_of_stack hm).imp And.right And.right
    · intro c k width hrec
      obtain ⟨m', hafter⟩ := Scanner.exists_after_of_recognize hm hrec
      exact ⟨m'.stack, Scanner.shift_of_after hm hafter⟩
  · intro ts hts
    obtain ⟨all, s, hrun, hrest, rfl⟩ := Scanner.tokenize_eq_ok_iff.mp hts
    rw [Scanner.scan_of_run hrun hrest]
    exact Scanner.twoLevels_of_run hrun

/-- Text that ends in half a delimiter, a whole expression, and one that the template ends in:
`a$#{b}${ c`. -/
theorem two_levels_unclosed :
    let input := "a$#\x7bb\x7d$\x7b c".toList
    ∃ ts, tokenize input = .ok ts ∧ (Scan.ofText input).openCount = 1 ∧
      ts.map Token.kind = [.literal, .opening .deferred, .identifier, .closing, .opening .dynamic,
        .identifier] ∧ TwoLevels ts 1 := by
  intro input
  have hrun := Scanner.run_returned 7 (.ofText input)
  have htokens := Scanner.tokenize_of_run hrun (by decide)
  have hcount : (Scan.ofText input).openCount = 1 := by
    rw [Scanner.scan_of_run hrun (by decide)]
    decide
  have hshape := (two_levels input).2 _ htokens
  rw [hcount] at hshape
  exact ⟨_, htokens, hcount, by decide, hshape⟩

end Interpolation
