import Interpolation.Proofs.Script.Grammar
import Mathlib.Data.List.Chain

/-!
# Scripts without fractions before dots

In a script, digits with a dot directly behind them are the start of a fraction, so no property can
be taken from a number that way. Here a script is read *strictly* if such digits are no lexeme; all
other rules stay as they are.

A text has an outline, in which every string is only a quotation mark. Outlines can be cut and put
together where texts cannot be cut into lexemes, since they do not depend on where a name or a
symbol ends; and they show enough of the text to count the parentheses that are read in it
(`Outline.count_opening`).
-/

namespace Interpolation.Script

open Token.Rule (isNameChar)

/-! ## Strict reading -/

/-- The text is cut into the lexemes, and no dot stands directly behind digits. -/
inductive SpellsStrictly : Text → List Lexeme → Prop where
  | nil : SpellsStrictly [] []
  | blank {c s ls} : c.isWhitespace = true → SpellsStrictly s ls → SpellsStrictly (c :: s) ls
  | lexeme {s l r ls} : first? s = some (l, r) → (∀ d, l = .digits d → r.head? ≠ some '.') →
      SpellsStrictly r ls → SpellsStrictly s (l :: ls)

/-- The text is a script that says the code, where digits directly before a dot are no number. -/
def ReadsStrictly (s : Text) (c : Code) : Prop :=
  ∃ ls, SpellsStrictly s ls ∧ Derives .expression ls c

theorem SpellsStrictly.spells {s : Text} {ls : List Lexeme} (h : SpellsStrictly s ls) :
    Spells s ls := by
  induction h with
  | nil => exact .nil
  | blank hc _ ih => exact .blank hc ih
  | lexeme hl _ _ ih => exact .lexeme hl ih

/-! ## The text of a lexeme -/

/-- The text of a lexeme that is not a string. It has neither white space nor quotation marks, and a
parenthesis that opens is alone in it, and so is a dot that a lexeme starts with. -/
structure Lexeme.Plain (l : Lexeme) (w : Text) : Prop where
  quote : '"' ∉ w
  white : ∀ c ∈ w, c.isWhitespace = false
  opening : l = .opening ∧ w = ['('] ∨ l ≠ .opening ∧ '(' ∉ w
  dot : l = .dot → w = ['.']

theorem plain_of_isNameChar {l : Lexeme} {w : Text} (hw : ∀ c ∈ w, isNameChar c = true)
    (hl : l ≠ .opening ∧ l ≠ .dot) : l.Plain w := by
  have hnot : ∀ c, isNameChar c = false → c ∉ w := fun c hc hmem ↦ by simp [hw c hmem] at hc
  refine ⟨hnot _ rfl, fun c hc ↦ ?_, .inr ⟨hl.1, hnot _ rfl⟩, fun h ↦ absurd h hl.2⟩
  refine Bool.eq_false_iff.mpr fun hwhite ↦ ?_
  simp only [Char.isWhitespace, Bool.or_eq_true, decide_eq_true_eq] at hwhite
  rcases hwhite with ((rfl | rfl) | rfl) | rfl <;> exact absurd hc (hnot _ rfl)

theorem plain_of_mem_symbols {x : Text × Lexeme} (hx : x ∈ symbols) : x.2.Plain x.1 := by
  have hquote : ∀ x ∈ symbols, '"' ∉ x.1 := by decide
  have hwhite : ∀ x ∈ symbols, x.1.any Char.isWhitespace = false := by decide
  have hopening : ∀ x ∈ symbols, x.2 = .opening ∧ x.1 = ['('] ∨ x.2 ≠ .opening ∧ '(' ∉ x.1 := by
    decide
  have hdot : ∀ x ∈ symbols, x.2 = .dot → x.1 = ['.'] := by decide
  refine ⟨hquote x hx, fun c hc ↦ ?_, hopening x hx, hdot x hx⟩
  simpa using List.any_eq_false.mp (hwhite x hx) c hc

/-- What the first lexeme of a text is: a string, or a text without strings. -/
theorem first?_cases {s r : Text} {l : Lexeme} (h : first? s = some (l, r)) :
    (∃ v t, s = '"' :: t ∧ string? t = some (v, r) ∧ l = .string v) ∨
      ∃ w, s = w ++ r ∧ l.Plain w := by
  unfold first? at h
  split at h
  · cases h
  · obtain ⟨⟨v, r⟩, hv, heq⟩ := Option.map_eq_some_iff.mp h
    cases heq
    exact .inl ⟨v, _, rfl, hv, rfl⟩
  · rename_i c s hquote
    right
    split at h
    · cases h
      exact ⟨_, List.takeWhile_append_dropWhile.symm,
        plain_of_isNameChar (List.all_eq_true.mp List.all_takeWhile) (by simp)⟩
    · split at h
      · cases h
        refine ⟨_, List.takeWhile_append_dropWhile.symm, plain_of_isNameChar (fun d hd ↦ ?_)
          (by simp)⟩
        exact Text.isNameChar_of_isDigit (List.all_eq_true.mp List.all_takeWhile d hd)
      · obtain ⟨x, hx, heq⟩ := Option.map_eq_some_iff.mp h
        cases heq
        have hfound := List.find?_some hx
        have hstart : x.1 <+: c :: s := List.isPrefixOf_iff_prefix.mp hfound
        refine ⟨x.1, ?_, plain_of_mem_symbols (List.mem_of_find?_eq_some hx)⟩
        exact (List.prefix_iff_eq_append.mp hstart).symm

/-! ## Outlines -/

/-- The second text is the first one with a quotation mark in place of every string. -/
inductive Outline : Text → Text → Prop where
  | nil : Outline [] []
  | char {c s t} : c ≠ '"' → Outline s t → Outline (c :: s) (c :: t)
  | string {s v r t} : string? s = some (v, r) → Outline r t → Outline ('"' :: s) ('"' :: t)

/-- Every string that starts in the text ends in it. -/
def Whole (s : Text) : Prop := ∃ t, Outline s t

theorem string?_append {s v r : Text} (h : string? s = some (v, r)) (x : Text) :
    string? (s ++ x) = some (v, r ++ x) := by
  fun_induction string? s generalizing v r with
  | case1 => cases h
  | case2 s =>
    cases h
    rfl
  | case3 a b c d s ih =>
    obtain ⟨y, hy, h⟩ := Option.bind_eq_some_iff.mp h
    obtain ⟨⟨v, r⟩, hv, heq⟩ := Option.map_eq_some_iff.mp h
    cases heq
    simp only [List.cons_append, string?, hy, ih hv]
    rfl
  | case4 c s hu ih =>
    obtain ⟨y, hy, h⟩ := Option.bind_eq_some_iff.mp h
    obtain ⟨⟨v, r⟩, hv, heq⟩ := Option.map_eq_some_iff.mp h
    cases heq
    rw [List.cons_append, List.cons_append, string?, hy, ih hv]
    · rfl
    · rintro _ _ _ _ _ rfl
      cases hy
  | case5 => cases h
  | case6 c s hquote hu hescape hc ih =>
    obtain ⟨⟨v, r⟩, hv, heq⟩ := Option.map_eq_some_iff.mp h
    cases heq
    rw [List.cons_append, string?, if_neg hc, ih hv]
    · rfl
    · exact hquote
    · exact fun _ _ _ _ _ h ↦ absurd (.inl h) hc
    · exact fun _ _ h ↦ absurd (.inl h) hc

namespace Outline

variable {s r t u : Text}

theorem append (hs : Outline s t) (hr : Outline r u) : Outline (s ++ r) (t ++ u) := by
  induction hs with
  | nil => exact hr
  | char hc _ ih => exact .char hc ih
  | string hv _ ih => exact .string (string?_append hv r) ih

/-- What follows a whole text has an outline if both together have one. -/
theorem exists_of_append (h : Outline (s ++ r) t) (hs : Outline s u) :
    ∃ t', t = u ++ t' ∧ Outline r t' := by
  induction hs generalizing t with
  | nil => exact ⟨t, rfl, h⟩
  | char hc _ ih =>
    cases h with
    | char _ h =>
      obtain ⟨t', rfl, hr⟩ := ih h
      exact ⟨t', rfl, hr⟩
    | string => exact absurd rfl hc
  | string hv _ ih =>
    cases h with
    | char hc => exact absurd rfl hc
    | string hv' h =>
      cases (string?_append hv r).symm.trans hv'
      obtain ⟨t', rfl, hr⟩ := ih h
      exact ⟨t', rfl, hr⟩

theorem of_notMem (hs : '"' ∉ s) : Outline s s := by
  induction s with
  | nil => exact .nil
  | cons c s ih =>
    rw [List.mem_cons, not_or] at hs
    exact .char (Ne.symm hs.1) (ih hs.2)

theorem head?_eq (h : Outline s t) : t.head? = s.head? := by
  cases h <;> rfl

theorem exists_of_first? {l : Lexeme} (h : Outline s t) (hl : first? s = some (l, r)) :
    ∃ w t', t = w ++ t' ∧ Outline r t' ∧ (w = ['"'] ∧ (∃ v, l = .string v) ∨ l.Plain w) := by
  rcases first?_cases hl with ⟨v, x, rfl, hv, rfl⟩ | ⟨w, rfl, hw⟩
  · cases h with
    | char hc => exact absurd rfl hc
    | string hv' h =>
      cases hv.symm.trans hv'
      exact ⟨['"'], _, rfl, h, .inl ⟨rfl, v, rfl⟩⟩
  · obtain ⟨t', rfl, hr⟩ := h.exists_of_append (of_notMem hw.quote)
    exact ⟨w, t', rfl, hr, .inr hw⟩

end Outline

/-- **As many parentheses open in a text as in its outline.** -/
theorem Outline.count_opening {s t : Text} {ls : List Lexeme} (h : Outline s t)
    (hs : Spells s ls) : ls.count .opening = t.count '(' := by
  induction hs generalizing t with
  | nil =>
    cases h
    rfl
  | @blank c s ls hc _ ih =>
    cases h with
    | char _ h =>
      have hne : c ≠ '(' := by rintro rfl; cases hc
      rw [ih h, List.count_cons_of_ne hne]
    | string => cases hc
  | @lexeme s l r ls hl _ ih =>
    obtain ⟨w, t', rfl, hr, ⟨rfl, v, rfl⟩ | hw⟩ := h.exists_of_first? hl
    · rw [List.count_cons_of_ne (by simp), ih hr]
      rfl
    · rw [List.count_append, ← ih hr]
      rcases hw.opening with ⟨rfl, rfl⟩ | ⟨hne, hnot⟩
      · rw [List.count_cons_self, Nat.add_comm]
        rfl
      · rw [List.count_cons_of_ne hne, List.count_eq_zero_of_not_mem hnot, Nat.zero_add]

/-! ## Numbers before dots -/

/-- The second lexeme is no dot if the first one is a number. -/
def Lexeme.Apart (l m : Lexeme) : Prop := ∀ d, l = .digits d → m ≠ .dot

/-- The second character is no dot if the first one is white space. -/
def DotBehindInk (x y : Char) : Prop := x.isWhitespace = true → y ≠ '.'

theorem Outline.head?_of_dot {s t : Text} {ls : List Lexeme} (h : Outline s t)
    (hchain : t.IsChain DotBehindInk) (hs : Spells s ls) (hls : ls.head? = some .dot) :
    s.head? = some '.' := by
  induction hs generalizing t with
  | nil => cases hls
  | @blank c s ls hc _ ih =>
    cases h with
    | char _ h =>
      obtain ⟨hhead, hchain⟩ := List.isChain_cons.mp hchain
      have hdot := ih h hchain hls
      rw [← h.head?_eq] at hdot
      exact absurd rfl (hhead '.' hdot hc)
    | string => cases hc
  | @lexeme s l r ls hl _ ih =>
    obtain rfl : l = .dot := Option.some.inj hls
    rcases first?_cases hl with ⟨v, x, -, -, hv⟩ | ⟨w, rfl, hw⟩
    · cases hv
    · rw [hw.dot rfl]
      rfl

/-- **Read strictly, a number is not followed by a dot** in a text without white space before
dots. -/
theorem SpellsStrictly.apart {s t : Text} {ls : List Lexeme} (h : SpellsStrictly s ls)
    (ht : Outline s t) (hchain : t.IsChain DotBehindInk) : ls.IsChain Lexeme.Apart := by
  induction h generalizing t with
  | nil => exact .nil
  | blank hc _ ih =>
    cases ht with
    | char _ ht => exact ih ht (List.isChain_cons.mp hchain).2
    | string => cases hc
  | @lexeme s l r ls hl hstrict hs ih =>
    obtain ⟨w, t', rfl, hr, -⟩ := ht.exists_of_first? hl
    have hchain' := hchain.right_of_append
    refine List.isChain_cons.mpr ⟨fun m hm d hd hdot ↦ ?_, ih hr hchain'⟩
    exact hstrict d hd (hr.head?_of_dot hchain' hs.spells (hdot ▸ hm))

end Interpolation.Script
