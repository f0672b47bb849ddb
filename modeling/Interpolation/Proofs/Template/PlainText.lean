import Interpolation.Proofs.Stages
import Interpolation.Proofs.Template.Exact
import Interpolation.Proofs.Token.Calls

/-!
# Text without delimiters

A text without delimiters has no way into an expression. The scanner takes all of it up to the first
brace as one piece of literal text, and no token starts with that brace. So the text stands for
itself if it has no brace, and is refused at its first brace otherwise.

Literal text ends before a brace or a delimiter, and the scanner has to look one character ahead to
tell the mark of a delimiter from ordinary text. Without delimiters the outcome of looking ahead is
always the same (`Unmarked.delimiter?_eq_none`), and that is all that is needed of it.
-/

namespace Interpolation

def isBrace (c : Char) : Bool := c = '{' || c = '}'

/-- There is no delimiter in the text. -/
def Unmarked (s : Text) : Prop := ∀ d : Delimiter, ¬[d.mark, '{'] <:+: s

namespace Unmarked

variable {w r : Text}

theorem right (h : Unmarked (w ++ r)) : Unmarked r :=
  fun d hd ↦ h d (hd.trans (List.suffix_append w r).isInfix)

theorem delimiter?_eq_none (h : Unmarked r) : Scanner.delimiter? r = none := by
  cases hd : Scanner.delimiter? r with
  | none => rfl
  | some d =>
    obtain ⟨t, rfl⟩ := Scanner.delimiter?_eq_some_iff.mp hd
    exact absurd ⟨[], t, rfl⟩ (h d)

theorem endsLiteral_eq (h : Unmarked r) : Scanner.endsLiteral r = r.head?.any isBrace := by
  rw [Scanner.endsLiteral, h.delimiter?_eq_none]
  cases r <;> simp [isBrace]

theorem literalWidth_eq (h : Unmarked (w ++ r)) (hw : ∀ c ∈ w, isBrace c = false)
    (hr : ∀ c ∈ r.head?, isBrace c = true) (width : Nat) :
    Scanner.literalWidth width (w ++ r) = width + w.length := by
  induction w generalizing width with
  | nil =>
    cases r with
    | nil => rfl
    | cons c r =>
      have hends : Scanner.endsLiteral (c :: r) = true := h.endsLiteral_eq.trans (hr c rfl)
      rw [List.nil_append, Scanner.literalWidth, if_pos hends]
      rfl
  | cons c w ih =>
    obtain ⟨hc, hw⟩ := List.forall_mem_cons.mp hw
    have hends : Scanner.endsLiteral (c :: (w ++ r)) = false := h.endsLiteral_eq.trans hc
    have hrest : Unmarked (w ++ r) := right (w := [c]) h
    rw [List.cons_append, Scanner.literalWidth, hends, if_neg Bool.false_ne_true, ih hrest hw,
      List.length_cons, Nat.add_assoc, Nat.add_comm 1]

end Unmarked

/-! ## Scanning -/

namespace Scanner

section

variable {w r : Text}

theorem step_unmarked (h : Unmarked (w ++ r)) (hne : w ≠ []) (hw : ∀ c ∈ w, isBrace c = false)
    (hr : ∀ c ∈ r.head?, isBrace c = true) (n : Nat) (ms : List Mode) :
    step ⟨w ++ r, n, .outer :: ms⟩ =
      .ok (some (⟨.literal, w, .outer, n⟩, ⟨r, n + Text.byteSize w, .outer :: ms⟩)) := by
  have hends : endsLiteral (w ++ r) = false := by
    rw [h.endsLiteral_eq]
    obtain ⟨c, w, rfl⟩ := List.exists_cons_of_ne_nil hne
    exact hw c List.mem_cons_self
  apply step_of_recognize hne
  · intro c
    refine recognizeOuter_eq_ok_iff.mpr (.inr ⟨hends, rfl, ?_⟩)
    change _ = literalWidth 0 (w ++ r)
    rw [h.literalWidth_eq hw hr, Nat.zero_add]
  · rfl

theorem step_brace {brace : Char} (h : Unmarked (brace :: r)) (hbrace : isBrace brace = true)
    (n : Nat) (ms : List Mode) :
    step ⟨brace :: r, n, .outer :: ms⟩ =
      .error (if brace = '{' then .unexpectedCharacter '{' n else .unbalancedBrace n) := by
  have hrec : recognizeOuter n (brace :: r) =
      .error (if brace = '{' then .unexpectedCharacter '{' n else .unbalancedBrace n) := by
    rw [recognizeOuter, h.delimiter?_eq_none]
    simp only [isBrace, Bool.or_eq_true, decide_eq_true_eq] at hbrace
    rcases hbrace with rfl | rfl
    · rfl
    · rfl
  rw [step]
  change recognizeOuter n (brace :: r) >>= _ = _
  rw [hrec]
  rfl

end

/-- The token of literal text at the start of a template. Empty text has none. -/
def literalTokens (w : Text) : List Token := if w = [] then [] else [⟨.literal, w, .outer, 0⟩]

/-- The scan of a text without delimiters comes to its end or to its first brace. -/
theorem run_unmarked {w r : Text} (h : Unmarked (w ++ r)) (hw : ∀ c ∈ w, isBrace c = false)
    (hr : ∀ c ∈ r.head?, isBrace c = true) :
    Run (.ofText (w ++ r)) (literalTokens w) ⟨r, Text.byteSize w, [.outer]⟩ := by
  by_cases hne : w = []
  · subst hne
    exact .refl _
  · have hstep := step_unmarked h hne hw hr 0 []
    rw [Nat.zero_add] at hstep
    rw [literalTokens, if_neg hne]
    exact .step hstep (.refl _)

theorem tokenize_unmarked {w : Text} (h : Unmarked w) (hw : ∀ c ∈ w, isBrace c = false) :
    tokenize w = .ok (literalTokens w) := by
  have hrun := run_unmarked (r := []) (by rwa [List.append_nil]) hw (by simp)
  rw [List.append_nil] at hrun
  rw [tokenize_of_run hrun rfl, literalTokens]
  split <;> rfl

theorem tokenize_brace {w r : Text} {brace : Char} (h : Unmarked (w ++ brace :: r))
    (hw : ∀ c ∈ w, isBrace c = false) (hbrace : isBrace brace = true) :
    tokenize (w ++ brace :: r) = .error (if brace = '{'
      then .unexpectedCharacter '{' (Text.byteSize w) else .unbalancedBrace (Text.byteSize w)) := by
  have hrun := run_unmarked h hw (by simpa using hbrace)
  exact tokenize_of_run_error hrun (step_brace h.right hbrace _ _)

end Scanner

/-! ## Compiling -/

theorem parse_literalTokens (limit : Nat) (w : Text) :
    parse limit (Scanner.literalTokens w) = .ok (if w = [] then [] else [.literal w]) := by
  rw [parse_eq_ok_iff, Scanner.literalTokens]
  split
  · exact ⟨rfl, List.forall_mem_nil _, List.forall_mem_nil _⟩
  · exact ⟨rfl, List.forall_mem_singleton.mpr trivial,
      List.forall_mem_singleton.mpr (Nat.zero_le _)⟩

theorem compile_of_literalTokens {o : Options} {w : Text}
    (hsize : Text.byteSize w ≤ o.maxInputLen) (h : tokenize w = .ok (Scanner.literalTokens w)) :
    compile o w = .ok (.string w) := by
  have hread := readTemplate_eq_ok_iff.mpr ⟨_, h, parse_literalTokens o.maxDepth w⟩
  refine compile_eq_ok_iff.mpr ⟨hsize, _, hread, ?_⟩
  split
  · subst w
    rfl
  · rfl

/-- **Text without delimiters stands for itself or is refused at its first brace.** The marks of
delimiters are ordinary text there, however many there are and wherever they stand. -/
theorem compile_unmarked (o : Options) {input : Text} (hsize : Text.byteSize input ≤ o.maxInputLen)
    (hmarks : ∀ d : Delimiter, ¬[d.mark, '{'] <:+: input) :
    compile o input =
      match input.find? isBrace with
      | none => .ok (.string input)
      | some brace =>
        let offset := Text.byteSize (input.takeWhile (!isBrace ·))
        .error (.lex (if brace = '{' then .unexpectedCharacter '{' offset
          else .unbalancedBrace offset)) := by
  cases hfind : input.find? isBrace with
  | none =>
    have hnone : ∀ c ∈ input, isBrace c = false := by simpa using hfind
    exact compile_of_literalTokens hsize (Scanner.tokenize_unmarked hmarks hnone)
  | some brace =>
    obtain ⟨hbrace, w, r, rfl, hw⟩ := List.find?_eq_some_iff_append.mp hfind
    have hbefore : (w ++ brace :: r).takeWhile (!isBrace ·) = w := by
      rw [List.takeWhile_append_of_pos hw, List.takeWhile_cons_of_neg (by simpa using hbrace),
        List.append_nil]
    have herror := Scanner.tokenize_brace hmarks (by simpa using hw) hbrace
    rw [compile_of_readError hsize (readTemplate_of_lexError herror), hbefore]

/-- Marks of both delimiters, two in a row and one at the end of the text: `é##$ a$`. With a brace
behind the last mark the text is refused at that brace, whose offset is counted in bytes:
`é##$ a$}{`. -/
theorem compile_unmarked_marks :
    let text := "é##$ a$".toList
    let braces := "é##$ a$\x7d\x7b".toList
    compile ⟨0, 10, []⟩ text = .ok (.string text) ∧
      compile ⟨0, 10, []⟩ braces = .error (.lex (.unbalancedBrace 8)) := by
  intro text braces
  have htext : ∀ d : Delimiter, ¬[d.mark, '{'] <:+: text := by
    rintro (_ | _) <;> decide +kernel
  have hbraces : ∀ d : Delimiter, ¬[d.mark, '{'] <:+: braces := by
    rintro (_ | _) <;> decide +kernel
  exact ⟨compile_unmarked ⟨0, 10, []⟩ (by decide) htext,
    compile_unmarked ⟨0, 10, []⟩ (by decide) hbraces⟩

end Interpolation
