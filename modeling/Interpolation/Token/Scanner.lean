import Interpolation.Diagnostic
import Interpolation.Token.Rule

/-!
# Cutting a template into tokens

A `Scanner` stands at some place of a template: it holds the text that is left, the offset of that
text, and a stack of modes. Opening an expression pushes its mode and the closing brace pops it; the
outer mode is the floor of the stack and stays there. `Scanner.next` asks for one token.

A call that fails leaves the scanner as it was, so that asking again gives the same answer. A call
that returns a token leaves less text to scan (`Scanner.length_rest_lt`).
-/

namespace Interpolation

/-- A place in a template. -/
structure Scanner where
  /-- The text that is left. -/
  rest : Text
  /-- Where that text starts, in bytes from the start of the template. -/
  offset : Nat
  /-- The modes that are open, the innermost first and the outer mode last. -/
  modes : List Mode
  deriving DecidableEq

namespace Scanner

/-- The scanner at the start of a template. -/
def ofText (s : Text) : Scanner := ⟨s, 0, [.outer]⟩

def mode (s : Scanner) : Mode := s.modes.headD .outer

def openCount (s : Scanner) : Nat := s.modes.length - 1

/-! ## Text outside expressions -/

/-- The delimiter that a text starts with. -/
def delimiter? : Text → Option Delimiter
  | c :: '{' :: _ => Delimiter.ofMark? c
  | _ => none

/-- Whether literal text ends before the given text: at a brace and at a delimiter. -/
def endsLiteral (s : Text) : Bool :=
  (delimiter? s).isSome || s.head? = some '{' || s.head? = some '}'

/-- The number of characters of literal text at the start of a text, added to `width`. -/
def literalWidth (width : Nat) : Text → Nat
  | [] => width
  | c :: s => if endsLiteral (c :: s) then width else literalWidth (width + 1) s

/-- The kind and the number of characters of the token at the start of a text outside expressions.
-/
def recognizeOuter (offset : Nat) (s : Text) : Except LexError (Token.Kind × Nat) :=
  match delimiter? s with
  | some d => .ok (.opening d, 2)
  | none =>
    if s.head? = some '}' then .error (.unbalancedBrace offset)
    else if s.head? = some '{' then .error (.unexpectedCharacter '{' offset)
    else .ok (.literal, literalWidth 0 s)

/-! ## One token -/

/-- The kind and the number of characters of the next token, when the text that is left starts with
the character `c`. -/
def recognize (s : Scanner) (c : Char) : Except LexError (Token.Kind × Nat) :=
  match s.mode with
  | .outer => recognizeOuter s.offset s.rest
  | .inside _ =>
    match Token.recognize s.rest with
    | some found => .ok found
    | none => .error (.unexpectedCharacter c s.offset)

/-- The modes after a token. The outer mode cannot be closed. -/
def shift (s : Scanner) : Token.Kind → Except LexError (List Mode)
  | .opening d => .ok (.inside d :: s.modes)
  | .closing => if s.modes.length ≤ 1 then .error (.unbalancedBrace s.offset) else .ok s.modes.tail
  | _ => .ok s.modes

/-- The next token and the scanner behind it, or nothing at the end of the template. -/
def step (s : Scanner) : Except LexError (Option (Token × Scanner)) :=
  match s.rest with
  | [] => .ok none
  | c :: _ => do
    let (kind, width) ← s.recognize c
    let modes ← s.shift kind
    let text := s.rest.take width
    return some (⟨kind, text, s.mode, s.offset⟩,
      ⟨s.rest.drop width, s.offset + Text.byteSize text, modes⟩)

/-- Asks for one token. The scanner moves behind the token that it returns, and stays where it is
otherwise. -/
def next (s : Scanner) : Except LexError (Option Token) × Scanner :=
  match s.step with
  | .ok (some (token, s')) => (.ok (some token), s')
  | .ok none => (.ok none, s)
  | .error e => (.error e, s)

/-! ## Every token moves forward -/

theorem literalWidth_le (width : Nat) (s : Text) : width ≤ literalWidth width s := by
  induction s generalizing width with
  | nil => exact Nat.le_refl _
  | cons c s ih =>
    rw [literalWidth]
    split
    · exact Nat.le_refl _
    · exact Nat.le_trans (Nat.le_succ _) (ih _)

theorem recognizeOuter_pos {offset : Nat} {c : Char} {s : Text} {kind : Token.Kind} {width : Nat}
    (h : recognizeOuter offset (c :: s) = .ok (kind, width)) : 0 < width := by
  rw [recognizeOuter] at h
  split at h
  · cases h
    exact Nat.two_pos
  · rename_i hd
    split at h
    · simp at h
    · split at h
      · simp at h
      · cases h
        have hends : endsLiteral (c :: s) = false := by simp_all [endsLiteral]
        rw [literalWidth, hends]
        exact Nat.lt_of_lt_of_le Nat.one_pos (literalWidth_le 1 s)

theorem recognize_pos {s : Scanner} {c : Char} {t : Text} {kind : Token.Kind} {width : Nat}
    (hrest : s.rest = c :: t) (h : s.recognize c = .ok (kind, width)) : 0 < width := by
  rw [recognize] at h
  split at h
  · rw [hrest] at h
    exact recognizeOuter_pos h
  · split at h
    · cases h
      exact Token.recognize_pos ‹_›
    · simp at h

theorem length_rest_lt {s s' : Scanner} {token : Token} (h : s.step = .ok (some (token, s'))) :
    s'.rest.length < s.rest.length := by
  rw [step] at h
  split at h
  · simp at h
  · rename_i c t hrest
    cases hrec : s.recognize c with
    | error e => simp [hrec, bind, Except.bind] at h
    | ok found =>
      obtain ⟨kind, width⟩ := found
      cases hshift : s.shift kind with
      | error e => simp [hrec, hshift, bind, Except.bind] at h
      | ok modes =>
        have hpos := recognize_pos hrest hrec
        simp only [hrec, hshift, bind, Except.bind, pure, Except.pure, Except.ok.injEq,
          Option.some.injEq, Prod.mk.injEq] at h
        rw [← h.2, hrest, List.length_drop, List.length_cons]
        omega

end Scanner

end Interpolation
