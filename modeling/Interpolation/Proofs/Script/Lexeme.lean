import Interpolation.Code.Basic
import Interpolation.Proofs.Names

/-!
# The words of a script

Code is printed for a reader of another language, whose rules are stated here and in
`Proofs.Script.Grammar` on their own, without a look at the printer. A script is first cut into
lexemes: names, runs of digits, strings with their escapes undone, and symbols. The lexeme at a
place is the longest one that starts there, and white space between two lexemes says nothing.

`Spells s ls` says that the text `s` is cut into the lexemes `ls`. A text is cut in at most one way.
-/

namespace Interpolation.Script

open Token.Rule (isNameChar)

/-- A word of a script. A string stands for the text that it denotes. -/
inductive Lexeme where
  /-- A name, or one of the reserved words. -/
  | word (text : Text)
  | digits (text : Text)
  /-- A string, by its value. -/
  | string (value : Text)
  | op (op : Code.Op)
  /-- The sign of a negation. -/
  | bang
  /-- The mark behind the test of a conditional. -/
  | question
  /-- The mark between the branches of a conditional. -/
  | colon
  | dot
  | comma
  | opening
  | closing
  deriving DecidableEq

/-! ## Strings -/

/-- The character that a backslash and the given character stand for. -/
def escaped? : Char → Option Char
  | '"' => some '"'
  | '\\' => some '\\'
  | 'n' => some '\n'
  | 'r' => some '\r'
  | 't' => some '\t'
  | _ => none

def hexDigit? (c : Char) : Option Nat :=
  if c.isDigit then some (c.toNat - '0'.toNat)
  else if 'a' ≤ c ∧ c ≤ 'f' then some (c.toNat - 'a'.toNat + 10)
  else if 'A' ≤ c ∧ c ≤ 'F' then some (c.toNat - 'A'.toNat + 10)
  else none

def hexValue? (s : Text) : Option Nat :=
  s.foldlM (fun n c ↦ (hexDigit? c).map (16 * n + ·)) 0

/-- The character whose number is given by hexadecimal digits, if there is one. -/
def codePoint? (s : Text) : Option Char :=
  (hexValue? s).bind fun n ↦ if n.isValidChar then some (Char.ofNat n) else none

/-- The value of a string, given what follows its opening quotation mark, and what is left behind
its closing one. A string does not go on over the end of a line. -/
def string? : Text → Option (Text × Text)
  | [] => none
  | '"' :: s => some ([], s)
  | '\\' :: 'u' :: a :: b :: c :: d :: s =>
    (codePoint? [a, b, c, d]).bind fun x ↦ (string? s).map (Prod.map (x :: ·) id)
  | '\\' :: c :: s => (escaped? c).bind fun x ↦ (string? s).map (Prod.map (x :: ·) id)
  | c :: s =>
    if c = '\\' ∨ c = '\n' ∨ c = '\r' then none else (string? s).map (Prod.map (c :: ·) id)

/-! ## Hexadecimal numerals -/

theorem hexDigit?_digitChar {d : Nat} (h : d < 16) : hexDigit? d.digitChar = some d := by
  revert d
  decide

theorem hexValue?_append_digit {s : Text} {n d : Nat} (hs : hexValue? s = some n) (hd : d < 16) :
    hexValue? (s ++ [d.digitChar]) = some (16 * n + d) := by
  unfold hexValue? at *
  rw [List.foldlM_append, hs]
  simp [hexDigit?_digitChar hd]

theorem hexValue?_hex (n : Nat) : hexValue? (Text.hex n) = some n := by
  induction n using Nat.strongRecOn with
  | ind n ih =>
    rw [Text.hex]
    by_cases hn : n < 16
    · rw [Nat.toDigits_of_lt_base hn]
      simpa using hexValue?_append_digit (s := []) rfl hn
    · have hdigit : n % 16 < 16 := Nat.mod_lt n (by decide)
      have h := hexValue?_append_digit (ih (n / 16) (by omega)) hdigit
      rw [Nat.div_add_mod] at h
      rw [Nat.toDigits_of_base_le (by decide) (by omega)]
      exact h

/-- Zeros in front of a numeral do not change its value. -/
theorem hexValue?_hex4 (n : Nat) : hexValue? (Text.hex4 n) = some n := by
  rw [← hexValue?_hex n, Text.hex4, List.leftpad]
  generalize 4 - (Text.hex n).length = k
  induction k with
  | zero => rfl
  | succ k ih =>
    rw [List.replicate_succ, ← ih]
    rfl

theorem length_hex4 {n : Nat} (h : n < 0x10000) : (Text.hex4 n).length = 4 := by
  have hlength : (Text.hex n).length ≤ 4 :=
    (Nat.length_toDigits_le_iff (by decide) (by decide)).mpr h
  rw [Text.hex4, List.length_leftpad, Nat.max_eq_left hlength]

theorem codePoint?_hex4 (c : Char) : codePoint? (Text.hex4 c.toNat) = some c := by
  have hvalid : c.toNat.isValidChar := c.valid
  simp [codePoint?, hexValue?_hex4, hvalid, Char.ofNat_toNat]

/-! ## The first lexeme -/

/-- The symbols. One that another one starts with stands behind it. -/
def symbols : List (Text × Lexeme) :=
  [("===".toList, .op .equal), ("!==".toList, .op .notEqual), ("&&".toList, .op .and),
    ("||".toList, .op .or), (">".toList, .op .greater), ("<".toList, .op .less),
    ("+".toList, .op .add), ("!".toList, .bang), ("?".toList, .question), (":".toList, .colon),
    (".".toList, .dot), (",".toList, .comma), ("(".toList, .opening), (")".toList, .closing)]

def symbol? (s : Text) : Option (Lexeme × Text) :=
  (symbols.find? fun x ↦ x.1.isPrefixOf s).map fun x ↦ (x.2, s.drop x.1.length)

/-- The lexeme at the start of a text, and what is left behind it. -/
def first? : Text → Option (Lexeme × Text)
  | [] => none
  | '"' :: s => (string? s).map fun x ↦ (.string x.1, x.2)
  | c :: s =>
    if c.isAlpha then
      some (.word ((c :: s).takeWhile isNameChar), (c :: s).dropWhile isNameChar)
    else if c.isDigit then
      some (.digits ((c :: s).takeWhile Char.isDigit), (c :: s).dropWhile Char.isDigit)
    else symbol? (c :: s)

/-! ## Texts in lexemes -/

/-- The text is cut into the lexemes. -/
inductive Spells : Text → List Lexeme → Prop where
  | nil : Spells [] []
  | blank {c s ls} : c.isWhitespace = true → Spells s ls → Spells (c :: s) ls
  | lexeme {s l r ls} : first? s = some (l, r) → Spells r ls → Spells s (l :: ls)

theorem first?_eq_none_of_isWhitespace {c : Char} (hc : c.isWhitespace = true) (s : Text) :
    first? (c :: s) = none := by
  simp only [Char.isWhitespace, Bool.or_eq_true, decide_eq_true_eq] at hc
  rcases hc with ((rfl | rfl) | rfl) | rfl <;> rfl

/-- **A text is cut into lexemes in one way only.** -/
theorem Spells.unique {s : Text} {ls ms : List Lexeme} (hls : Spells s ls) (hms : Spells s ms) :
    ls = ms := by
  -- No lexeme starts at the end or at white space, so the rules exclude one another.
  induction hls generalizing ms with
  | nil =>
    cases hms with
    | nil => rfl
    | lexeme hl _ => cases hl
  | blank hc _ ih =>
    cases hms with
    | blank _ h => exact ih h
    | lexeme hl _ => simp [first?_eq_none_of_isWhitespace hc] at hl
  | lexeme hl _ ih =>
    cases hms with
    | nil => cases hl
    | blank hc _ => simp [first?_eq_none_of_isWhitespace hc] at hl
    | lexeme hl' h =>
      obtain ⟨rfl, rfl⟩ : _ ∧ _ := by simpa [hl] using hl'
      rw [ih h]

/-! ## Words, numerals and symbols at the start of a text -/

theorem first?_word {w r : Text} (hw : w.isName = true) (hr : r.Stops isNameChar) :
    first? (w ++ r) = some (.word w, r) := by
  obtain ⟨c, t, rfl, hc, hall⟩ := Text.exists_cons_of_isName hw
  have hquote : c ≠ '"' := by rintro rfl; cases hc
  rw [List.cons_append, first?, if_pos hc, ← List.cons_append,
    Text.takeWhile_append_of_stop hall hr, Text.dropWhile_append_of_stop hall hr]
  exact hquote

theorem first?_digits {w r : Text} (hw : w.isNumeral = true) (hr : r.Stops Char.isDigit) :
    first? (w ++ r) = some (.digits w, r) := by
  obtain ⟨c, t, rfl, hc, hall⟩ := Text.exists_cons_of_isNumeral hw
  have hquote : c ≠ '"' := by rintro rfl; cases hc
  have halpha : ¬c.isAlpha = true := fun h ↦ by simp [Text.isDigit_of_isAlpha h] at hc
  rw [List.cons_append, first?, if_neg halpha, if_pos hc, ← List.cons_append,
    Text.takeWhile_append_of_stop hall hr, Text.dropWhile_append_of_stop hall hr]
  exact hquote

theorem first?_op (o : Code.Op) (r : Text) :
    first? (o.symbol.toList ++ ' ' :: r) = some (.op o, ' ' :: r) := by
  cases o <;> rfl

/-- The sign of a negation is one unless it is the start of an inequality. -/
theorem first?_bang {r : Text} (hr : r.head? ≠ some '=') : first? ('!' :: r) = some (.bang, r) := by
  -- Of the symbols before it in the table, only that of an inequality starts with this sign.
  have hlong : List.isPrefixOf ['=', '='] r = false := by
    cases r with
    | nil => rfl
    | cons c r =>
      have hc : c ≠ '=' := by simpa using hr
      simp [List.isPrefixOf, hc.symm]
  simp [first?, symbol?, symbols, List.find?, List.isPrefixOf, hlong]

end Interpolation.Script
