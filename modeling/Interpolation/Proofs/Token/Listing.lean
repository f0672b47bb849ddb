import Interpolation.Compile
import Interpolation.Proofs.Script.Lexeme
import Interpolation.Proofs.Token.Calls

/-!
# Reading a listing back

A line of a listing tells which token it was written for. There are two difficulties. A column grows
with a field that does not fit into it, so the fields do not stand at fixed places, and the text of
the token, which may hold anything, is written with three kinds of escapes.

The first three fields are words, that is, runs of letters, digits and underscores, and they are
read as such, behind any number of blanks (`nextWord`). Only what is left behind them is quoted.

In a quoted text, a backslash and a quotation mark are never written as they are. So the reader
(`Text.unquoted?`) needs to remember no more than how far it is in an escape, and it does not need
to know which characters are hidden: one reader is good for every set of them. It accepts no text
with the end of a line in it, and so what it reads back stands on one line.
-/

namespace Interpolation

open Script (hexDigit?)
open Token.Rule (isNameChar)

namespace Text

/-! ## Reading quoted text -/

/-- How far a reader of a quoted text is in an escape. -/
inductive Escape where
  /-- It is in none. -/
  | outside
  /-- It is behind the backslash. -/
  | backslash
  /-- It is behind the letter that says that a number follows. -/
  | letter
  /-- It is in the number, and the digits so far have the given value. -/
  | number (value : Nat)

/-- Whether the character ends a line. -/
def isLineEnd (c : Char) : Bool := c = '\n' || c = '\r'

/-- The character that a backslash and the given character stand for. -/
def escaped? : Char → Option Char
  | '0' => some '\x00'
  | c => Script.escaped? c

/-- The text that is quoted, given what follows its opening quotation mark. The closing one must be
the last character. -/
def unquotedFrom? : Escape → Text → Option Text
  | _, [] => none
  | .outside, c :: s =>
    if c = '"' then if s = [] then some [] else none
    else if c = '\\' then unquotedFrom? .backslash s
    else if isLineEnd c then none
    else (unquotedFrom? .outside s).map (c :: ·)
  | .backslash, c :: s =>
    if c = 'u' then unquotedFrom? .letter s
    else (escaped? c).bind fun x ↦ (unquotedFrom? .outside s).map (x :: ·)
  | .letter, c :: s => if c = '{' then unquotedFrom? (.number 0) s else none
  | .number n, c :: s =>
    if c = '}' then
      if n.isValidChar then (unquotedFrom? .outside s).map (Char.ofNat n :: ·) else none
    else (hexDigit? c).bind fun d ↦ unquotedFrom? (.number (16 * n + d)) s

/-- The text that a quoted text stands for. -/
def unquoted? : Text → Option Text
  | '"' :: s => unquotedFrom? .outside s
  | _ => none

theorem unquotedFrom?_digits {w : Text} {m n : Nat}
    (h : w.foldlM (fun n c ↦ (hexDigit? c).map (16 * n + ·)) m = some n) (s : Text) :
    unquotedFrom? (.number m) (w ++ s) = unquotedFrom? (.number n) s := by
  induction w generalizing m with
  | nil =>
    obtain rfl : m = n := Option.some.inj h
    rfl
  | cons c w ih =>
    rw [List.foldlM_cons] at h
    obtain ⟨k, hk, h⟩ := Option.bind_eq_some_iff.mp h
    obtain ⟨d, hd, rfl⟩ := Option.map_eq_some_iff.mp hk
    -- the brace that ends a number is no digit
    have hbrace : c ≠ '}' := by
      rintro rfl
      cases hd
    rw [List.cons_append, unquotedFrom?, if_neg hbrace, hd, Option.bind_some, ih h]

theorem quotedChar_cases (hidden : Char → Bool) (c : Char) :
    (∃ d, quotedChar hidden c = ['\\', d] ∧ escaped? d = some c) ∨
      quotedChar hidden c = '\\' :: 'u' :: '{' :: (hex c.toNat ++ ['}']) ∨
        (c ≠ '"' ∧ c ≠ '\\' ∧ ¬isLineEnd c = true) ∧ quotedChar hidden c = [c] := by
  unfold quotedChar
  split
  · exact .inl ⟨_, rfl, rfl⟩
  · exact .inl ⟨_, rfl, rfl⟩
  · exact .inl ⟨_, rfl, rfl⟩
  · exact .inl ⟨_, rfl, rfl⟩
  · exact .inl ⟨_, rfl, rfl⟩
  · exact .inl ⟨_, rfl, rfl⟩
  next _ _ hreturn hfeed hquote hbackslash =>
    by_cases hc : hidden c = true
    · exact .inr (.inl (if_pos hc))
    · have hline : ¬isLineEnd c = true := by
        simp only [isLineEnd, Bool.or_eq_true, decide_eq_true_eq]
        exact not_or.mpr ⟨hfeed, hreturn⟩
      exact .inr (.inr ⟨⟨hquote, hbackslash, hline⟩, if_neg hc⟩)

theorem unquotedFrom?_quotedChar (hidden : Char → Bool) (c : Char) (s : Text) :
    unquotedFrom? .outside (quotedChar hidden c ++ s) =
      (unquotedFrom? .outside s).map (c :: ·) := by
  obtain ⟨d, hd, hc⟩ | hc | ⟨⟨hquote, hbackslash, hline⟩, hc⟩ := quotedChar_cases hidden c
  · -- no escape is written with the letter that a number follows
    have hu : d ≠ 'u' := by
      rintro rfl
      cases hc
    rw [hd]
    change unquotedFrom? .backslash (d :: s) = _
    rw [unquotedFrom?, if_neg hu, hc, Option.bind_some]
  · have hvalid : c.toNat.isValidChar := c.valid
    rw [hc]
    change unquotedFrom? (.number 0) (hex c.toNat ++ ['}'] ++ s) = _
    rw [List.append_assoc, unquotedFrom?_digits (Script.hexValue?_hex c.toNat)]
    change unquotedFrom? (.number c.toNat) ('}' :: s) = _
    rw [unquotedFrom?, if_pos rfl, if_pos hvalid, Char.ofNat_toNat]
  · rw [hc, List.singleton_append, unquotedFrom?, if_neg hquote, if_neg hbackslash, if_neg hline]

/-- **Quoted text can be read back,** whichever characters are hidden. -/
theorem unquoted?_quotedBy (hidden : Char → Bool) (s : Text) :
    unquoted? (quotedBy hidden s) = some s := by
  change unquotedFrom? .outside (s.flatMap (quotedChar hidden) ++ ['"']) = some s
  induction s with
  | nil => rfl
  | cons c s ih =>
    rw [List.flatMap_cons, List.append_assoc, unquotedFrom?_quotedChar, ih]
    rfl

/-! ## One line -/

/-- The text has no end of a line in it. -/
def OneLine (s : Text) : Prop := ∀ c ∈ s, isLineEnd c = false

theorem OneLine.cons {c : Char} {s : Text} (hc : isLineEnd c = false) (hs : OneLine s) :
    OneLine (c :: s) :=
  List.forall_mem_cons.mpr ⟨hc, hs⟩

theorem OneLine.append {s t : Text} (hs : OneLine s) (ht : OneLine t) : OneLine (s ++ t) :=
  List.forall_mem_append.mpr ⟨hs, ht⟩

theorem oneLine_replicate (n : Nat) : OneLine (List.replicate n ' ') := by
  intro c hc
  rw [List.eq_of_mem_replicate hc]
  rfl

theorem OneLine.notMem {s : Text} (h : OneLine s) : '\n' ∉ s ∧ '\r' ∉ s :=
  ⟨fun hfeed ↦ absurd (h _ hfeed) (by decide), fun hreturn ↦ absurd (h _ hreturn) (by decide)⟩

/-- A character does not end a line if it has a property that the two that do lack. -/
theorem isLineEnd_eq_false {p : Char → Prop} {c : Char} (hfeed : ¬p '\n') (hreturn : ¬p '\r')
    (hc : p c) : isLineEnd c = false := by
  refine Bool.eq_false_iff.mpr fun hline ↦ ?_
  rcases Bool.or_eq_true_iff.mp hline with heq | heq
  · exact hfeed (of_decide_eq_true heq ▸ hc)
  · exact hreturn (of_decide_eq_true heq ▸ hc)

/-- What can be read back stands on one line. -/
theorem oneLine_of_unquotedFrom? {e : Escape} {s v : Text} (h : unquotedFrom? e s = some v) :
    OneLine s := by
  fun_induction unquotedFrom? e s generalizing v with
  | case1 | case3 | case5 | case10 | case12 => cases h
  | case2 => exact .cons rfl (List.forall_mem_nil _)
  | case4 s _ ih | case7 s ih | case9 s ih => exact .cons rfl (ih h)
  | case6 c s _ _ hc ih =>
    obtain ⟨w, hw, -⟩ := Option.map_eq_some_iff.mp h
    exact .cons (Bool.eq_false_iff.mpr hc) (ih hw)
  | case8 c s _ ih =>
    obtain ⟨x, hx, h⟩ := Option.bind_eq_some_iff.mp h
    obtain ⟨w, hw, -⟩ := Option.map_eq_some_iff.mp h
    exact .cons (isLineEnd_eq_false (p := (escaped? · = some x)) nofun nofun hx) (ih hw)
  | case11 n s _ ih =>
    obtain ⟨w, hw, -⟩ := Option.map_eq_some_iff.mp h
    exact .cons rfl (ih hw)
  | case13 n c s _ ih =>
    obtain ⟨d, hd, h⟩ := Option.bind_eq_some_iff.mp h
    exact .cons (isLineEnd_eq_false (p := (hexDigit? · = some d)) nofun nofun hd) (ih d h)

theorem oneLine_quotedBy (hidden : Char → Bool) (s : Text) : OneLine (quotedBy hidden s) :=
  .cons rfl (oneLine_of_unquotedFrom? (unquoted?_quotedBy hidden s))

/-! ## Words -/

/-- The text is a word: at least one letter, digit or underscore, and nothing else. -/
def IsWord (w : Text) : Prop := w ≠ [] ∧ ∀ c ∈ w, isNameChar c = true

theorem isWord_of_isName {w : Text} (h : w.isName = true) : IsWord w := by
  obtain ⟨c, t, rfl, -, hall⟩ := exists_cons_of_isName h
  exact ⟨List.cons_ne_nil c t, hall⟩

theorem isNumeral_decimal (n : Nat) : (decimal n).isNumeral = true := by
  have hne : decimal n ≠ [] := Nat.toDigits_ne_nil
  have hall : ∀ c ∈ decimal n, c.isDigit = true := fun c hc ↦
    Nat.isDigit_of_mem_toDigits (by decide) (by decide) hc
  simpa [isNumeral, hne] using hall

theorem isWord_decimal (n : Nat) : IsWord (decimal n) := by
  obtain ⟨c, t, heq, -, hall⟩ := exists_cons_of_isNumeral (isNumeral_decimal n)
  exact ⟨heq ▸ List.cons_ne_nil c t, fun d hd ↦ isNameChar_of_isDigit (hall d hd)⟩

theorem IsWord.oneLine {w : Text} (h : IsWord w) : OneLine w := fun c hc ↦
  isLineEnd_eq_false (p := (isNameChar · = true)) nofun nofun (h.2 c hc)

/-- The first word of a text, behind the blanks in front of it, and what is left behind it. -/
def nextWord (s : Text) : Text × Text :=
  let s := s.dropWhile (· = ' ')
  (s.takeWhile isNameChar, s.dropWhile isNameChar)

theorem dropWhile_blanks {s : Text} (hs : s.head? ≠ some ' ') (n : Nat) :
    (List.replicate n ' ' ++ s).dropWhile (· = ' ') = s := by
  refine dropWhile_append_of_stop (fun c hc ↦ ?_) fun c hc ↦ ?_
  · exact decide_eq_true (List.eq_of_mem_replicate hc)
  · refine decide_eq_false ?_
    rintro rfl
    exact hs hc

theorem nextWord_eq {w : Text} (hw : IsWord w) (m n : Nat) (s : Text) :
    nextWord (List.replicate m ' ' ++ (w ++ (List.replicate (n + 1) ' ' ++ s))) =
      (w, List.replicate (n + 1) ' ' ++ s) := by
  obtain ⟨hne, hall⟩ := hw
  obtain ⟨c, t, rfl⟩ := List.exists_cons_of_ne_nil hne
  have hblank : c ≠ ' ' := by
    rintro rfl
    cases hall _ List.mem_cons_self
  have hstop : Stops isNameChar (List.replicate (n + 1) ' ' ++ s) := by
    intro d hd
    obtain rfl : ' ' = d := Option.some.inj hd
    rfl
  rw [nextWord, dropWhile_blanks (by simpa using hblank), takeWhile_append_of_stop hall hstop,
    dropWhile_append_of_stop hall hstop]

def decimalValue? (s : Text) : Option Nat :=
  if s.isNumeral then some (Nat.ofDigitChars 10 s 0) else none

theorem decimalValue?_decimal (n : Nat) : decimalValue? (decimal n) = some n := by
  rw [decimalValue?, if_pos (isNumeral_decimal n), decimal,
    Nat.ofDigitChars_toDigits (by decide) (by decide)]

end Text

/-! ## Reading a line -/

/-- The first of the given things that has the given name. -/
def byName? {α : Type} (all : List α) (name : α → String) (w : Text) : Option α :=
  all.find? fun a ↦ (name a).toList = w

def Mode.all : List Mode := [.outer, .inside .deferred, .inside .dynamic]

theorem Mode.byName?_name (m : Mode) : byName? all name m.name.toList = some m := by
  match m with
  | .outer | .inside .deferred | .inside .dynamic => rfl

theorem Mode.isWord_name (m : Mode) : Text.IsWord m.name.toList := by
  refine Text.isWord_of_isName ?_
  match m with
  | .outer | .inside .deferred | .inside .dynamic => rfl

namespace Token

def Kind.all : List Kind :=
  [.whitespace, .boolean, .string .double, .string .single, .integer, .literal,
    .opening .deferred, .opening .dynamic, .closing, .colon, .dot, .question, .unary .minus,
    .unary .not, .unary .empty, .binary .or, .binary .and, .binary .eq, .binary .notEq,
    .binary .gt, .binary .lt, .identifier, .leftParen, .rightParen]

theorem Kind.byName?_name (k : Kind) : byName? all name k.name.toList = some k := by
  match k with
  | .whitespace | .boolean | .string .double | .string .single | .integer | .literal => rfl
  | .opening .deferred | .opening .dynamic | .closing | .colon | .dot | .question => rfl
  | .unary .minus | .unary .not | .unary .empty => rfl
  | .binary .or | .binary .and | .binary .eq | .binary .notEq | .binary .gt | .binary .lt => rfl
  | .identifier | .leftParen | .rightParen => rfl

theorem Kind.isWord_name (k : Kind) : Text.IsWord k.name.toList := by
  have hall : ∀ k ∈ all, Text.isName k.name.toList = true := by decide
  exact Text.isWord_of_isName (hall k (List.mem_of_find?_eq_some k.byName?_name))

/-- The token that a line of a listing was written for. -/
def ofLine? (l : Text) : Option Token := do
  let (offset, l) := Text.nextWord l
  let (mode, l) := Text.nextWord l
  let (kind, l) := Text.nextWord l
  let text ← Text.unquoted? (l.dropWhile (· = ' '))
  return ⟨← byName? Kind.all Kind.name kind, text, ← byName? Mode.all Mode.name mode,
    ← Text.decimalValue? offset⟩

/-- A line is made of three words and the quoted text, with blanks between them. -/
theorem exists_lineBy_eq (hidden : Char → Bool) (t : Token) :
    ∃ i j k, t.lineBy hidden =
      List.replicate i ' ' ++ (Text.decimal t.offset ++ (List.replicate (0 + 1) ' ' ++
        (t.mode.name.toList ++ (List.replicate (j + 1) ' ' ++
          (t.kind.name.toList ++ (List.replicate (k + 1) ' ' ++
            Text.quotedBy hidden t.text)))))) := by
  refine ⟨4 - (Text.decimal t.offset).length, 8 - t.mode.name.toList.length,
    18 - t.kind.name.toList.length, ?_⟩
  simp [lineBy, Text.alignRight, Text.alignLeft, List.replicate_succ']

theorem ofLine?_lineBy (hidden : Char → Bool) (t : Token) :
    ofLine? (t.lineBy hidden) = some t := by
  obtain ⟨i, j, k, hline⟩ := t.exists_lineBy_eq hidden
  have hquoted : (Text.quotedBy hidden t.text).head? ≠ some ' ' := nofun
  simp only [ofLine?, hline, Text.nextWord_eq (Text.isWord_decimal _),
    Text.nextWord_eq (Mode.isWord_name _), Text.nextWord_eq (Kind.isWord_name _),
    Text.dropWhile_blanks hquoted, Text.unquoted?_quotedBy, Kind.byName?_name, Mode.byName?_name,
    Text.decimalValue?_decimal]
  rfl

-- A number that does not fit into its column moves the other fields to the right.
example :
    ofLine? "12345 Outer    LiteralText        \"\\\"a \\n\\u\x7b301\x7d\"".toList =
      some ⟨.literal, ['"', 'a', ' ', '\n', '\u0301'], .outer, 12345⟩ := by
  decide

theorem oneLine_lineBy (hidden : Char → Bool) (t : Token) : Text.OneLine (t.lineBy hidden) := by
  obtain ⟨i, j, k, hline⟩ := t.exists_lineBy_eq hidden
  rw [hline]
  refine (Text.oneLine_replicate _).append ((Text.isWord_decimal _).oneLine.append ?_)
  refine (Text.oneLine_replicate _).append ((Mode.isWord_name _).oneLine.append ?_)
  refine (Text.oneLine_replicate _).append ((Kind.isWord_name _).oneLine.append ?_)
  exact (Text.oneLine_replicate _).append (Text.oneLine_quotedBy hidden t.text)

end Token

/-! ## Listings -/

theorem listingBy_of_tokenize {input : Text} {ts : List Token} (h : tokenize input = .ok ts)
    (hidden : Char → Bool) : listingBy hidden input = .ok (ts.map (Token.lineBy hidden)) := by
  rw [listingBy, h]
  rfl

/-- **A listing loses nothing,** whichever characters are written by their number. There is one
reader of lines that gives back every token, with its place, its mode, its kind and its text, from
the line that is written for it. If a text has tokens, its listing consists of a line for each of
them in order, and no line has the end of a line in it. -/
theorem listing_lossless (hidden : Char → Bool) :
    (∀ t : Token, Token.ofLine? (t.lineBy hidden) = some t) ∧
      ∀ input ts, tokenize input = .ok ts →
        ∃ lines, listingBy hidden input = .ok lines ∧ lines.map Token.ofLine? = ts.map some ∧
          ∀ l ∈ lines, '\n' ∉ l ∧ '\r' ∉ l := by
  refine ⟨Token.ofLine?_lineBy hidden, fun input ts h ↦ ?_⟩
  refine ⟨_, listingBy_of_tokenize h hidden, ?_, fun l hl ↦ ?_⟩
  · rw [List.map_map]
    exact List.map_congr_left fun t _ ↦ Token.ofLine?_lineBy hidden t
  · obtain ⟨t, -, rfl⟩ := List.mem_map.mp hl
    exact (Token.oneLine_lineBy hidden t).notMem

/-- Literal text with a quotation mark, a backslash, the end of a line and an accent, and then an
expression with a soft hyphen in a string. -/
theorem listing_lossless_escapes :
    let input : Text := ['"', '\\', '\n', '\u0301', '#', '{', '\'', '\u00ad', '\'', '}']
    let ts : List Token :=
      [⟨.literal, ['"', '\\', '\n', '\u0301'], .outer, 0⟩,
        ⟨.opening .deferred, ['#', '{'], .outer, 5⟩,
        ⟨.string .single, ['\'', '\u00ad', '\''], .inside .deferred, 7⟩,
        ⟨.closing, ['}'], .inside .deferred, 11⟩]
    tokenize input = .ok ts ∧
      ∃ lines, listing input = .ok lines ∧ lines.map Token.ofLine? = ts.map some ∧
        ∀ l ∈ lines, '\n' ∉ l ∧ '\r' ∉ l := by
  intro input ts
  have htokens : tokenize input = .ok ts :=
    Scanner.tokenize_of_returned input 4 (by decide) (by decide)
  exact ⟨htokens, (listing_lossless Text.isHidden).2 input ts htokens⟩

end Interpolation
