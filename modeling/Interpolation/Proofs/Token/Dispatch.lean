import Interpolation.Proofs.Names

/-!
# Tokens by their first character

The table of rules is searched from the top, and some of its rules give way to a longer one. Neither
the order nor the giving way is needed to say what it finds: the first character of the text decides
which rules can apply at all, and `dispatch` goes by that alone.

Only words need an argument. Every rule for a word of the language gives way to the rule for names,
so a text that starts with a letter always yields the whole run of name characters, and its kind is
that of the word exactly if the run is nothing but the word. That a shorter word never gets in the
way of a longer one is because no word of the language is the beginning of another
(`keywords_prefixFree`).
-/

namespace Interpolation.Token

open Rule

/-! ## Words -/

/-- The words of the language. -/
def keywords : List (Text × Kind) :=
  [("true".toList, .boolean), ("false".toList, .boolean), ("not".toList, .unary .not),
    ("empty".toList, .unary .empty), ("or".toList, .binary .or), ("and".toList, .binary .and),
    ("eq".toList, .binary .eq), ("ne".toList, .binary .notEq), ("gt".toList, .binary .gt),
    ("lt".toList, .binary .lt)]

/-- The kind of a run of name characters. -/
def wordKind (w : Text) : Kind := ((keywords.find? (·.1 = w)).map Prod.snd).getD .identifier

theorem keywords_prefixFree : ∀ p ∈ keywords, ∀ q ∈ keywords, p.1 <+: q.1 → p = q := by decide

theorem wordKind_of_mem : ∀ p ∈ keywords, wordKind p.1 = p.2 := by decide

theorem wordKind_of_notMem {w : Text} (h : ∀ p ∈ keywords, p.1 ≠ w) :
    wordKind w = .identifier := by
  have hnone : keywords.find? (·.1 = w) = none := by
    rw [List.find?_eq_none]
    simpa using h
  rw [wordKind, hnone]
  rfl

/-- What holds of all words of the language and of names holds of every run of name characters. -/
theorem wordKind_induction {motive : Kind → Prop} (keyword : ∀ p ∈ keywords, motive p.2)
    (name : motive .identifier) (w : Text) : motive (wordKind w) := by
  by_cases hword : ∃ p ∈ keywords, p.1 = w
  · obtain ⟨p, hp, rfl⟩ := hword
    rw [wordKind_of_mem p hp]
    exact keyword p hp
  · rw [wordKind_of_notMem fun p hp hw ↦ hword ⟨p, hp, hw⟩]
    exact name

theorem wordKind_append {p : Text × Kind} (hp : p ∈ keywords) {u : Text} (hu : u ≠ []) :
    wordKind (p.1 ++ u) = .identifier := by
  refine wordKind_of_notMem fun q hq hqu ↦ hu ?_
  have hpq := keywords_prefixFree p hp q hq ⟨u, hqu.symm⟩
  rw [← hpq] at hqu
  simpa using hqu

theorem isName_of_mem_keywords : ∀ p ∈ keywords, p.1.isName = true := by decide

/-- The text is a name and none of the words of the language. -/
def IsFreeName (w : Text) : Prop := w.isName ∧ w ∉ keywords.map Prod.fst

instance (w : Text) : Decidable (IsFreeName w) :=
  inferInstanceAs (Decidable (w.isName ∧ w ∉ keywords.map Prod.fst))

theorem IsFreeName.wordKind_eq {w : Text} (h : IsFreeName w) : wordKind w = .identifier :=
  wordKind_of_notMem fun _ hp hw ↦ h.2 (hw ▸ List.mem_map_of_mem hp)

/-! ## Dispatch -/

/-- The token at the start of a text that starts with neither white space nor a letter nor a digit.
-/
def symbol (c : Char) (s : Text) : Option (Kind × Nat) :=
  match c with
  | '!' => if s.head? = some '=' then some (.binary .notEq, 2) else some (.unary .not, 1)
  | '|' => if s.head? = some '|' then some (.binary .or, 2) else none
  | '&' => if s.head? = some '&' then some (.binary .and, 2) else none
  | '=' => if s.head? = some '=' then some (.binary .eq, 2) else none
  | '"' => (StringLiteral.closing? '"' s).map fun n ↦ (.string .double, n + 1)
  | '\'' => (StringLiteral.closing? '\'' s).map fun n ↦ (.string .single, n + 1)
  | '}' => some (.closing, 1)
  | ':' => some (.colon, 1)
  | '.' => some (.dot, 1)
  | '-' => some (.unary .minus, 1)
  | '?' => some (.question, 1)
  | '>' => some (.binary .gt, 1)
  | '<' => some (.binary .lt, 1)
  | '(' => some (.leftParen, 1)
  | ')' => some (.rightParen, 1)
  | _ => none

/-- Behind its first character, what a symbol is depends on the next character, and for a quotation
mark on where the string ends. -/
theorem symbol_congr {c : Char} {s s' : Text}
    (hhead : ∀ a ∈ ['=', '|', '&'], (s.head? = some a ↔ s'.head? = some a))
    (hclosing : ∀ q : Quote, c = q.char →
      StringLiteral.closing? q.char s = StringLiteral.closing? q.char s') :
    symbol c s = symbol c s' := by
  unfold symbol
  split
  · simp only [hhead '=' (by simp)]
  · simp only [hhead '|' (by simp)]
  · simp only [hhead '&' (by simp)]
  · simp only [hhead '=' (by simp)]
  · rw [show StringLiteral.closing? '"' s = _ from hclosing .double rfl]
    rfl
  · rw [show StringLiteral.closing? '\'' s = _ from hclosing .single rfl]
    rfl
  all_goals rfl

/-- The token at the start of a text, by its first character. -/
def dispatch : Text → Option (Kind × Nat)
  | [] => none
  | c :: s =>
    if Text.isWhite c then some (.whitespace, ((c :: s).takeWhile Text.isWhite).length)
    else if c.isAlpha then
      let w := (c :: s).takeWhile isNameChar
      some (wordKind w, w.length)
    else if c.isDigit then some (.integer, ((c :: s).takeWhile Char.isDigit).length)
    else symbol c s

/-! ## The table finds the same -/

namespace Rule

theorem word_eq_none_iff {w s : Text} : word w s = none ↔ ¬w <+: s := by
  rw [word, ← List.isPrefixOf_iff_prefix]
  split <;> simp_all

theorem word_cons_of_ne {a c : Char} (h : a ≠ c) (w s : Text) : word (a :: w) (c :: s) = none := by
  rw [word_eq_none_iff, List.cons_prefix_cons]
  exact fun hprefix ↦ h hprefix.1

theorem word_pair_of_ne {b : Char} {s : Text} (h : s.head? ≠ some b) (a : Char) :
    word [a, b] (a :: s) = none := by
  rw [word_eq_none_iff, List.cons_prefix_cons]
  rintro ⟨-, t, rfl⟩
  exact h rfl

/-- A rule for several words finds none of them if each starts with another character or is a pair
whose second character does not follow. -/
theorem oneOf_eq_none {a b : Char} {s : Text} (h : s.head? ≠ some b) {ws : List Text}
    (hws : ∀ w ∈ ws, w = [a, b] ∨ w ≠ [] ∧ w.head? ≠ some a) : oneOf ws (a :: s) = none := by
  rw [oneOf, List.findSome?_eq_none_iff]
  intro w hw
  rcases hws w hw with rfl | ⟨hne, hhead⟩
  · exact word_pair_of_ne h a
  · obtain ⟨c, t, rfl⟩ := List.exists_cons_of_ne_nil hne
    exact word_cons_of_ne (by simpa using hhead) t s

theorem run_of_neg {p : Char → Bool} {c : Char} (h : p c = false) (s : Text) :
    run p (c :: s) = none := by
  simp [run, h]

theorem run_of_pos {p : Char → Bool} {c : Char} (h : p c = true) (s : Text) :
    run p (c :: s) = some ((c :: s).takeWhile p).length := by
  simp [run, h]

end Rule

theorem recognize_white {c : Char} (h : Text.isWhite c = true) (s : Text) :
    recognize (c :: s) = some (.whitespace, ((c :: s).takeWhile Text.isWhite).length) := by
  simp only [recognize, table, List.findSome?_cons, find?, run_of_pos h, Option.map_some]
  rfl

theorem recognize_digit {c : Char} (h : c.isDigit = true) (s : Text) :
    recognize (c :: s) = some (.integer, ((c :: s).takeWhile Char.isDigit).length) := by
  have hwhite : Text.isWhite c = false := Text.isWhite_of_isAlphanum (by simp [Char.isAlphanum, h])
  have hne : ∀ a : Char, a.isDigit = false → a ≠ c := by
    rintro a ha rfl
    simp [ha] at h
  simp [recognize, table, find?, oneOf, run_of_neg hwhite, run_of_pos h, word_cons_of_ne (hne _ _),
    StringLiteral.width?, Quote.char, (hne _ _).symm]

/-- A word of the language is found first, and then the rule for names has its say. -/
theorem recognize_keyword :
    ∀ p ∈ keywords, ∀ t, recognize (p.1 ++ t) =
      some (better (p.1 ++ t) (p.2, p.1.length) .identifier) := by
  simp only [keywords, List.forall_mem_cons, List.not_mem_nil, false_implies, implies_true,
    and_true]
  exact ⟨fun _ ↦ rfl, fun _ ↦ rfl, fun _ ↦ rfl, fun _ ↦ rfl, fun _ ↦ rfl, fun _ ↦ rfl, fun _ ↦ rfl,
    fun _ ↦ rfl, fun _ ↦ rfl, fun _ ↦ rfl⟩

theorem recognize_word {c : Char} (h : c.isAlpha = true) (s : Text) :
    recognize (c :: s) = some (wordKind ((c :: s).takeWhile isNameChar),
      ((c :: s).takeWhile isNameChar).length) := by
  have hname : widthOf .identifier (c :: s) = some ((c :: s).takeWhile isNameChar).length := by
    have hc : isNameChar c = true := by simp [isNameChar, Char.isAlphanum, h]
    change name (c :: s) = _
    simp [name, h, hc]
  by_cases hword : ∃ p ∈ keywords, p.1 <+: c :: s
  · obtain ⟨p, hp, t, ht⟩ := hword
    obtain ⟨-, -, -, -, hchars⟩ := Text.exists_cons_of_isName (isName_of_mem_keywords p hp)
    have hrun : (c :: s).takeWhile isNameChar = p.1 ++ t.takeWhile isNameChar := by
      rw [← ht, List.takeWhile_append_of_pos hchars]
    rw [← ht, recognize_keyword p hp, ht, better, hname, hrun]
    by_cases hmore : t.takeWhile isNameChar = []
    · simp [hmore, wordKind_of_mem p hp]
    · have hlt : p.1.length < (p.1 ++ t.takeWhile isNameChar).length := by
        rw [List.length_append]
        exact Nat.lt_add_of_pos_right (List.length_pos_iff.mpr hmore)
      simp only [if_pos hlt, wordKind_append hp hmore]
  · have hnone : ∀ p ∈ keywords, word p.1 (c :: s) = none :=
      fun p hp ↦ word_eq_none_iff.mpr fun hprefix ↦ hword ⟨p, hp, hprefix⟩
    have hidentifier : wordKind ((c :: s).takeWhile isNameChar) = .identifier :=
      wordKind_of_notMem fun p hp hpw ↦ hword ⟨p, hp, hpw ▸ List.takeWhile_prefix _⟩
    have hwhite : Text.isWhite c = false :=
      Text.isWhite_of_isAlphanum (by simp [Char.isAlphanum, h])
    have hne : ∀ a : Char, a.isAlpha = false → a ≠ c := by
      rintro a ha rfl
      simp [ha] at h
    have hdigit : c.isDigit = false := Text.isDigit_of_isAlpha h
    have hwidth : name (c :: s) = some ((c :: s).takeWhile isNameChar).length := hname
    simp [keywords] at hnone
    rw [hidentifier]
    simp [recognize, table, find?, oneOf, run_of_neg hwhite, run_of_neg hdigit, hnone, hwidth,
      word_cons_of_ne (hne _ _), StringLiteral.width?, Quote.char, (hne _ _).symm]

theorem recognize_name {w r : Text} (hw : w.isName) (hr : r.Stops isNameChar) :
    recognize (w ++ r) = some (wordKind w, w.length) := by
  obtain ⟨c, t, rfl, hc, hall⟩ := Text.exists_cons_of_isName hw
  rw [List.cons_append, recognize_word hc, ← List.cons_append,
    Text.takeWhile_append_of_stop hall hr]

theorem recognize_numeral {w r : Text} (hw : w.isNumeral) (hr : r.Stops Char.isDigit) :
    recognize (w ++ r) = some (.integer, w.length) := by
  obtain ⟨c, t, rfl, hc, hall⟩ := Text.exists_cons_of_isNumeral hw
  rw [List.cons_append, recognize_digit hc, ← List.cons_append,
    Text.takeWhile_append_of_stop hall hr]

theorem recognize_quote (q : Quote) (s : Text) :
    recognize (q.char :: s) =
      (StringLiteral.closing? q.char s).map fun n ↦ (.string q, n + 1) := by
  have hwidth : StringLiteral.width? q.char (q.char :: s) =
      (StringLiteral.closing? q.char s).map (· + 1) := if_pos rfl
  cases hclosing : StringLiteral.closing? q.char s with
  | none =>
    rw [hclosing] at hwidth
    cases q <;> simp only [recognize, table, List.findSome?_cons, find?, hwidth] <;> rfl
  | some n =>
    rw [hclosing] at hwidth
    cases q <;> simp only [recognize, table, List.findSome?_cons, find?, hwidth] <;> rfl

theorem recognize_bang (s : Text) :
    recognize ('!' :: s) =
      if s.head? = some '=' then some (.binary .notEq, 2) else some (.unary .not, 1) := by
  split
  · obtain ⟨t, rfl⟩ := List.head?_eq_some_iff.mp ‹_›
    rfl
  · have hnotEq : widthOf (.binary .notEq) ('!' :: s) = none := oneOf_eq_none ‹_› (by decide)
    have hfind : recognize ('!' :: s) = some
        (better ('!' :: s) (better ('!' :: s) (.unary .not, 1) (.binary .notEq)) .identifier) := rfl
    rw [hfind, better.eq_def ('!' :: s) (.unary .not, 1), hnotEq]
    rfl

theorem recognize_doubled {c : Char} {op : BinaryOp}
    (h : (c, op) ∈ [('|', .or), ('&', .and), ('=', .eq)]) (s : Text) :
    recognize (c :: s) = if s.head? = some c then some (.binary op, 2) else none := by
  simp only [List.mem_cons, Prod.mk.injEq, List.not_mem_nil, or_false] at h
  split
  · obtain ⟨t, rfl⟩ := List.head?_eq_some_iff.mp ‹_›
    rcases h with ⟨rfl, rfl⟩ | ⟨rfl, rfl⟩ | ⟨rfl, rfl⟩ <;> rfl
  · rename_i hhead
    rcases h with ⟨rfl, rfl⟩ | ⟨rfl, rfl⟩ | ⟨rfl, rfl⟩
    all_goals
      simp (disch := decide) only [recognize, table, List.findSome?_cons, find?,
        oneOf_eq_none hhead]
      rfl

theorem recognize_symbol {c : Char} (hwhite : Text.isWhite c = false) (halpha : c.isAlpha = false)
    (hdigit : c.isDigit = false) (s : Text) : recognize (c :: s) = symbol c s := by
  unfold symbol
  split
  · exact recognize_bang s
  · exact recognize_doubled (by simp) s
  · exact recognize_doubled (by simp) s
  · exact recognize_doubled (by simp) s
  · exact recognize_quote .double s
  · exact recognize_quote .single s
  iterate 9 rfl
  · have hne : ∀ a : Char, a.isAlpha = true → a ≠ c := by
      rintro a ha rfl
      simp [ha] at halpha
    have hsymbol : ∀ a : Char, c ≠ a → a ≠ c := fun _ ↦ Ne.symm
    simp_all [recognize, table, find?, oneOf, run_of_neg, word_cons_of_ne, StringLiteral.width?,
      Quote.char, name]

/-- **The table finds what the first character says.** -/
theorem recognize_eq_dispatch (s : Text) : recognize s = dispatch s := by
  cases s with
  | nil => rfl
  | cons c s =>
    rw [dispatch]
    split
    · exact recognize_white ‹_› s
    · split
      · exact recognize_word ‹_› s
      · split
        · exact recognize_digit ‹_› s
        · exact recognize_symbol (Bool.eq_false_iff.mpr ‹_›) (Bool.eq_false_iff.mpr ‹_›)
            (Bool.eq_false_iff.mpr ‹_›) s

/-- What a token inside an expression can be, by its first character. -/
theorem recognize_cases {c : Char} {s : Text} {k : Kind} {n : Nat}
    (h : recognize (c :: s) = some (k, n)) :
    (Text.isWhite c = true ∧ k = .whitespace ∧ n = ((c :: s).takeWhile Text.isWhite).length) ∨
      (c.isAlpha = true ∧ k = wordKind ((c :: s).takeWhile isNameChar) ∧
        n = ((c :: s).takeWhile isNameChar).length) ∨
      (c.isDigit = true ∧ k = .integer ∧ n = ((c :: s).takeWhile Char.isDigit).length) ∨
      (Text.isWhite c = false ∧ c.isAlpha = false ∧ c.isDigit = false ∧
        symbol c s = some (k, n)) := by
  by_cases hwhite : Text.isWhite c = true
  · rw [recognize_white hwhite] at h
    cases h
    exact .inl ⟨hwhite, rfl, rfl⟩
  by_cases halpha : c.isAlpha = true
  · rw [recognize_word halpha] at h
    cases h
    exact .inr (.inl ⟨halpha, rfl, rfl⟩)
  by_cases hdigit : c.isDigit = true
  · rw [recognize_digit hdigit] at h
    cases h
    exact .inr (.inr (.inl ⟨hdigit, rfl, rfl⟩))
  rw [Bool.not_eq_true] at hwhite halpha hdigit
  rw [recognize_symbol hwhite halpha hdigit] at h
  exact .inr (.inr (.inr ⟨hwhite, halpha, hdigit, h⟩))

end Interpolation.Token
