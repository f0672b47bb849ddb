import Interpolation.Proofs.Token.Strings

/-!
# What the first character of a text says

The rules for tokens inside an expression overlap: a word of the language is also a name, and what
starts with an exclamation mark can be one of two operators. Which of them wins is said by the order
of the table and by the longer rules that each rule gives way to. `Leads` says it without a table,
one clause for each kind of first character. A run of characters is described by what it consists of
and by the character that it stops at, and not by how it is found.

That the clauses fit the table is two things. Where one applies, it says what the table finds
(`Leads.recognize_eq`), so no two of them contradict each other. And one of them applies to every
text (`exists_leads`).
-/

namespace Interpolation.Token

open Rule (isNameChar)

/-! ## Clauses -/

/-- The operators that are a character twice. -/
def doubles : List (Char × BinaryOp) := [('|', .or), ('&', .and), ('=', .eq)]

/-- The tokens that are a character by itself, whatever follows. -/
def singles : List (Char × Kind) :=
  [('}', .closing), (':', .colon), ('.', .dot), ('-', .unary .minus), ('?', .question),
    ('>', .binary .gt), ('<', .binary .lt), ('(', .leftParen), (')', .rightParen)]

/-- The characters that a token can start with, other than white space, letters and digits. -/
def marks : List Char :=
  '!' :: Quote.double.char :: Quote.single.char ::
    (doubles.map Prod.fst ++ singles.map Prod.fst)

/-- What stands at the start of a text inside an expression: a token of some kind and width, or
none. -/
inductive Leads : Text → Option (Kind × Nat) → Prop where
  /-- White space, as much as there is. -/
  | white {w r : Text} (hne : w ≠ []) (hw : ∀ c ∈ w, Text.isWhite c = true)
    (hr : r.Stops Text.isWhite) : Leads (w ++ r) (some (.whitespace, w.length))
  /-- A run of name characters that is a word of the language. -/
  | keyword {p : Text × Kind} {r : Text} (hp : p ∈ keywords) (hr : r.Stops isNameChar) :
    Leads (p.1 ++ r) (some (p.2, p.1.length))
  /-- Any other run of name characters that starts with a letter. -/
  | name {w r : Text} (hw : IsFreeName w) (hr : r.Stops isNameChar) :
    Leads (w ++ r) (some (.identifier, w.length))
  /-- A run of digits. -/
  | integer {w r : Text} (hw : w.isNumeral) (hr : r.Stops Char.isDigit) :
    Leads (w ++ r) (some (.integer, w.length))
  /-- An exclamation mark before an equals sign. -/
  | notEqual {r : Text} : Leads ('!' :: '=' :: r) (some (.binary .notEq, 2))
  /-- Any other exclamation mark. -/
  | not {r : Text} (hr : r.head? ≠ some '=') : Leads ('!' :: r) (some (.unary .not, 1))
  /-- A character that is doubled. -/
  | doubled {c : Char} {op : BinaryOp} {r : Text} (h : (c, op) ∈ doubles) :
    Leads (c :: c :: r) (some (.binary op, 2))
  /-- A character that should be doubled and is not. -/
  | undoubled {c : Char} {op : BinaryOp} {r : Text} (h : (c, op) ∈ doubles)
    (hr : r.head? ≠ some c) : Leads (c :: r) none
  /-- A character by itself. -/
  | single {c : Char} {k : Kind} {r : Text} (h : (c, k) ∈ singles) : Leads (c :: r) (some (k, 1))
  /-- A quotation mark that occurs again. -/
  | string {q : Quote} {r : Text} {n : Nat} (h : q.char ∈ r)
    (hn : StringLiteral.closing? q.char r = some n) :
    Leads (q.char :: r) (some (.string q, n + 1))
  /-- A quotation mark that does not. -/
  | unclosed {q : Quote} {r : Text} (h : q.char ∉ r) : Leads (q.char :: r) none
  /-- Any other character. -/
  | other {c : Char} {r : Text} (hwhite : Text.isWhite c = false) (halpha : c.isAlpha = false)
    (hdigit : c.isDigit = false) (hmark : c ∉ marks) : Leads (c :: r) none

/-! ## A clause that applies is right -/

theorem symbol_eq_none {c : Char} (h : c ∉ marks) (s : Text) : symbol c s = none := by
  unfold symbol
  split
  iterate 15 exact absurd (by decide) h
  rfl

theorem recognize_single {c : Char} {k : Kind} (h : (c, k) ∈ singles) (s : Text) :
    recognize (c :: s) = some (k, 1) := by
  simp only [singles, List.mem_cons, Prod.mk.injEq, List.not_mem_nil, or_false] at h
  rcases h with ⟨rfl, rfl⟩ | ⟨rfl, rfl⟩ | ⟨rfl, rfl⟩ | ⟨rfl, rfl⟩ | ⟨rfl, rfl⟩ | ⟨rfl, rfl⟩ |
    ⟨rfl, rfl⟩ | ⟨rfl, rfl⟩ | ⟨rfl, rfl⟩
  all_goals rfl

theorem Leads.recognize_eq {s : Text} {found : Option (Kind × Nat)} (h : Leads s found) :
    recognize s = found := by
  cases h with
  | @white w r hne hw hr =>
    obtain ⟨c, t, rfl⟩ := List.exists_cons_of_ne_nil hne
    rw [List.cons_append, recognize_white (hw c List.mem_cons_self), ← List.cons_append,
      Text.takeWhile_append_of_stop hw hr]
  | @keyword p r hp hr =>
    rw [recognize_name (isName_of_mem_keywords p hp) hr, wordKind_of_mem p hp]
  | name hw hr => rw [recognize_name hw.1 hr, hw.wordKind_eq]
  | integer hw hr => exact recognize_numeral hw hr
  | notEqual => rfl
  | not hr => rw [recognize_bang, if_neg hr]
  | doubled h =>
    rw [recognize_doubled h]
    exact if_pos rfl
  | undoubled h hr => rw [recognize_doubled h, if_neg hr]
  | single h => exact recognize_single h _
  | string h hn =>
    rw [recognize_quote, hn]
    rfl
  | @unclosed q r h =>
    rw [recognize_quote, StringLiteral.closing?, StringLiteral.closingFrom_of_notMem h]
    rfl
  | other hwhite halpha hdigit hmark =>
    rw [recognize_symbol hwhite halpha hdigit, symbol_eq_none hmark]

/-! ## Some clause applies -/

theorem exists_leads_of_isAlpha {c : Char} (h : c.isAlpha = true) (s : Text) :
    ∃ found, Leads (c :: s) found := by
  obtain ⟨w, r, rfl, hw, hr⟩ := Text.exists_run isNameChar s
  have hname : Text.isName (c :: w) = true :=
    Bool.and_eq_true_iff.mpr ⟨h, List.all_eq_true.mpr hw⟩
  by_cases hword : c :: w ∈ keywords.map Prod.fst
  · obtain ⟨p, hp, hpw⟩ := List.mem_map.mp hword
    rw [← List.cons_append, ← hpw]
    exact ⟨_, .keyword hp hr⟩
  · exact ⟨_, .name (w := c :: w) ⟨hname, hword⟩ hr⟩

theorem exists_leads_of_mem_marks {c : Char} (h : c ∈ marks) (s : Text) :
    ∃ found, Leads (c :: s) found := by
  have hquote : ∀ q : Quote, ∃ found, Leads (q.char :: s) found := by
    intro q
    by_cases hmem : q.char ∈ s
    · obtain ⟨body, rest, -, hclosing⟩ := StringLiteral.closing?_of_mem q.char_ne_backslash hmem
      exact ⟨_, .string hmem hclosing⟩
    · exact ⟨_, .unclosed hmem⟩
  rcases List.mem_cons.mp h with rfl | h
  · by_cases hhead : s.head? = some '='
    · obtain ⟨r, rfl⟩ := List.head?_eq_some_iff.mp hhead
      exact ⟨_, .notEqual⟩
    · exact ⟨_, .not hhead⟩
  rcases List.mem_cons.mp h with rfl | h
  · exact hquote .double
  rcases List.mem_cons.mp h with rfl | h
  · exact hquote .single
  rcases List.mem_append.mp h with h | h
  · obtain ⟨⟨c, op⟩, hop, rfl⟩ := List.mem_map.mp h
    by_cases hhead : s.head? = some c
    · obtain ⟨r, rfl⟩ := List.head?_eq_some_iff.mp hhead
      exact ⟨_, .doubled hop⟩
    · exact ⟨_, .undoubled hop hhead⟩
  · obtain ⟨⟨c, k⟩, hk, rfl⟩ := List.mem_map.mp h
    exact ⟨_, .single hk⟩

theorem exists_leads (c : Char) (s : Text) : ∃ found, Leads (c :: s) found := by
  by_cases hwhite : Text.isWhite c = true
  · obtain ⟨w, r, rfl, hw, hr⟩ := Text.exists_run Text.isWhite s
    exact ⟨_, .white (w := c :: w) (List.cons_ne_nil c w)
      (List.forall_mem_cons.mpr ⟨hwhite, hw⟩) hr⟩
  by_cases halpha : c.isAlpha = true
  · exact exists_leads_of_isAlpha halpha s
  by_cases hdigit : c.isDigit = true
  · obtain ⟨w, r, rfl, hw, hr⟩ := Text.exists_run Char.isDigit s
    have hnumeral : Text.isNumeral (c :: w) = true :=
      List.all_eq_true.mpr (List.forall_mem_cons.mpr ⟨hdigit, hw⟩)
    exact ⟨_, .integer (w := c :: w) hnumeral hr⟩
  by_cases hmark : c ∈ marks
  · exact exists_leads_of_mem_marks hmark s
  · rw [Bool.not_eq_true] at hwhite halpha hdigit
    exact ⟨none, .other hwhite halpha hdigit hmark⟩

/-- **A text is read by its first character.** For every text that is not empty, each rule of the
table takes what the first way to match its pattern takes, and what the ordered table with its
longer rules finds is what the clauses say, and they say one thing. -/
theorem recognize_eq_iff_leads (c : Char) (s : Text) (found : Option (Kind × Nat)) :
    List.Forall₂ (fun p r ↦ Pattern.width? p (c :: s) = Rule.width r (c :: s)) Pattern.table
        Rule.table ∧
      (recognize (c :: s) = found ↔ Leads (c :: s) found) := by
  refine ⟨Pattern.forall₂_table.imp fun p r hwidth ↦ hwidth (c :: s), ?_, Leads.recognize_eq⟩
  rintro rfl
  obtain ⟨found, hleads⟩ := exists_leads c s
  rwa [hleads.recognize_eq]

end Interpolation.Token
