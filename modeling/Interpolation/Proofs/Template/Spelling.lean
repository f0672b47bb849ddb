import Interpolation.Proofs.Names
import Interpolation.Proofs.Template.Exact
import Interpolation.Proofs.Token.Dispatch
import Interpolation.Proofs.Token.Run
import Mathlib.Data.List.Chain

/-!
# The spelling of a template

Written as text, a template is its literals as they are and its expressions between delimiters, with
one space between the words of an expression. Most operators can be written in two ways, so a
template has many spellings. All of them are scanned and read back as the template itself, provided
that its words are well formed: its names are names and no words of the language, its literals are
not empty, stand apart and hold no brace, and the quotation mark that ends a string is the first one
in it that can.

The last condition is the delicate one. Where a string ends depends on the whole text that follows,
up to the end of the template, unless a mark that can end it comes first.
-/

namespace Interpolation

open Token (keywords wordKind recognize)
open Token.Rule (isNameChar)

/-! ## Spellings -/

def UnaryOp.spellings : UnaryOp → List Text
  | .minus => ["-".toList]
  | .not => ["!".toList, "not".toList]
  | .empty => ["empty".toList]

def BinaryOp.spellings : BinaryOp → List Text
  | .and => ["&&".toList, "and".toList]
  | .or => ["||".toList, "or".toList]
  | .eq => ["==".toList, "eq".toList]
  | .notEq => ["!=".toList, "ne".toList]
  | .gt => [">".toList, "gt".toList]
  | .lt => ["<".toList, "lt".toList]

def Atom.spelling : Atom → Text
  | .boolean true => "true".toList
  | .boolean false => "false".toList
  | .integer digits => digits
  | .string raw => raw
  | .name n => n

/-- The ways to write a sign inside an expression. -/
def Sign.spellings : Sign → List Text
  | .atom a => [a.spelling]
  | .bare .dot => [['.']]
  | .bare .question => [['?']]
  | .bare .colon => [[':']]
  | .bare (.unary op) => op.spellings
  | .bare (.binary op) => op.spellings
  | _ => []

/-- The text writes the expression, word by word. -/
def Expr.Spelled (e : Expr) (s : Text) : Prop :=
  ∃ words, List.Forall₂ (fun sign w ↦ w ∈ Sign.spellings sign) e.signs words ∧
    s = [' '].intercalate words

def Item.Spelled : Item → Text → Prop
  | .literal text, s => s = text
  | .embedded d e, s => ∃ t, e.Spelled t ∧ s = d.mark :: '{' :: (t ++ ['}'])

/-- The text writes the template, item by item. -/
def Template.Spelled : Template → Text → Prop
  | [], s => s = []
  | i :: x, s => ∃ t u, i.Spelled t ∧ Template.Spelled x u ∧ s = t ++ u

/-! ## Well-formed templates -/

/-- Whether the mark `q` at the end of the text is the first one in it that is not the second
character of a pair, when a backslash and the character behind it are read as a pair from left to
right. A backslash does not pair with a line feed. -/
def endsAtFirstMark (q : Char) : Text → Bool
  | [] => false
  | [c] => c = q
  | c :: d :: s =>
    if c = '\\' ∧ d ≠ '\n' then endsAtFirstMark q s else c ≠ q && endsAtFirstMark q (d :: s)

/-- Whether the text is a string between two quotation marks, of which the second is the first one
that can end it. -/
def isQuoted : Text → Bool
  | [] => false
  | c :: s => (c = Quote.double.char || c = Quote.single.char) && endsAtFirstMark c s

/-- The names and numbers among the words of the sign have the form that the scanner gives them. -/
def Sign.Lexed : Sign → Prop
  | .atom (.integer digits) => digits.isNumeral
  | .atom (.name n) => Token.IsFreeName n
  | _ => True

/-- The words of the sign are words of its kind. -/
def Sign.WellFormed : Sign → Prop
  | .atom (.string raw) => isQuoted raw
  | sign => sign.Lexed

instance : (sign : Sign) → Decidable sign.WellFormed
  | .atom (.integer digits) => inferInstanceAs (Decidable (digits.isNumeral = true))
  | .atom (.string raw) => inferInstanceAs (Decidable (isQuoted raw = true))
  | .atom (.name n) => inferInstanceAs (Decidable (Token.IsFreeName n))
  | .atom (.boolean _) | .literal _ | .bare _ => inferInstanceAs (Decidable True)

/-- Literal text is not empty and holds no brace. An expression nests to the right, and its words,
the names of properties among them, are well formed. -/
def Item.WellFormed : Item → Prop
  | .literal text => text ≠ [] ∧ '{' ∉ text ∧ '}' ∉ text
  | .embedded _ e => e.RightNested ∧ ∀ sign ∈ e.signs, sign.WellFormed

instance : (i : Item) → Decidable i.WellFormed
  | .literal text => inferInstanceAs (Decidable (text ≠ [] ∧ '{' ∉ text ∧ '}' ∉ text))
  | .embedded _ e =>
    inferInstanceAs (Decidable (e.RightNested ∧ ∀ sign ∈ e.signs, sign.WellFormed))

def Item.isLiteral : Item → Bool
  | .literal _ => true
  | .embedded _ _ => false

/-- The items are well formed, and no literal text stands next to another. -/
def Template.WellFormed (x : Template) : Prop :=
  (∀ i ∈ x, i.WellFormed) ∧ x.IsChain fun i j ↦ ¬(i.isLiteral ∧ j.isLiteral)

instance (x : Template) : Decidable (Template.WellFormed x) :=
  inferInstanceAs (Decidable ((∀ i ∈ x, i.WellFormed) ∧
    x.IsChain fun i j ↦ ¬(i.isLiteral ∧ j.isLiteral)))

/-! ## Words

Behind a word of an expression stands a space or the closing brace. -/

/-- The text starts with a space or a closing brace. -/
def EndsWord (r : Text) : Prop := ∃ t, r = ' ' :: t ∨ r = '}' :: t

theorem EndsWord.stops {r : Text} (hr : EndsWord r) : r.Stops isNameChar := by
  obtain ⟨t, rfl | rfl⟩ := hr <;> simp only [Text.Stops, List.head?_cons, Option.mem_some_iff] <;>
    rintro c rfl <;> rfl

/-- The first mark that can end a string ends it, whatever follows. -/
theorem closingFrom_append {q : Char} (hq : q ≠ '\\') {s : Text} (h : endsAtFirstMark q s)
    (r : Text) (width : Nat) (fallback : Option Nat) :
    StringLiteral.closingFrom q width fallback (s ++ r) = some (width + s.length) := by
  fun_induction endsAtFirstMark q s generalizing width fallback with
  | case1 => cases h
  | case2 c =>
    obtain rfl : c = q := by simpa using h
    cases r with
    | nil => simp [StringLiteral.closingFrom]
    | cons d r => simp [StringLiteral.closingFrom, StringLiteral.isPair, hq]
  | case3 c d s hpair ih =>
    rw [List.cons_append, List.cons_append, StringLiteral.closingFrom, if_pos (by
      simpa [StringLiteral.isPair] using hpair), ih h]
    simp only [List.length_cons, Option.some.injEq]
    omega
  | case4 c d s hpair ih =>
    simp only [Bool.and_eq_true, decide_eq_true_eq] at h
    rw [List.cons_append, List.cons_append, StringLiteral.closingFrom, if_neg (by
      simpa [StringLiteral.isPair] using hpair), if_neg h.1, ← List.cons_append, ih h.2]
    simp only [List.length_cons, Option.some.injEq]
    omega

theorem recognize_quoted {w : Text} (hw : isQuoted w) (r : Text) :
    ∃ q : Quote, recognize (w ++ r) = some (.string q, w.length) := by
  cases w with
  | nil => cases hw
  | cons c s =>
    simp only [isQuoted, Bool.and_eq_true, Bool.or_eq_true, decide_eq_true_eq] at hw
    obtain ⟨q, rfl⟩ : ∃ q : Quote, q.char = c := by
      rcases hw.1 with rfl | rfl
      · exact ⟨.double, rfl⟩
      · exact ⟨.single, rfl⟩
    refine ⟨q, ?_⟩
    rw [List.cons_append, Token.recognize_quote, StringLiteral.closing?,
      closingFrom_append q.char_ne_backslash hw.2, Nat.zero_add]
    rfl

/-- The operators and separators that are no words, but for the negation. -/
def symbols : List (Text × Token.Kind) :=
  [(['.'], .dot), (['?'], .question), ([':'], .colon), (['-'], .unary .minus),
    (['&', '&'], .binary .and), (['|', '|'], .binary .or), (['=', '='], .binary .eq),
    (['!', '='], .binary .notEq), (['>'], .binary .gt), (['<'], .binary .lt)]

theorem recognize_symbols :
    ∀ p ∈ symbols, ∀ r, recognize (p.1 ++ r) = some (p.2, p.1.length) := by
  simp only [symbols, List.forall_mem_cons, List.not_mem_nil, false_implies, implies_true, and_true]
  exact ⟨fun _ ↦ rfl, fun _ ↦ rfl, fun _ ↦ rfl, fun _ ↦ rfl, fun _ ↦ rfl, fun _ ↦ rfl, fun _ ↦ rfl,
    fun _ ↦ rfl, fun _ ↦ rfl, fun _ ↦ rfl⟩

theorem mem_of_mem_spellings {k : Token.Kind} :
    ∀ w ∈ (Sign.bare k).spellings, (w, k) ∈ (['!'], .unary .not) :: (symbols ++ keywords) := by
  cases k with
  | unary op => cases op <;> decide
  | binary op => cases op <;> decide
  | dot => decide
  | question => decide
  | colon => decide
  | _ => simp [Sign.spellings]

theorem isBare_of_mem_spellings {k : Token.Kind} {w : Text} (hw : w ∈ (Sign.bare k).spellings) :
    k.isBare := by
  revert hw
  cases k <;> simp [Sign.spellings, Token.Kind.isBare]

theorem recognize_bare {k : Token.Kind} {w r : Text} (hw : w ∈ (Sign.bare k).spellings)
    (hr : EndsWord r) : recognize (w ++ r) = some (k, w.length) := by
  rcases List.mem_cons.mp (mem_of_mem_spellings w hw) with h | h
  · cases h
    obtain ⟨t, rfl | rfl⟩ := hr <;> rfl
  · rcases List.mem_append.mp h with h | h
    · exact recognize_symbols _ h r
    · rw [Token.recognize_name (Token.isName_of_mem_keywords _ h) hr.stops,
        Token.wordKind_of_mem _ h]

theorem recognize_atom {a : Atom} (ha : (Sign.atom a).WellFormed) {r : Text} (hr : EndsWord r) :
    ∃ k, recognize (a.spelling ++ r) = some (k, a.spelling.length) ∧
      ∀ m n, Token.sign ⟨k, a.spelling, m, n⟩ = .atom a := by
  cases a with
  | boolean b =>
    refine ⟨.boolean, ?_, ?_⟩
    · cases b <;> exact Token.recognize_name (by decide) hr.stops
    · cases b <;> intros <;> rfl
  | integer digits =>
    have hstops := hr.stops.mono fun _ ↦ Text.isNameChar_of_isDigit
    exact ⟨.integer, Token.recognize_numeral ha hstops, fun _ _ ↦ rfl⟩
  | string raw =>
    obtain ⟨q, hq⟩ := recognize_quoted ha r
    exact ⟨.string q, hq, fun _ _ ↦ rfl⟩
  | name n =>
    refine ⟨.identifier, ?_, fun _ _ ↦ rfl⟩
    have hname : Token.IsFreeName n := ha
    rw [Atom.spelling, Token.recognize_name hname.1 hr.stops, hname.wordKind_eq]

/-- **A word of an expression is scanned as one token, which has its sign.** -/
theorem recognize_spelling {sign : Sign} {w r : Text} (hsign : sign.WellFormed)
    (hw : w ∈ sign.spellings) (hr : EndsWord r) :
    ∃ k, recognize (w ++ r) = some (k, w.length) ∧ ∀ m n, Token.sign ⟨k, w, m, n⟩ = sign := by
  cases sign with
  | literal text => simp [Sign.spellings] at hw
  | atom a =>
    obtain rfl : w = a.spelling := by simpa [Sign.spellings] using hw
    exact recognize_atom hsign hr
  | bare k =>
    exact ⟨k, recognize_bare hw hr, fun _ _ ↦
      Token.sign_eq_bare_iff.mpr ⟨rfl, isBare_of_mem_spellings hw⟩⟩

theorem inner_of_mem_spellings {sign : Sign} {w : Text} {t : Token} (hw : w ∈ sign.spellings)
    (ht : t.sign = sign) :
    t.kind ≠ .whitespace ∧ (∀ d, t.kind ≠ .opening d) ∧ t.kind ≠ .closing := by
  have hne : ∀ k : Token.Kind, (Sign.bare k).spellings = [] → k.isBare → t.kind ≠ k := by
    intro k hk hbare hkind
    rw [← ht, Token.sign_eq_bare_iff.mpr ⟨hkind, hbare⟩, hk] at hw
    cases hw
  exact ⟨hne _ rfl rfl, fun d ↦ hne _ rfl rfl, hne _ rfl rfl⟩

/-! ## Scanning a spelled template -/

section

variable {d : Delimiter} {n : Nat} {ms : List Mode} {r : Text}

theorem ne_nil_of_recognize {w : Text} {k : Token.Kind}
    (h : recognize (w ++ r) = some (k, w.length)) : w ≠ [] := by
  rintro rfl
  exact absurd (Token.recognize_pos h) (Nat.lt_irrefl 0)

theorem stops_isWhite_of_recognize {s : Text} {k : Token.Kind} {width : Nat}
    (h : recognize s = some (k, width)) (hk : k ≠ .whitespace) : s.Stops Text.isWhite := by
  intro c hc
  obtain ⟨t, rfl⟩ := List.head?_eq_some_iff.mp hc
  rw [Bool.eq_false_iff]
  intro hwhite
  rw [Token.recognize_white hwhite] at h
  cases h
  exact hk rfl

theorem step_space {s : Text} (h : s.Stops Text.isWhite) :
    Scanner.step ⟨' ' :: s, n, .inside d :: ms⟩ =
      .ok (some (⟨.whitespace, [' '], .inside d, n⟩,
        ⟨s, n + Text.byteSize [' '], .inside d :: ms⟩)) := by
  have hrun : (([' '] ++ s).takeWhile Text.isWhite) = [' '] :=
    Text.takeWhile_append_of_stop (List.forall_mem_singleton.mpr rfl) h
  have hrec : recognize ([' '] ++ s) = some (.whitespace, [' '].length) := by
    rw [List.singleton_append, Token.recognize_white (by decide), ← List.singleton_append, hrun]
  exact Scanner.step_inside (by simp) hrec (by simp) (by simp) n d ms

theorem stops_isWhite_of_mem_spellings {sign : Sign} {w : Text}
    (hsign : sign.WellFormed) (hw : w ∈ sign.spellings) (s : Text) :
    (w ++ s).Stops Text.isWhite := by
  obtain ⟨k, hrec, hk⟩ := recognize_spelling hsign hw ⟨[], .inr rfl⟩
  have hstops := stops_isWhite_of_recognize hrec (inner_of_mem_spellings hw (hk .outer 0)).1
  obtain ⟨c, t, rfl⟩ := List.exists_cons_of_ne_nil (ne_nil_of_recognize hrec)
  exact hstops

theorem step_word {sign : Sign} {w : Text} (hsign : sign.WellFormed)
    (hw : w ∈ sign.spellings) (hr : EndsWord r) (n : Nat) (d : Delimiter) (ms : List Mode) :
    ∃ t : Token, t.sign = sign ∧ t.kind ≠ .whitespace ∧
      Scanner.step ⟨w ++ r, n, .inside d :: ms⟩ =
        .ok (some (t, ⟨r, n + Text.byteSize w, .inside d :: ms⟩)) := by
  obtain ⟨k, hrec, hk⟩ := recognize_spelling hsign hw hr
  obtain ⟨hwhite, hopening, hclosing⟩ := inner_of_mem_spellings hw (hk (.inside d) n)
  exact ⟨⟨k, w, .inside d, n⟩, hk _ _, hwhite,
    Scanner.step_inside (ne_nil_of_recognize hrec) hrec hopening hclosing n d ms⟩

/-- The words of an expression are scanned one by one, up to the closing brace. -/
theorem run_words {signs : List Sign} {words : List Text}
    (hwords : List.Forall₂ (fun sign w ↦ w ∈ Sign.spellings sign) signs words)
    (hsigns : ∀ sign ∈ signs, sign.WellFormed) (r : Text) (n : Nat) (d : Delimiter)
    (ms : List Mode) :
    ∃ ts n', Scanner.Run ⟨[' '].intercalate words ++ '}' :: r, n, .inside d :: ms⟩ ts
        ⟨'}' :: r, n', .inside d :: ms⟩ ∧
      (ts.filter (·.kind ≠ .whitespace)).map Token.sign = signs := by
  induction hwords generalizing n with
  | nil => exact ⟨[], n, .refl _, rfl⟩
  | @cons sign w signs words hw hrest ih =>
    obtain ⟨hsign, hsigns'⟩ := List.forall_mem_cons.mp hsigns
    cases hrest with
    | nil =>
      obtain ⟨t, ht, hwhite, hstep⟩ := step_word hsign hw ⟨r, .inr rfl⟩ n d ms
      rw [List.intercalate_singleton]
      exact ⟨[t], _, .step hstep (.refl _), by simp [hwhite, ht]⟩
    | @cons sign' w' signs words hw' hrest =>
      obtain ⟨t, ht, hwhite, hstep⟩ := step_word hsign hw
        ⟨[' '].intercalate (w' :: words) ++ '}' :: r, .inl rfl⟩ n d ms
      obtain ⟨ts, n', hrun, hts⟩ := ih hsigns' (n + Text.byteSize w + Text.byteSize [' '])
      have hsign' := hsigns' sign' List.mem_cons_self
      have hstops : Text.Stops Text.isWhite ([' '].intercalate (w' :: words) ++ '}' :: r) := by
        cases words with
        | nil =>
          rw [List.intercalate_singleton]
          exact stops_isWhite_of_mem_spellings hsign' hw' _
        | cons w'' words =>
          rw [List.intercalate_cons_cons, List.append_assoc, List.append_assoc]
          exact stops_isWhite_of_mem_spellings hsign' hw' _
      rw [List.intercalate_cons_cons, List.append_assoc, List.append_assoc]
      refine ⟨_, n', .step hstep (.step (step_space hstops) hrun), ?_⟩
      rw [List.filter_cons_of_pos (by simpa using hwhite), List.filter_cons_of_neg (by simp),
        List.map_cons, ht, hts]

theorem run_embedded {e : Expr} {s : Text} (hs : e.Spelled s)
    (he : ∀ sign ∈ e.signs, sign.WellFormed) (d : Delimiter) (r : Text) (n : Nat)
    (ms : List Mode) :
    ∃ ts n', Scanner.Run ⟨d.mark :: '{' :: (s ++ '}' :: r), n, .outer :: ms⟩ ts
        ⟨r, n', .outer :: ms⟩ ∧
      (ts.filter (·.kind ≠ .whitespace)).map Token.sign = (Item.embedded d e).signs := by
  obtain ⟨words, hwords, rfl⟩ := hs
  have hopening := Scanner.step_opening d ([' '].intercalate words ++ '}' :: r) n ms
  obtain ⟨ts, n', hrun, hts⟩ :=
    run_words hwords he r (n + Text.byteSize [d.mark, '{']) d (.outer :: ms)
  have hclosing := Scanner.step_closing r n' d .outer ms
  refine ⟨_, _, .step hopening (hrun.trans (.step hclosing (.refl _))), ?_⟩
  rw [List.filter_cons_of_pos (by simp), List.filter_append, List.map_cons, List.map_append, hts]
  rfl

end

theorem endsLiteral_of_spelled {x : Template} {s : Text} (hs : Template.Spelled x s)
    (hx : ∀ i ∈ x.head?, ¬i.isLiteral) : Scanner.EndsLiteral s := by
  cases x with
  | nil => exact .inl hs
  | cons i x =>
    obtain ⟨t, u, ht, -, rfl⟩ := hs
    cases i with
    | literal text => exact absurd rfl (hx _ rfl)
    | embedded d e =>
      obtain ⟨v, -, rfl⟩ := ht
      exact .inr ⟨d, _, rfl⟩

theorem run_template {x : Template} {s : Text} (hx : Template.WellFormed x)
    (hs : Template.Spelled x s) (n : Nat) :
    ∃ ts n', Scanner.Run ⟨s, n, [.outer]⟩ ts ⟨[], n', [.outer]⟩ ∧
      (ts.filter (·.kind ≠ .whitespace)).map Token.sign = Template.signs x := by
  induction x generalizing s n with
  | nil =>
    obtain rfl : s = [] := hs
    exact ⟨[], n, .refl _, rfl⟩
  | cons i x ih =>
    obtain ⟨t, u, ht, hu, rfl⟩ := hs
    obtain ⟨hi, hitems⟩ := List.forall_mem_cons.mp hx.1
    obtain ⟨hhead, hapart⟩ := List.isChain_cons.mp hx.2
    cases i with
    | literal text =>
      obtain rfl : t = text := ht
      have hends : Scanner.EndsLiteral u :=
        endsLiteral_of_spelled hu fun j hj hliteral ↦ hhead j hj ⟨rfl, hliteral⟩
      have hstep := Scanner.step_literal hi.1 hi.2 hends n []
      obtain ⟨ts, n', hrun, hts⟩ := ih ⟨hitems, hapart⟩ hu (n + Text.byteSize t)
      refine ⟨_, n', .step hstep hrun, ?_⟩
      rw [List.filter_cons_of_pos (by simp), List.map_cons, hts]
      rfl
    | embedded d e =>
      obtain ⟨v, hv, rfl⟩ := ht
      obtain ⟨ts, m, hrun, hts⟩ := run_embedded hv hi.2 d u n []
      obtain ⟨us, n', hrun', hus⟩ := ih ⟨hitems, hapart⟩ hu m
      refine ⟨ts ++ us, n', ?_, ?_⟩
      · simpa using hrun.trans hrun'
      · rw [List.filter_append, List.map_append, hts, hus, Template.signs_cons]

/-- **Every spelling of a well-formed template is scanned and read back as that template**, under
every depth limit that its expressions stay within. -/
theorem parse_tokenize_of_spelled {limit : Nat} {x : Template} {s : Text}
    (hx : Template.WellFormed x) (hlimit : Template.NestsWithin limit x)
    (hs : Template.Spelled x s) :
    ∃ ts, tokenize s = .ok ts ∧ parse limit ts = .ok x := by
  obtain ⟨ts, n, hrun, hsigns⟩ := run_template hx hs 0
  -- The reader is fixed by the signs alone, so the positions in the text need not be followed.
  refine ⟨_, Scanner.tokenize_of_run hrun rfl, parse_eq_ok_iff.mpr ⟨hsigns, ?_, hlimit⟩⟩
  intro i hi
  cases i with
  | literal text => trivial
  | embedded d e => exact (hx.1 _ hi).1

/-- Text that ends in half a delimiter, both spellings of an operator, and a string that holds a
quotation mark and a brace: `a##{! b . c and "d\"}" ? not 1 : true}`. -/
theorem parse_tokenize_of_spelled_string :
    let x : Template :=
      [.literal ['a', '#'], .embedded .deferred (.unary .not (.binary .and
        (.path ⟨.name ['b'], [['c']]⟩) (.ternary (.path ⟨.string "\"d\\\"\x7d\"".toList, []⟩)
          (.unary .not (.path ⟨.integer ['1'], []⟩)) (.path ⟨.boolean true, []⟩))))]
    ∃ ts, tokenize "a##\x7b! b . c and \"d\\\"\x7d\" ? not 1 : true\x7d".toList = .ok ts ∧
      parse 5 ts = .ok x := by
  intro x
  refine parse_tokenize_of_spelled (by decide) (by decide) ?_
  refine ⟨['a', '#'], _, rfl, ⟨_, [], ⟨_, ⟨["!".toList, ['b'], ['.'], ['c'], "and".toList,
    "\"d\\\"\x7d\"".toList, ['?'], "not".toList, ['1'], [':'], "true".toList], ?_, rfl⟩, rfl⟩,
    rfl, rfl⟩, by decide⟩
  simp [Expr.signs, Path.signs, propertySigns, Sign.spellings, Atom.spelling, UnaryOp.spellings,
    BinaryOp.spellings]

end Interpolation
