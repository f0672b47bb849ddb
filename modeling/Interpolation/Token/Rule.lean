import Interpolation.Text.White
import Interpolation.Token.Basic
import Interpolation.Token.StringLiteral

/-!
# The rules for tokens inside an expression

Inside an expression a token is found by a table of rules in order of priority. A rule says how many
characters it takes at the start of a text. The first rule that takes any gives the token, unless
one of the rules that it names as *longer* takes more: the word `and` is an operator, but in
`android` the rule for names takes the whole word.

Every rule takes at least one character (`Rule.forward_of_mem_table`), so that a scanner which
follows the table moves forward.
-/

namespace Interpolation.Token

/-- A rule of the table. -/
structure Rule where
  /-- The kind of the tokens that the rule finds. -/
  kind : Kind
  /-- The number of characters that the rule takes at the start of a text. -/
  width : Text → Option Nat
  /-- The kinds whose rules go first where they take more characters. -/
  longer : List Kind

namespace Rule

/-! ## What a rule can take -/

/-- A run of characters of a class, as long as possible and not empty. -/
def run (p : Char → Bool) (s : Text) : Option Nat :=
  let n := (s.takeWhile p).length
  if n = 0 then none else some n

def word (w s : Text) : Option Nat := if w.isPrefixOf s then some w.length else none

/-- The first of several words that the text starts with. -/
def oneOf (ws : List Text) (s : Text) : Option Nat := ws.findSome? fun w ↦ word w s

/-- Whether a character can stand in a name after its first character. -/
def isNameChar (c : Char) : Bool := c.isAlphanum || c = '_'

/-- A name: a letter, and then letters, digits and underscores, as many as possible. Letters and
digits are those of ASCII. -/
def name : Text → Option Nat
  | [] => none
  | c :: s => if c.isAlpha then some ((s.takeWhile isNameChar).length + 1) else none

/-! ## The table -/

/-- The rules in order of priority. -/
def table : List Rule :=
  [⟨.whitespace, run Text.isWhite, []⟩,
    ⟨.boolean, oneOf ["true".toList, "false".toList], [.identifier]⟩,
    ⟨.string .double, StringLiteral.width? Quote.double.char, []⟩,
    ⟨.string .single, StringLiteral.width? Quote.single.char, []⟩,
    ⟨.integer, run Char.isDigit, []⟩,
    ⟨.closing, word ['}'], []⟩,
    ⟨.colon, word [':'], []⟩,
    ⟨.dot, word ['.'], []⟩,
    ⟨.unary .minus, word ['-'], []⟩,
    ⟨.unary .not, oneOf ["!".toList, "not".toList], [.binary .notEq, .identifier]⟩,
    ⟨.unary .empty, word "empty".toList, [.identifier]⟩,
    ⟨.question, word ['?'], []⟩,
    ⟨.binary .or, oneOf ["or".toList, "||".toList], [.identifier]⟩,
    ⟨.binary .and, oneOf ["and".toList, "&&".toList], [.identifier]⟩,
    ⟨.binary .eq, oneOf ["==".toList, "eq".toList], [.identifier]⟩,
    ⟨.binary .notEq, oneOf ["!=".toList, "ne".toList], [.identifier]⟩,
    ⟨.binary .gt, oneOf [">".toList, "gt".toList], [.identifier]⟩,
    ⟨.binary .lt, oneOf ["<".toList, "lt".toList], [.identifier]⟩,
    ⟨.identifier, name, []⟩,
    ⟨.leftParen, word ['('], []⟩,
    ⟨.rightParen, word [')'], []⟩]

/-- The number of characters that the rule for a kind takes. -/
def widthOf (k : Kind) (s : Text) : Option Nat := (table.find? (·.kind = k)).bind (·.width s)

/-- The longer of a find and what the rule for another kind takes. -/
def better (s : Text) (best : Kind × Nat) (k : Kind) : Kind × Nat :=
  match widthOf k s with
  | some n => if best.2 < n then (k, n) else best
  | none => best

/-- What the rule finds at the start of a text, once the longer rules have had their say. -/
def find? (r : Rule) (s : Text) : Option (Kind × Nat) :=
  (r.width s).map fun n ↦ r.longer.foldl (better s) (r.kind, n)

end Rule

/-- The kind and the number of characters of the token at the start of a text inside an expression.
-/
def recognize (s : Text) : Option (Kind × Nat) := Rule.table.findSome? (·.find? s)

/-! ## Every rule moves forward -/

namespace Rule

/-- The rule takes at least one character wherever it takes any. -/
def Forward (r : Rule) : Prop := ∀ {s : Text} {n : Nat}, r.width s = some n → 0 < n

theorem run_pos {p : Char → Bool} {s : Text} {n : Nat} (h : run p s = some n) : 0 < n := by
  simp only [run] at h
  split at h
  · simp at h
  · cases h
    omega

theorem word_pos {w s : Text} {n : Nat} (hw : w ≠ []) (h : word w s = some n) : 0 < n := by
  simp only [word] at h
  split at h
  · cases h
    exact List.length_pos_iff.mpr hw
  · simp at h

theorem oneOf_pos {ws : List Text} {s : Text} {n : Nat} (hws : ∀ w ∈ ws, w ≠ [])
    (h : oneOf ws s = some n) : 0 < n := by
  obtain ⟨w, hw, hn⟩ := List.exists_of_findSome?_eq_some h
  exact word_pos (hws w hw) hn

theorem name_pos {s : Text} {n : Nat} (h : name s = some n) : 0 < n := by
  cases s with
  | nil => simp [name] at h
  | cons c s =>
    simp only [name] at h
    split at h
    · cases h
      omega
    · simp at h

theorem stringLiteral_pos {q : Char} {s : Text} {n : Nat} (h : StringLiteral.width? q s = some n) :
    0 < n := by
  cases s with
  | nil => simp [StringLiteral.width?] at h
  | cons c s =>
    simp only [StringLiteral.width?] at h
    split at h
    · obtain ⟨m, -, rfl⟩ := Option.map_eq_some_iff.mp h
      omega
    · simp at h

theorem forward_of_mem_table : ∀ r ∈ table, r.Forward := by
  simp only [table, List.forall_mem_cons]
  exact ⟨run_pos, oneOf_pos (by decide), stringLiteral_pos, stringLiteral_pos, run_pos,
    word_pos (by decide), word_pos (by decide), word_pos (by decide), word_pos (by decide),
    oneOf_pos (by decide), word_pos (by decide), word_pos (by decide), oneOf_pos (by decide),
    oneOf_pos (by decide), oneOf_pos (by decide), oneOf_pos (by decide), oneOf_pos (by decide),
    oneOf_pos (by decide), name_pos, word_pos (by decide), word_pos (by decide), by simp⟩

theorem le_better (s : Text) (best : Kind × Nat) (k : Kind) : best.2 ≤ (better s best k).2 := by
  rw [better]
  split
  · split
    · exact Nat.le_of_lt ‹_›
    · exact Nat.le_refl _
  · exact Nat.le_refl _

theorem le_foldl_better (s : Text) (ks : List Kind) (best : Kind × Nat) :
    best.2 ≤ (ks.foldl (better s) best).2 := by
  induction ks generalizing best with
  | nil => exact Nat.le_refl _
  | cons k ks ih => exact Nat.le_trans (le_better s best k) (ih _)

end Rule

theorem recognize_pos {s : Text} {k : Kind} {n : Nat} (h : recognize s = some (k, n)) : 0 < n := by
  obtain ⟨r, hr, hfind⟩ := List.exists_of_findSome?_eq_some h
  obtain ⟨m, hm, hkn⟩ := Option.map_eq_some_iff.mp hfind
  have hle := Rule.le_foldl_better s r.longer (r.kind, m)
  rw [hkn] at hle
  exact Nat.lt_of_lt_of_le (Rule.forward_of_mem_table r hr hm) hle

end Interpolation.Token
