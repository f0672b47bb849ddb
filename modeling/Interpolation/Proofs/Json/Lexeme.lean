import Interpolation.Json
import Interpolation.Proofs.Script.Lexeme

/-!
# The lexemes of JSON texts

What a reader of JSON makes of a text, stated without a look at how values are written. The text is
cut into lexemes: brackets, commas, colons, the two truth values, and strings with their escapes
undone. Space between lexemes says nothing. There are no lexemes for numbers and for `null`, because
`Json` has no values for them; a text with one is refused.

A string is read with all the escapes that JSON has, also those that are never written here: a
character may be given by its number wherever it stands, and one beyond the first 65536 by a pair of
surrogates. What a string must not have as it is are the characters below U+0020.

`Spaced p ls s` says that the text `s` consists of the lexemes `ls`, as they are written, and of
characters with the property `p` between them. From it follows what a reader gets (`lexemes?`), and
also what is left when the space outside strings is deleted (`dropBlanks`), which is no matter of
lexemes: it walks along the characters and only keeps track of whether it is in a string.
-/

namespace Interpolation.Json

open Script (hexValue? codePoint?)

/-- A lexeme of a JSON text. A string stands for the text that it denotes. -/
inductive Lexeme where
  | openArray
  | closeArray
  | openObject
  | closeObject
  | comma
  | colon
  | bool (value : Bool)
  /-- A string, by its value. -/
  | string (value : Text)

/-! ## Reading strings -/

/-- The character that a backslash and the given character stand for. -/
def escaped? : Char → Option Char
  | '"' => some '"'
  | '\\' => some '\\'
  | '/' => some '/'
  | 'b' => some '\x08'
  | 'f' => some '\x0c'
  | 'n' => some '\n'
  | 'r' => some '\r'
  | 't' => some '\t'
  | _ => none

/-- The character that two surrogates stand for, one of the upper half and one of the lower half,
each given by the digits of its number. -/
def surrogates? (upper lower : Text) : Option Char :=
  (hexValue? upper).bind fun m ↦ (hexValue? lower).bind fun n ↦
    if 0xd800 ≤ m ∧ m < 0xdc00 ∧ 0xdc00 ≤ n ∧ n < 0xe000 then
      some (.ofNat (0x10000 + 0x400 * (m - 0xd800) + (n - 0xdc00)))
    else none

/-- The character whose number is at the start of a text, and what is left behind it. -/
def numbered? : Text → Option (Char × Text)
  | a :: b :: c :: d :: s =>
    match codePoint? [a, b, c, d] with
    | some x => some (x, s)
    | none =>
      -- The number is that of no character, so it must be half of one.
      match s with
      | '\\' :: 'u' :: e :: f :: g :: h :: s => (surrogates? [a, b, c, d] [e, f, g, h]).map (·, s)
      | _ => none
  | _ => none

/-- The character at the start of what stands in a string, and what is left behind it. -/
def character? : Text → Option (Char × Text)
  | '\\' :: 'u' :: s => numbered? s
  | '\\' :: c :: s => (escaped? c).map (·, s)
  | c :: s => if c = '"' ∨ c = '\\' ∨ c.toNat < 0x20 then none else some (c, s)
  | [] => none

theorem length_lt_of_numbered? {s r : Text} {x : Char} (h : numbered? s = some (x, r)) :
    r.length < s.length := by
  revert h
  fun_cases numbered? s with
  | case1 a b c d y s hy =>
    rintro ⟨⟩
    simp only [List.length_cons]
    omega
  | case2 a b c d e f g h s =>
    intro hpair
    obtain ⟨y, -, hy⟩ := Option.map_eq_some_iff.mp hpair
    cases hy
    simp only [List.length_cons]
    omega
  | case3 | case4 => exact fun h ↦ by cases h

theorem length_lt_of_character? {s r : Text} {x : Char} (h : character? s = some (x, r)) :
    r.length < s.length := by
  revert h
  fun_cases character? s with
  | case1 s => exact fun h ↦ Nat.lt_succ_of_lt (Nat.lt_succ_of_lt (length_lt_of_numbered? h))
  | case2 c s hu =>
    intro h
    obtain ⟨y, -, hy⟩ := Option.map_eq_some_iff.mp h
    cases hy
    exact Nat.lt_succ_of_lt (Nat.lt_succ_self _)
  | case4 c s =>
    rintro ⟨⟩
    exact Nat.lt_succ_self _
  | case3 | case5 => exact fun h ↦ by cases h

/-- The value of a string, given what follows its opening quotation mark, and what is left behind
its closing one. -/
def string? (s : Text) : Option (Text × Text) :=
  match s with
  | '"' :: s => some ([], s)
  | s =>
    match _h : character? s with
    | none => none
    | some (x, r) => (string? r).map (Prod.map (x :: ·) id)
termination_by s.length
decreasing_by exact length_lt_of_character? _h

theorem string?_of_character? {s r : Text} {x : Char} (h : character? s = some (x, r)) :
    string? s = (string? r).map (Prod.map (x :: ·) id) := by
  -- a quotation mark is no character of a string
  have hquote : ∀ t, s ≠ '"' :: t := by
    rintro t rfl
    cases h
  rw [string?]
  · split
    next h' => simp [h] at h'
    next x' r' h' =>
      obtain ⟨rfl, rfl⟩ : _ ∧ _ := by simpa [h] using h'
      rfl
  · exact hquote

theorem length_lt_of_string? {s v r : Text} (h : string? s = some (v, r)) :
    r.length < s.length := by
  fun_induction string? s generalizing v with
  | case1 s =>
    cases h
    exact Nat.lt_succ_self _
  | case2 => cases h
  | case3 s hquote x t ht ih =>
    obtain ⟨⟨w, r'⟩, hw, hr⟩ := Option.map_eq_some_iff.mp h
    cases hr
    exact Nat.lt_trans (ih hw) (length_lt_of_character? ht)

/-! ## Reading lexemes -/

/-- Whether the character is space to JSON. -/
def isBlank (c : Char) : Bool := c = ' ' || c = '\t' || c = '\n' || c = '\r'

/-- The lexeme that is written as the given character. -/
def symbol? : Char → Option Lexeme
  | '[' => some .openArray
  | ']' => some .closeArray
  | '{' => some .openObject
  | '}' => some .closeObject
  | ',' => some .comma
  | ':' => some .colon
  | _ => none

/-- The lexeme at the start of a text, and what is left behind it. -/
def first? : Text → Option (Lexeme × Text)
  | '"' :: s => (string? s).map fun x ↦ (.string x.1, x.2)
  | 't' :: 'r' :: 'u' :: 'e' :: s => some (.bool true, s)
  | 'f' :: 'a' :: 'l' :: 's' :: 'e' :: s => some (.bool false, s)
  | c :: s => (symbol? c).map (·, s)
  | [] => none

theorem length_lt_of_first? {s r : Text} {l : Lexeme} (h : first? s = some (l, r)) :
    r.length < s.length := by
  revert h
  fun_cases first? s with
  | case1 s =>
    intro h
    obtain ⟨⟨v, r'⟩, hs, hr⟩ := Option.map_eq_some_iff.mp h
    cases hr
    exact Nat.lt_succ_of_lt (length_lt_of_string? hs)
  | case2 s | case3 s =>
    rintro ⟨⟩
    simp only [List.length_cons]
    omega
  | case4 c s =>
    intro h
    obtain ⟨l', -, hl⟩ := Option.map_eq_some_iff.mp h
    cases hl
    exact Nat.lt_succ_self _
  | case5 => exact fun h ↦ by cases h

/-- The lexemes of a text. -/
def lexemes? (s : Text) : Option (List Lexeme) :=
  match s with
  | [] => some []
  | c :: s =>
    if isBlank c then lexemes? s
    else
      match _h : first? (c :: s) with
      | none => none
      | some (l, r) => (lexemes? r).map (l :: ·)
termination_by s.length
decreasing_by
  · simp
  · exact length_lt_of_first? _h

/-! ## Deleting the space between lexemes -/

/-- Where a place in a text lies. -/
inductive Place where
  /-- Outside all strings. -/
  | outside
  /-- In a string. -/
  | inside
  /-- In a string, right behind the backslash of an escape. -/
  | escape
  deriving DecidableEq

def Place.next : Place → Char → Place
  | .outside, c => if c = '"' then .inside else .outside
  | .inside, c => if c = '"' then .outside else if c = '\\' then .escape else .inside
  | .escape, _ => .inside

/-- The text without the space outside of strings, where the text starts at a given place. -/
def dropBlanksFrom : Place → Text → Text
  | _, [] => []
  | place, c :: s =>
    if place = .outside ∧ isBlank c then dropBlanksFrom (place.next c) s
    else c :: dropBlanksFrom (place.next c) s

def dropBlanks (s : Text) : Text := dropBlanksFrom .outside s

/-! ## Spelled lexemes -/

/-- The lexeme as it is written. -/
def Lexeme.spelling : Lexeme → Text
  | .openArray => ['[']
  | .closeArray => [']']
  | .openObject => ['{']
  | .closeObject => ['}']
  | .comma => [',']
  | .colon => [':']
  | .bool true => "true".toList
  | .bool false => "false".toList
  | .string v => quote v

/-- The text is made of the lexemes, as they are written, with any characters that have the property
in front of, between and behind them. -/
inductive Spaced (p : Char → Bool) : List Lexeme → Text → Prop where
  | nil : Spaced p [] []
  | blank {c ls s} : p c = true → Spaced p ls s → Spaced p ls (c :: s)
  | lexeme {l ls s} : Spaced p ls s → Spaced p (l :: ls) (l.spelling ++ s)

namespace Spaced

variable {p : Char → Bool} {ls ms : List Lexeme} {s t : Text}

theorem append (hs : Spaced p ls s) (ht : Spaced p ms t) : Spaced p (ls ++ ms) (s ++ t) := by
  induction hs with
  | nil => exact ht
  | blank hc _ ih => exact .blank hc ih
  | lexeme _ ih =>
    rw [List.append_assoc]
    exact .lexeme ih

theorem blanks (h : ∀ c ∈ s, p c = true) : Spaced p [] s := by
  induction s with
  | nil => exact .nil
  | cons c s ih =>
    exact .blank (h c List.mem_cons_self) (ih fun d hd ↦ h d (List.mem_cons_of_mem c hd))

theorem single (l : Lexeme) : Spaced p [l] l.spelling := by
  have h : Spaced p [l] (l.spelling ++ []) := .lexeme .nil
  rwa [List.append_nil] at h

theorem eq_flatMap_spelling (h : Spaced (fun _ ↦ false) ls s) :
    s = ls.flatMap Lexeme.spelling := by
  induction h with
  | nil => rfl
  | blank hc => cases hc
  | lexeme _ ih => rw [List.flatMap_cons, ← ih]

end Spaced

/-! ## What is read from a spelled lexeme -/

/-- A character is written as one that a backslash stands in front of, by its number, or as it
is. -/
theorem escape_cases (c : Char) :
    (∃ d, escape c = ['\\', d] ∧ escaped? d = some c) ∨
      (c.toNat < 0x20 ∧ escape c = '\\' :: 'u' :: Text.hex4 c.toNat) ∨
        (c ≠ '"' ∧ c ≠ '\\' ∧ ¬c.toNat < 0x20 ∧ escape c = [c]) := by
  unfold escape
  split
  · exact .inl ⟨_, rfl, rfl⟩
  · exact .inl ⟨_, rfl, rfl⟩
  · exact .inl ⟨_, rfl, rfl⟩
  · exact .inl ⟨_, rfl, rfl⟩
  · exact .inl ⟨_, rfl, rfl⟩
  · exact .inl ⟨_, rfl, rfl⟩
  · exact .inl ⟨_, rfl, rfl⟩
  next hquote hbackslash _ _ _ _ _ =>
    by_cases hlow : c.toNat < 0x20
    · exact .inr (.inl ⟨hlow, if_pos hlow⟩)
    · exact .inr (.inr ⟨hquote, hbackslash, hlow, if_neg hlow⟩)

theorem character?_escape (c : Char) (s : Text) : character? (escape c ++ s) = some (c, s) := by
  obtain ⟨d, hd, hc⟩ | ⟨hlow, hc⟩ | ⟨hquote, hbackslash, hlow, hc⟩ := escape_cases c
  · -- no escape is written with the letter that a number follows
    have hu : d ≠ 'u' := by rintro rfl; cases hc
    rw [hd, List.cons_append, List.singleton_append, character?, hc]
    · rfl
    · exact hu
  · have hvalue := Script.codePoint?_hex4 c
    rw [hc]
    change numbered? (Text.hex4 c.toNat ++ s) = some (c, s)
    match hdigits : Text.hex4 c.toNat, Script.length_hex4 (Nat.lt_trans hlow (by decide)) with
    | [w, x, y, z], _ =>
      rw [hdigits] at hvalue
      unfold numbered?
      simp only [List.cons_append, List.nil_append, hvalue]
  · rw [hc, List.singleton_append, character?, if_neg (by simp_all)]
    · exact fun _ h ↦ absurd h hbackslash
    · exact fun _ _ h ↦ absurd h hbackslash

theorem string?_flatMap_escape (v r : Text) :
    string? (v.flatMap escape ++ '"' :: r) = some (v, r) := by
  induction v with
  | nil => rw [List.flatMap_nil, List.nil_append, string?]
  | cons c v ih =>
    rw [List.flatMap_cons, List.append_assoc, string?_of_character? (character?_escape c _), ih]
    rfl

theorem first?_spelling (l : Lexeme) (r : Text) : first? (l.spelling ++ r) = some (l, r) := by
  match l with
  | .openArray | .closeArray | .openObject | .closeObject | .comma | .colon => rfl
  | .bool true | .bool false => rfl
  | .string v =>
    change (string? (v.flatMap escape ++ ['"'] ++ r)).map _ = _
    rw [List.append_assoc, List.singleton_append, string?_flatMap_escape]
    rfl

/-- A lexeme is written with at least one character, and the first one is not space. -/
theorem Lexeme.exists_spelling_eq_cons (l : Lexeme) :
    ∃ c t, l.spelling = c :: t ∧ isBlank c = false := by
  match l with
  | .openArray | .closeArray | .openObject | .closeObject | .comma | .colon =>
    exact ⟨_, _, rfl, rfl⟩
  | .bool true | .bool false => exact ⟨_, _, rfl, rfl⟩
  | .string v => exact ⟨_, _, rfl, rfl⟩

/-- **The lexemes of a text are those it is made of.** -/
theorem lexemes?_of_spaced {ls : List Lexeme} {s : Text} (h : Spaced isBlank ls s) :
    lexemes? s = some ls := by
  induction h with
  | nil => rw [lexemes?]
  | blank hc _ ih => rw [lexemes?, if_pos hc, ih]
  | @lexeme l ls s _ ih =>
    obtain ⟨c, t, hl, hc⟩ := l.exists_spelling_eq_cons
    have hfirst := first?_spelling l s
    rw [hl, List.cons_append] at hfirst ⊢
    rw [lexemes?, if_neg (by simp [hc])]
    split
    next h => simp [hfirst] at h
    next l' r h =>
      obtain ⟨rfl, rfl⟩ : _ ∧ _ := by simpa [hfirst] using h
      rw [ih]
      rfl

/-! ## What is left of a spelled lexeme -/

theorem notMem_hex4 : ∀ n < 0x20, '"' ∉ Text.hex4 n ∧ '\\' ∉ Text.hex4 n := by decide

/-- Nothing is deleted from the text, and it leads from one place to the other. -/
def Keeps (p : Place) (w : Text) (q : Place) : Prop :=
  ∀ s, dropBlanksFrom p (w ++ s) = w ++ dropBlanksFrom q s

namespace Keeps

theorem nil (p : Place) : Keeps p [] p := fun _ ↦ rfl

theorem append {p q r : Place} {v w : Text} (hv : Keeps p v q) (hw : Keeps q w r) :
    Keeps p (v ++ w) r := by
  intro s
  rw [List.append_assoc, hv, hw, List.append_assoc]

theorem cons {p q : Place} {c : Char} {w : Text} (hc : p = .outside → isBlank c = false)
    (hw : Keeps (p.next c) w q) : Keeps p (c :: w) q := by
  intro s
  rw [List.cons_append, dropBlanksFrom, if_neg, hw, List.cons_append]
  rintro ⟨hp, hblank⟩
  simp [hc hp] at hblank

/-- Without quotation marks and backslashes, a text in a string stays in it. -/
theorem inside {w : Text} (hquote : '"' ∉ w) (hbackslash : '\\' ∉ w) :
    Keeps .inside w .inside := by
  induction w with
  | nil => exact nil _
  | cons c w ih =>
    rw [List.mem_cons, not_or] at hquote hbackslash
    have hnext : Place.next .inside c = .inside := by
      rw [Place.next, if_neg (Ne.symm hquote.1), if_neg (Ne.symm hbackslash.1)]
    refine cons (fun h ↦ by cases h) ?_
    rw [hnext]
    exact ih hquote.2 hbackslash.2

/-- What is written for a character of a string ends in this string. -/
theorem escape (c : Char) : Keeps .inside (escape c) .inside := by
  have hpair : ∀ d, Keeps .inside ['\\', d] .inside := fun _ _ ↦ rfl
  obtain ⟨d, hd, -⟩ | ⟨hlow, hc⟩ | ⟨hquote, hbackslash, -, hc⟩ := escape_cases c
  · rw [hd]
    exact hpair d
  · obtain ⟨h, h'⟩ := notMem_hex4 _ hlow
    rw [hc]
    exact append (hpair 'u') (inside h h')
  · rw [hc]
    exact inside (by simpa using Ne.symm hquote) (by simpa using Ne.symm hbackslash)

theorem flatMap_escape (v : Text) : Keeps .inside (v.flatMap Json.escape) .inside := by
  induction v with
  | nil => exact nil _
  | cons c v ih => exact append (escape c) ih

theorem spelling (l : Lexeme) : Keeps .outside l.spelling .outside := by
  match l with
  | .openArray | .closeArray | .openObject | .closeObject | .comma | .colon => exact fun _ ↦ rfl
  | .bool true | .bool false => exact fun _ ↦ rfl
  | .string v =>
    exact cons (fun _ ↦ rfl) (append (flatMap_escape v) (cons (fun h ↦ by cases h) (nil _)))

end Keeps

/-- **Without the space outside of strings, only the lexemes are left.** -/
theorem dropBlanks_of_spaced {ls : List Lexeme} {s : Text} (h : Spaced isBlank ls s) :
    dropBlanks s = ls.flatMap Lexeme.spelling := by
  unfold dropBlanks
  induction h with
  | nil => rfl
  | @blank c ls s hc _ ih =>
    -- a quotation mark is not space, so the place stays the same
    have hnext : Place.next .outside c = .outside := if_neg (by rintro rfl; cases hc)
    rw [dropBlanksFrom, if_pos ⟨rfl, hc⟩, hnext, ih]
  | lexeme _ ih => rw [Keeps.spelling, ih, List.flatMap_cons]

end Interpolation.Json
