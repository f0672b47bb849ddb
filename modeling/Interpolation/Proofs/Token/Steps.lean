import Interpolation.Proofs.Token.Dispatch
import Interpolation.Proofs.Token.Run

/-!
# What one call of a scanner does

A call of a scanner returns a token, finds that the template has ended, or fails, and each of the
three is characterized here once, so that nothing later has to look at how a token is recognized.
A token is a piece of the text that is left, cut off at its start (`Scanner.step_eq_some_iff`); the
template has ended where nothing is left; and a failure points at the place where the scanner stands
(`Scanner.BlockedBy`).

That a token is cut off *exactly* needs one fact about the rules: none of them takes more characters
than there are.
-/

namespace Interpolation

/-! ## Kinds -/

/-- The kinds of tokens that stand between the delimiters of an expression. -/
def Token.Kind.isInner : Token.Kind → Bool
  | .literal | .opening _ | .closing => false
  | _ => true

theorem Token.Kind.ne_closing_of_isInner {k : Token.Kind} (h : k.isInner) : k ≠ .closing := by
  rintro rfl
  cases h

/-- What a symbol is: a quotation mark with the string behind it, or one or two characters. -/
theorem Token.symbol_cases {c : Char} {s : Text} {k : Kind} {n : Nat}
    (h : symbol c s = some (k, n)) :
    (∃ (q : Quote) (m : Nat), c = q.char ∧ StringLiteral.closing? q.char s = some m ∧
        k = .string q ∧ n = m + 1) ∨
      ((k.isInner ∨ k = .closing ∧ c = '}') ∧ (n = 1 ∨ n = 2 ∧ s ≠ [])) := by
  have hne : ∀ a : Char, s.head? = some a → s ≠ [] := by
    rintro a ha rfl
    cases ha
  unfold symbol at h
  split at h
  case h_5 =>
    obtain ⟨m, hm, heq⟩ := Option.map_eq_some_iff.mp h
    cases heq
    exact .inl ⟨.double, m, rfl, hm, rfl, rfl⟩
  case h_6 =>
    obtain ⟨m, hm, heq⟩ := Option.map_eq_some_iff.mp h
    cases heq
    exact .inl ⟨.single, m, rfl, hm, rfl, rfl⟩
  -- all other symbols are one character long, or two with a second character to compare
  all_goals
    right
    grind [Kind.isInner]

/-! ## No token is longer than the text -/

theorem StringLiteral.closingFrom_le {q : Char} {width n : Nat} {fallback : Option Nat} {s : Text}
    (hfallback : ∀ m ∈ fallback, m ≤ width) (h : closingFrom q width fallback s = some n) :
    n ≤ width + s.length := by
  fun_induction closingFrom q width fallback s with
  | case1 width fallback => exact hfallback n h
  | case2 width fallback =>
    cases h
    exact Nat.le_refl _
  | case3 width fallback c hc => exact Nat.le_trans (hfallback n h) (Nat.le_add_right _ _)
  | case4 width fallback c d s hpair ih =>
    have hnext : ∀ m ∈ (if d = q then some (width + 2) else fallback), m ≤ width + 2 := by
      intro m hm
      split at hm
      · cases hm
        exact Nat.le_refl _
      · exact Nat.le_trans (hfallback m hm) (Nat.le_add_right _ _)
    have := ih hnext h
    simp only [List.length_cons]
    omega
  | case5 width fallback d s hpair =>
    cases h
    simp only [List.length_cons]
    omega
  | case6 width fallback c d s hpair hc ih =>
    have := ih (fun m hm ↦ Nat.le_trans (hfallback m hm) (Nat.le_succ _)) h
    simp only [List.length_cons] at this ⊢
    omega

theorem StringLiteral.closing?_le {q : Char} {n : Nat} {s : Text} (h : closing? q s = some n) :
    n ≤ s.length := by
  have := closingFrom_le (by simp) h
  omega

namespace Token

theorem symbol_le_length {c : Char} {s : Text} {k : Kind} {n : Nat} (h : symbol c s = some (k, n)) :
    n ≤ s.length + 1 := by
  rcases symbol_cases h with ⟨q, m, -, hm, -, rfl⟩ | ⟨-, rfl | ⟨rfl, hne⟩⟩
  · exact Nat.succ_le_succ (StringLiteral.closing?_le hm)
  · exact Nat.succ_le_succ (Nat.zero_le _)
  · exact Nat.succ_le_succ (List.length_pos_iff.mpr hne)

theorem recognize_le_length {s : Text} {k : Kind} {n : Nat} (h : recognize s = some (k, n)) :
    n ≤ s.length := by
  cases s with
  | nil => cases h
  | cons c s =>
    rcases recognize_cases h with ⟨-, -, rfl⟩ | ⟨-, -, rfl⟩ | ⟨-, -, rfl⟩ | ⟨-, -, -, hsymbol⟩
    · exact (List.takeWhile_prefix _).length_le
    · exact (List.takeWhile_prefix _).length_le
    · exact (List.takeWhile_prefix _).length_le
    · exact symbol_le_length hsymbol

end Token

/-! ## The rules find no delimiters -/

namespace Token

theorem wordKind_isInner (w : Text) : (wordKind w).isInner :=
  wordKind_induction (motive := fun k ↦ k.isInner) (by decide) rfl w

theorem symbol_isInner {c : Char} {s : Text} {k : Kind} {n : Nat} (h : symbol c s = some (k, n)) :
    k.isInner ∨ k = .closing := by
  rcases symbol_cases h with ⟨q, m, -, -, rfl, -⟩ | ⟨hk, -⟩
  · exact .inl rfl
  · exact hk.imp_right And.left

theorem recognize_isInner {s : Text} {k : Kind} {n : Nat} (h : recognize s = some (k, n)) :
    k.isInner ∨ k = .closing := by
  cases s with
  | nil => cases h
  | cons c s =>
    rcases recognize_cases h with ⟨-, rfl, -⟩ | ⟨-, rfl, -⟩ | ⟨-, rfl, -⟩ | ⟨-, -, -, hsymbol⟩
    · exact .inl rfl
    · exact .inl (wordKind_isInner _)
    · exact .inl rfl
    · exact symbol_isInner hsymbol

end Token

theorem Delimiter.ofMark?_eq_some_iff {c : Char} {d : Delimiter} :
    ofMark? c = some d ↔ c = d.mark := by
  unfold ofMark?
  cases d <;> grind [mark]

namespace Scanner

theorem delimiter?_eq_some_iff {s : Text} {d : Delimiter} :
    delimiter? s = some d ↔ ∃ t, s = d.mark :: '{' :: t := by
  constructor
  · intro h
    unfold delimiter? at h
    split at h
    · obtain rfl := Delimiter.ofMark?_eq_some_iff.mp h
      exact ⟨_, rfl⟩
    · cases h
  · rintro ⟨t, rfl⟩
    exact Delimiter.ofMark?_eq_some_iff.mpr rfl

/-- Literal text goes on up to the end or to a place that ends it, and has no brace. -/
theorem literalWidth_cut (width : Nat) (s : Text) :
    ∃ w r, s = w ++ r ∧ literalWidth width s = width + w.length ∧ ('{' ∉ w ∧ '}' ∉ w) ∧
      (r = [] ∨ endsLiteral r = true) := by
  induction s generalizing width with
  | nil => exact ⟨[], [], rfl, rfl, by simp, .inl rfl⟩
  | cons c s ih =>
    by_cases hends : endsLiteral (c :: s) = true
    · refine ⟨[], c :: s, rfl, ?_, by simp, .inr hends⟩
      rw [literalWidth, if_pos hends]
      rfl
    · obtain ⟨w, r, rfl, hwidth, hw, hr⟩ := ih (width + 1)
      refine ⟨c :: w, r, rfl, ?_, ?_, hr⟩
      · rw [literalWidth, if_neg hends, hwidth, List.length_cons]
        omega
      · simp only [endsLiteral, List.head?_cons, Bool.or_eq_true, not_or, decide_eq_true_eq,
          Option.some.injEq] at hends
        simp only [List.mem_cons, not_or]
        exact ⟨⟨Ne.symm hends.1.2, hw.1⟩, Ne.symm hends.2, hw.2⟩

theorem literalWidth_le_length (width : Nat) (s : Text) :
    literalWidth width s ≤ width + s.length := by
  obtain ⟨w, r, rfl, hwidth, -⟩ := literalWidth_cut width s
  rw [hwidth, List.length_append]
  omega

theorem recognizeOuter_eq_ok_iff {offset : Nat} {s : Text} {k : Token.Kind} {n : Nat} :
    recognizeOuter offset s = .ok (k, n) ↔
      (∃ d, delimiter? s = some d ∧ k = .opening d ∧ n = 2) ∨
        (endsLiteral s = false ∧ k = .literal ∧ n = literalWidth 0 s) := by
  unfold recognizeOuter endsLiteral
  cases delimiter? s with
  | some d => simp [eq_comm]
  | none =>
    by_cases hclose : s.head? = some '}'
    · simp [hclose]
    · by_cases hopen : s.head? = some '{'
      · simp [hopen]
      · simp [hclose, hopen, eq_comm]

theorem recognizeOuter_le_length {offset : Nat} {s : Text} {k : Token.Kind} {n : Nat}
    (h : recognizeOuter offset s = .ok (k, n)) : n ≤ s.length := by
  rcases recognizeOuter_eq_ok_iff.mp h with ⟨d, hd, -, rfl⟩ | ⟨-, -, rfl⟩
  · obtain ⟨t, rfl⟩ := delimiter?_eq_some_iff.mp hd
    simp only [List.length_cons]
    omega
  · simpa using literalWidth_le_length 0 s

/-- What is found depends on the mode only through the question whether an expression is open. -/
theorem recognize_eq_ok_iff {s : Scanner} {c : Char} {found : Token.Kind × Nat} :
    s.recognize c = .ok found ↔
      (s.mode = .outer ∧ recognizeOuter s.offset s.rest = .ok found) ∨
        ∃ d, s.mode = .inside d ∧ Token.recognize s.rest = some found := by
  unfold recognize
  cases s.mode with
  | outer => simp
  | inside d => cases Token.recognize s.rest <;> simp

theorem recognize_le_length {s : Scanner} {c : Char} {k : Token.Kind} {n : Nat}
    (h : s.recognize c = .ok (k, n)) : n ≤ s.rest.length := by
  rcases recognize_eq_ok_iff.mp h with ⟨-, h⟩ | ⟨d, -, h⟩
  · exact recognizeOuter_le_length h
  · exact Token.recognize_le_length h

/-! ## The three outcomes -/

/-- Everything that a call does when it returns the token `t` and leaves the scanner `s'`. -/
structure Takes (s : Scanner) (t : Token) (s' : Scanner) : Prop where
  /-- The token is not empty. -/
  text_ne_nil : t.text ≠ []
  /-- The token is cut off from the text that was left. -/
  rest_eq : s.rest = t.text ++ s'.rest
  /-- The token is the one that the mode asks for. -/
  recognize_eq : ∀ c, s.recognize c = .ok (t.kind, t.text.length)
  /-- The modes change as the kind of the token says. -/
  shift_eq : s.shift t.kind = .ok s'.modes
  /-- The token remembers the mode. -/
  mode_eq : t.mode = s.mode
  /-- The token starts where the scanner stood. -/
  offset_eq : t.offset = s.offset
  /-- The scanner moves behind the token. -/
  offset_next : s'.offset = s.offset + Text.byteSize t.text

/-- The failure points at the place of the scanner and, if it names a character, at the one that
stands there. -/
structure BlockedBy (s : Scanner) (e : LexError) : Prop where
  /-- The failure is where the scanner stands. -/
  offset_eq : e.offset = s.offset
  /-- The character is the next one. -/
  head_eq : ∀ c n, e = .unexpectedCharacter c n → s.rest.head? = some c

theorem takes_of_recognize {s : Scanner} {c : Char} {r : Text} {kind : Token.Kind} {width : Nat}
    {modes : List Mode} (hrest : s.rest = c :: r) (hrec : s.recognize c = .ok (kind, width))
    (hshift : s.shift kind = .ok modes) :
    Takes s ⟨kind, s.rest.take width, s.mode, s.offset⟩
      ⟨s.rest.drop width, s.offset + Text.byteSize (s.rest.take width), modes⟩ := by
  have hlength : (s.rest.take width).length = width :=
    List.length_take_of_le (recognize_le_length hrec)
  refine ⟨?_, (List.take_append_drop width s.rest).symm, fun c' ↦ ?_, hshift, rfl, rfl, rfl⟩
  · rw [← List.length_pos_iff, hlength]
    exact recognize_pos hrest hrec
  · rw [hlength]
    exact recognize_eq_ok_iff.mpr (recognize_eq_ok_iff.mp hrec)

theorem blockedBy_of_recognize {s : Scanner} {c : Char} {r : Text} {e : LexError}
    (hrest : s.rest = c :: r) (h : s.recognize c = .error e) : s.BlockedBy e := by
  unfold recognize at h
  split at h
  · unfold recognizeOuter at h
    split at h
    · cases h
    · split at h
      · cases h
        exact ⟨rfl, by simp⟩
      · split at h
        · cases h
          refine ⟨rfl, fun c' n heq ↦ ?_⟩
          cases heq
          assumption
        · cases h
  · split at h
    · cases h
    · cases h
      refine ⟨rfl, fun c' n heq ↦ ?_⟩
      cases heq
      rw [hrest, List.head?_cons]

theorem blockedBy_of_shift {s : Scanner} {kind : Token.Kind} {e : LexError}
    (h : s.shift kind = .error e) : s.BlockedBy e := by
  unfold shift at h
  split at h
  · cases h
  · split at h
    · cases h
      exact ⟨rfl, by simp⟩
    · cases h
  · cases h

theorem step_cases (s : Scanner) :
    (s.rest = [] ∧ s.step = .ok none) ∨ (∃ e, s.BlockedBy e ∧ s.step = .error e) ∨
      ∃ t s', Takes s t s' ∧ s.step = .ok (some (t, s')) := by
  rw [step]
  split
  · exact .inl ⟨‹_›, rfl⟩
  · rename_i c r hrest
    refine .inr ?_
    cases hrec : s.recognize c with
    | error e => exact .inl ⟨e, blockedBy_of_recognize hrest hrec, rfl⟩
    | ok found =>
      cases hshift : s.shift found.1 with
      | error e =>
        refine .inl ⟨e, blockedBy_of_shift hshift, ?_⟩
        simp only [bind, Except.bind, hshift]
      | ok modes =>
        refine .inr ⟨_, _, takes_of_recognize hrest hrec hshift, ?_⟩
        simp only [bind, Except.bind, hshift, pure, Except.pure]

/-- **A call returns a token exactly if it can be cut off from the text that is left.** -/
theorem step_eq_some_iff {s s' : Scanner} {t : Token} :
    s.step = .ok (some (t, s')) ↔ Takes s t s' := by
  constructor
  · intro h
    rcases step_cases s with ⟨-, hstep⟩ | ⟨e, -, hstep⟩ | ⟨u, v, htakes, hstep⟩ <;>
      rw [hstep] at h <;> cases h
    exact htakes
  · rintro ⟨hne, hrest, hrec, hshift, hmode, hoffset, hnext⟩
    obtain ⟨rest, offset, modes⟩ := s
    obtain ⟨rest', offset', modes'⟩ := s'
    obtain ⟨kind, text, m, n⟩ := t
    dsimp only at hne hrest hrec hshift hoffset hnext
    subst hrest hoffset hnext
    obtain rfl : m = modes.headD .outer := hmode
    exact step_of_recognize hne hrec hshift

theorem Takes.unique {s s' u : Scanner} {t v : Token} (h : Takes s t s') (h' : Takes s v u) :
    t = v ∧ s' = u := by
  rw [← step_eq_some_iff] at h h'
  rw [h] at h'
  cases h'
  exact ⟨rfl, rfl⟩

theorem Takes.offset_lt {s s' : Scanner} {t : Token} (h : Takes s t s') : s.offset < s'.offset := by
  have hpos : 0 < Text.byteSize t.text :=
    Nat.lt_of_lt_of_le (List.length_pos_iff.mpr h.text_ne_nil) (Text.length_le_byteSize _)
  rw [h.offset_next]
  exact Nat.lt_add_of_pos_right hpos

/-- Literal text is found outside expressions only. -/
theorem Takes.length_of_literal {s s' : Scanner} {t : Token} (h : Takes s t s')
    (ht : t.kind = .literal) : t.text.length = literalWidth 0 s.rest := by
  rcases recognize_eq_ok_iff.mp (h.recognize_eq ' ') with ⟨-, hrec⟩ | ⟨d, -, hrec⟩
  · rcases recognizeOuter_eq_ok_iff.mp hrec with ⟨d, -, hk, -⟩ | ⟨-, -, hn⟩
    · rw [ht] at hk
      cases hk
    · exact hn
  · rw [ht] at hrec
    rcases Token.recognize_isInner hrec with hk | hk <;> cases hk

theorem step_eq_none_iff {s : Scanner} : s.step = .ok none ↔ s.rest = [] := by
  refine ⟨fun h ↦ ?_, fun h ↦ by rw [step, h]⟩
  rcases step_cases s with ⟨hrest, -⟩ | ⟨e, -, hstep⟩ | ⟨t, s', -, hstep⟩
  · exact hrest
  all_goals
    rw [hstep] at h
    cases h

theorem blockedBy_of_step {s : Scanner} {e : LexError} (h : s.step = .error e) :
    s.BlockedBy e := by
  rcases step_cases s with ⟨-, hstep⟩ | ⟨e', hblocked, hstep⟩ | ⟨t, s', -, hstep⟩ <;>
    rw [hstep] at h <;> cases h
  exact hblocked

end Scanner

end Interpolation
