import Interpolation.Proofs.Token.Modes

/-!
# Exchanging delimiters

An expression can be opened with either of two marks. Here some of the marks that open an expression
in a template are exchanged for the other one, and the two templates are scanned side by side. Their
scanners stay in step: they find tokens of the same kinds and texts at the same places, but for the
delimiters themselves (`Token.plain`), and if one is blocked, so is the other, by the same failure.

Two things make this work. The rules do not tell the marks apart (`recognize_unmarked`), even where
a rule looks far ahead, as that for strings does. And a place where a delimiter was exchanged is one
where the scanner stood outside every expression, so it never lies inside another token.
-/

namespace Interpolation

/-! ## Rules that do not tell the marks apart -/

/-- The character with one of the two marks taken for the other. -/
def unmark (c : Char) : Char := if c = Delimiter.dynamic.mark then Delimiter.deferred.mark else c

theorem unmark_of_ne {c : Char} (h : c ≠ '$') : unmark c = c := if_neg h

theorem unmark_eq_iff {a c : Char} (hhash : a ≠ '#') (hdollar : a ≠ '$') :
    unmark c = a ↔ c = a := by
  by_cases hc : c = '$'
  · subst hc
    exact iff_of_false (Ne.symm hhash) (Ne.symm hdollar)
  · rw [unmark_of_ne hc]

theorem head?_unmarked_iff {a : Char} (hhash : a ≠ '#') (hdollar : a ≠ '$') (s : Text) :
    (s.map unmark).head? = some a ↔ s.head? = some a := by
  cases s with
  | nil => exact iff_of_false (by simp) (by simp)
  | cons c s =>
    rw [List.map_cons, List.head?_cons, List.head?_cons, Option.some.injEq, Option.some.injEq,
      unmark_eq_iff hhash hdollar]

theorem takeWhile_unmarked {p : Char → Bool} (hhash : p '#' = false) (hdollar : p '$' = false)
    (s : Text) : (s.map unmark).takeWhile p = s.takeWhile p := by
  induction s with
  | nil => rfl
  | cons c s ih =>
    by_cases hc : c = '$'
    · subst hc
      have hneg : ¬p (unmark '$') = true := by simpa [unmark, Delimiter.mark] using hhash
      rw [List.map_cons, List.takeWhile_cons_of_neg hneg,
        List.takeWhile_cons_of_neg (by simpa using hdollar)]
    · rw [List.map_cons, unmark_of_ne hc, List.takeWhile_cons, List.takeWhile_cons, ih]

theorem isPair_unmarked (c d : Char) :
    StringLiteral.isPair (unmark c) (unmark d) = StringLiteral.isPair c d := by
  simp only [StringLiteral.isPair, ne_eq,
    unmark_eq_iff (show '\\' ≠ '#' by decide) (show '\\' ≠ '$' by decide),
    unmark_eq_iff (show '\n' ≠ '#' by decide) (show '\n' ≠ '$' by decide)]

theorem closingFrom_unmarked {q : Char} (hhash : q ≠ '#') (hdollar : q ≠ '$') (width : Nat)
    (fallback : Option Nat) (s : Text) :
    StringLiteral.closingFrom q width fallback (s.map unmark) =
      StringLiteral.closingFrom q width fallback s := by
  have hq : ∀ c, unmark c = q ↔ c = q := fun _ ↦ unmark_eq_iff hhash hdollar
  fun_induction StringLiteral.closingFrom q width fallback s with
  | case1 => rfl
  | case2 width fallback => simp [StringLiteral.closingFrom, hq]
  | case3 width fallback c hc => simp [StringLiteral.closingFrom, hq, hc]
  | case4 width fallback c d s hpair ih =>
    simp only [List.map_cons, StringLiteral.closingFrom, isPair_unmarked, hpair, if_true, hq, ih]
  | case5 width fallback d s hpair =>
    simp [StringLiteral.closingFrom, isPair_unmarked, hpair, hq]
  | case6 width fallback c d s hpair hc ih =>
    rw [List.map_cons] at ih
    simp only [List.map_cons, StringLiteral.closingFrom, isPair_unmarked, hpair, hq, hc, ih,
      Bool.false_eq_true, if_false]

theorem symbol_unmarked (c : Char) (s : Text) :
    Token.symbol (unmark c) (s.map unmark) = Token.symbol c s := by
  by_cases hc : c = '$'
  · subst hc
    rfl
  · rw [unmark_of_ne hc]
    refine Token.symbol_congr (fun a ha ↦ ?_) fun q _ ↦ ?_
    · have hne : a ≠ '#' ∧ a ≠ '$' := by
        simp only [List.mem_cons, List.not_mem_nil, or_false] at ha
        rcases ha with rfl | rfl | rfl <;> decide
      exact head?_unmarked_iff hne.1 hne.2 s
    · cases q <;> exact closingFrom_unmarked (by decide) (by decide) 0 none s

/-- Inside an expression the rules do not tell the marks apart. -/
theorem recognize_unmarked (s : Text) : Token.recognize (s.map unmark) = Token.recognize s := by
  rw [Token.recognize_eq_dispatch, Token.recognize_eq_dispatch]
  cases s with
  | nil => rfl
  | cons c s =>
    have hwhite := takeWhile_unmarked (p := Text.isWhite) (by decide) (by decide) (c :: s)
    have hname := takeWhile_unmarked (p := Token.Rule.isNameChar) (by decide) (by decide) (c :: s)
    have hdigit := takeWhile_unmarked (p := Char.isDigit) (by decide) (by decide) (c :: s)
    have hclass : ∀ p : Char → Bool, p '#' = p '$' → p (unmark c) = p c := by
      intro p hp
      by_cases hc : c = '$'
      · subst hc
        exact hp
      · rw [unmark_of_ne hc]
    rw [List.map_cons] at hwhite hname hdigit ⊢
    rw [Token.dispatch, Token.dispatch, hwhite, hname, hdigit, symbol_unmarked,
      hclass Text.isWhite (by decide), hclass Char.isAlpha (by decide),
      hclass Char.isDigit (by decide)]

namespace Scanner

theorem delimiter?_isSome_unmarked (s : Text) :
    (delimiter? (s.map unmark)).isSome = (delimiter? s).isSome := by
  match s with
  | [] => rfl
  | [_] => rfl
  | c :: d :: s =>
    by_cases hd : d = '{'
    · subst hd
      have hmark : (Delimiter.ofMark? (unmark c)).isSome = (Delimiter.ofMark? c).isSome := by
        by_cases hc : c = '$'
        · subst hc
          rfl
        · rw [unmark_of_ne hc]
      exact hmark
    · have hd' : unmark d ≠ '{' := fun h ↦ hd ((unmark_eq_iff (by decide) (by decide)).mp h)
      rw [delimiter?_eq_none (by simpa using hd), List.map_cons, List.map_cons,
        delimiter?_eq_none (by simpa using hd')]

theorem endsLiteral_unmarked (s : Text) : endsLiteral (s.map unmark) = endsLiteral s := by
  simp only [endsLiteral, delimiter?_isSome_unmarked,
    head?_unmarked_iff (show '{' ≠ '#' by decide) (show '{' ≠ '$' by decide),
    head?_unmarked_iff (show '}' ≠ '#' by decide) (show '}' ≠ '$' by decide)]

theorem literalWidth_unmarked (width : Nat) (s : Text) :
    literalWidth width (s.map unmark) = literalWidth width s := by
  induction s generalizing width with
  | nil => rfl
  | cons c s ih =>
    have hends := endsLiteral_unmarked (c :: s)
    rw [List.map_cons] at hends ⊢
    rw [literalWidth, literalWidth, hends, ih]

theorem recognizeOuter_unmarked (offset : Nat) {s : Text} (h : delimiter? s = none) :
    recognizeOuter offset (s.map unmark) = recognizeOuter offset s := by
  have h' : delimiter? (s.map unmark) = none := by
    rw [← Option.not_isSome_iff_eq_none, delimiter?_isSome_unmarked, h]
    decide
  simp only [recognizeOuter, h, h', literalWidth_unmarked,
    head?_unmarked_iff (show '{' ≠ '#' by decide) (show '{' ≠ '$' by decide),
    head?_unmarked_iff (show '}' ≠ '#' by decide) (show '}' ≠ '$' by decide)]

end Scanner

/-! ## Exchanged marks -/

/-- The other one of the two delimiters. -/
def Delimiter.other : Delimiter → Delimiter
  | .deferred => .dynamic
  | .dynamic => .deferred

/-- The other mark for a mark. -/
def swapMark (c : Char) : Char := ((Delimiter.ofMark? c).map fun d ↦ d.other.mark).getD c

theorem swapMark_mark (d : Delimiter) : swapMark d.mark = d.other.mark := by
  cases d <;> rfl

theorem swapMark_cases (c : Char) : swapMark c = c ∨ ∃ d : Delimiter, c = d.mark := by
  cases h : Delimiter.ofMark? c with
  | none => exact .inl (by rw [swapMark, h]; rfl)
  | some d => exact .inr ⟨d, Delimiter.ofMark?_eq_some_iff.mp h⟩

theorem unmark_swapMark (c : Char) : unmark (swapMark c) = unmark c := by
  rcases swapMark_cases c with h | ⟨_ | _, rfl⟩
  · rw [h]
  all_goals rfl

theorem utf8Size_swapMark (c : Char) : (swapMark c).utf8Size = c.utf8Size := by
  rcases swapMark_cases c with h | ⟨_ | _, rfl⟩
  · rw [h]
  all_goals rfl

namespace Text

/-- The text, which starts at the given offset, with the marks at the chosen offsets exchanged. -/
def swapMarks (chosen : Nat → Bool) : Nat → Text → Text
  | _, [] => []
  | n, c :: s => (if chosen n then swapMark c else c) :: swapMarks chosen (n + c.utf8Size) s

variable {chosen : Nat → Bool}

theorem map_unmark_swapMarks (n : Nat) (s : Text) :
    (swapMarks chosen n s).map unmark = s.map unmark := by
  induction s generalizing n with
  | nil => rfl
  | cons c s ih =>
    rw [swapMarks, List.map_cons, List.map_cons, ih]
    split
    · rw [unmark_swapMark]
    · rfl

theorem byteSize_swapMarks (n : Nat) (s : Text) : byteSize (swapMarks chosen n s) = byteSize s := by
  induction s generalizing n with
  | nil => rfl
  | cons c s ih =>
    rw [swapMarks, byteSize_cons, byteSize_cons, ih]
    split
    · rw [utf8Size_swapMark]
    · rfl

theorem swapMarks_append (n : Nat) (w r : Text) :
    swapMarks chosen n (w ++ r) = swapMarks chosen n w ++ swapMarks chosen (n + byteSize w) r := by
  induction w generalizing n with
  | nil => rfl
  | cons c w ih =>
    rw [List.cons_append, swapMarks, swapMarks, ih, byteSize_cons, Nat.add_assoc, List.cons_append]

theorem swapMarks_eq_self {n : Nat} {w : Text}
    (h : ∀ k, n ≤ k → k < n + byteSize w → chosen k = false) : swapMarks chosen n w = w := by
  induction w generalizing n with
  | nil => rfl
  | cons c w ih =>
    have hpos := c.utf8Size_pos
    rw [byteSize_cons] at h
    rw [swapMarks, h n (Nat.le_refl n) (by omega), ih fun k hn hk ↦ h k (by omega) (by omega)]
    rfl

end Text

/-! ## Scanning side by side -/

/-- The mode, whichever delimiter the expression has. -/
def Mode.plain : Mode → Mode
  | .outer => .outer
  | .inside _ => .inside .deferred

/-- The token, whichever delimiter it is or stands behind. -/
def Token.plain (t : Token) : Token :=
  match t.kind with
  | .opening _ => ⟨.opening .deferred, [], t.mode.plain, t.offset⟩
  | k => ⟨k, t.text, t.mode.plain, t.offset⟩

/-- The machine moves in the same way, whichever delimiter the expression has. -/
theorem Mode.exists_after_of_plain {m m' n : Mode} {k : Token.Kind} (hplain : n.plain = m.plain)
    (h : m.after k = some m') : ∃ n', n.after k = some n' ∧ n'.plain = m'.plain := by
  match m, n with
  | .outer, .outer => exact ⟨m', h, rfl⟩
  | .outer, .inside _ => cases hplain
  | .inside _, .outer => cases hplain
  | .inside _, .inside d =>
    rcases Mode.after_inside_eq_some h with ⟨rfl, rfl⟩ | ⟨hinner, rfl⟩
    · exact ⟨.outer, rfl, rfl⟩
    · exact ⟨.inside d, Mode.after_of_isInner hinner d, rfl⟩

namespace Scanner

/-- On its way the scanner comes to the offset `n`, outside every expression, and to a delimiter. -/
def OpensAt (s : Scanner) (n : Nat) : Prop :=
  ∃ k, (after k s).offset = n ∧ (after k s).mode = .outer ∧ (delimiter? (after k s).rest).isSome

section

variable {s s' : Scanner} {t : Token} {n : Nat}

theorem OpensAt.offset_le (h : s.OpensAt n) : s.offset ≤ n := by
  obtain ⟨k, rfl, -⟩ := h
  exact offset_le_after k s

/-- A scanner that returns a token comes to the delimiter now or with a later call. -/
theorem OpensAt.of_takes (h : s.OpensAt n) (htakes : Takes s t s') :
    (n = s.offset ∧ s.mode = .outer ∧ (delimiter? s.rest).isSome) ∨ s'.OpensAt n := by
  obtain ⟨_ | k, hoffset, hk⟩ := h
  · exact .inl ⟨hoffset.symm, hk⟩
  · rw [after, next_of_step (step_eq_some_iff.mpr htakes)] at hoffset hk
    exact .inr ⟨k, hoffset, hk⟩

/-- A scanner that is blocked can come to a delimiter only if it stands before it. -/
theorem OpensAt.of_step_error {e : LexError} (h : s.OpensAt n) (hstep : s.step = .error e) :
    s.mode = .outer ∧ (delimiter? s.rest).isSome := by
  obtain ⟨k, -, hk⟩ := h
  rwa [after_of_idle (by rw [next_of_error hstep])] at hk

end

/-- Two scanners that stand at the same place of a template, where the second one has the marks at
the chosen offsets exchanged. All the chosen offsets in front of them are those of delimiters. -/
structure Twins (chosen : Nat → Bool) (s u : Scanner) : Prop where
  /-- The texts differ in the chosen marks. -/
  rest_eq : u.rest = Text.swapMarks chosen s.offset s.rest
  /-- The scanners stand at the same offset. -/
  offset_eq : u.offset = s.offset
  /-- The modes differ in the delimiter of the expression at most. -/
  modes_eq : ∃ m n : Mode, s.modes = m.stack ∧ u.modes = n.stack ∧ n.plain = m.plain
  /-- A chosen offset is one where the scanner stands before a delimiter. -/
  opensAt : ∀ n, s.offset ≤ n → chosen n → s.OpensAt n

namespace Twins

variable {chosen : Nat → Bool} {s s' u : Scanner} {t : Token}

theorem mode_eq (h : Twins chosen s u) : u.mode.plain = s.mode.plain := by
  obtain ⟨m, n, hm, hn, hplain⟩ := h.modes_eq
  rw [mode_of_stack hm, mode_of_stack hn, hplain]

theorem opensAt_next (h : Twins chosen s u) (htakes : Takes s t s') :
    ∀ n, s'.offset ≤ n → chosen n → s'.OpensAt n := by
  intro n hn hchosen
  have hlt : s.offset < n := Nat.lt_of_lt_of_le htakes.offset_lt hn
  rcases (h.opensAt n (Nat.le_of_lt hlt) hchosen).of_takes htakes with ⟨rfl, -⟩ | hopens
  · exact absurd hlt (Nat.lt_irrefl _)
  · exact hopens

/-- Unless they stand before a delimiter, both scanners recognize the same. -/
theorem recognize_eq (h : Twins chosen s u)
    (hnone : ¬(s.mode = .outer ∧ (delimiter? s.rest).isSome)) (c : Char) :
    u.recognize c = s.recognize c := by
  -- with the marks taken for each other both texts are the same, and no rule sees the difference
  have hrest : u.rest.map unmark = s.rest.map unmark := by
    rw [h.rest_eq, Text.map_unmark_swapMarks]
  have hmode := h.mode_eq
  rw [recognize, recognize, h.offset_eq]
  cases hm : s.mode with
  | outer =>
    have hs : delimiter? s.rest = none := by
      rw [← Option.not_isSome_iff_eq_none]
      exact fun hsome ↦ hnone ⟨hm, hsome⟩
    have hu : delimiter? u.rest = none := by
      rw [← Option.not_isSome_iff_eq_none, ← delimiter?_isSome_unmarked, hrest,
        delimiter?_isSome_unmarked, hs]
      decide
    cases hn : u.mode with
    | outer =>
      rw [← recognizeOuter_unmarked _ hu, hrest, recognizeOuter_unmarked _ hs]
    | inside d => simp [hm, hn, Mode.plain] at hmode
  | inside d =>
    cases hn : u.mode with
    | outer => simp [hm, hn, Mode.plain] at hmode
    | inside d' =>
      dsimp only
      rw [← recognize_unmarked u.rest, hrest, recognize_unmarked]

/-- Before a delimiter both scanners take it, each with its own mark. -/
theorem takes_of_opening (h : Twins chosen s u) (htakes : Takes s t s') {d : Delimiter}
    (hmode : s.mode = .outer) (hd : delimiter? s.rest = some d) :
    ∃ t' u', Takes u t' u' ∧ Twins chosen s' u' ∧ t'.plain = t.plain := by
  obtain ⟨r, hr⟩ := delimiter?_eq_some_iff.mp hd
  obtain ⟨m, n, hm, hn, hplain⟩ := h.modes_eq
  obtain rfl : m = .outer := (mode_of_stack hm).symm.trans hmode
  obtain rfl : n = .outer := by
    cases n with
    | outer => rfl
    | inside d => cases hplain
  obtain ⟨rfl, rfl⟩ := htakes.unique (takes_opening hm hr)
  -- the mark may be exchanged, the brace behind it stays whether it is chosen or not
  have hsize : s.offset + d.mark.utf8Size + '{'.utf8Size =
      s.offset + Text.byteSize [d.mark, '{'] := Nat.add_assoc _ _ _
  have hbrace : (if chosen (s.offset + d.mark.utf8Size) then swapMark '{' else '{') = '{' :=
    ite_self _
  obtain ⟨d', hd'⟩ : ∃ d' : Delimiter,
      (if chosen s.offset then swapMark d.mark else d.mark) = d'.mark := by
    split
    · exact ⟨d.other, swapMark_mark d⟩
    · exact ⟨d, rfl⟩
  have hrest : u.rest = d'.mark :: '{' ::
      Text.swapMarks chosen (s.offset + Text.byteSize [d.mark, '{']) r := by
    rw [h.rest_eq, hr, Text.swapMarks, Text.swapMarks, hbrace, hd', hsize]
  refine ⟨_, _, takes_opening hn hrest, ⟨rfl, ?_, ?_, h.opensAt_next htakes⟩, ?_⟩
  · rw [h.offset_eq]
    cases d <;> cases d' <;> rfl
  · exact ⟨.inside d, .inside d', rfl, rfl, rfl⟩
  · simp only [Token.plain, h.offset_eq]

theorem takes_of_other (h : Twins chosen s u) (htakes : Takes s t s')
    (hnone : ¬(s.mode = .outer ∧ (delimiter? s.rest).isSome)) :
    ∃ t' u', Takes u t' u' ∧ Twins chosen s' u' ∧ t'.plain = t.plain := by
  obtain ⟨m, n, hm, hn, hplain⟩ := h.modes_eq
  obtain ⟨m', hm', hmodes⟩ := after_of_takes htakes hm
  obtain ⟨n', hn', hplain'⟩ := Mode.exists_after_of_plain hplain hm'
  -- no mark inside the token is exchanged: the scanner does not stop before any of them
  have hself : Text.swapMarks chosen s.offset t.text = t.text := by
    refine Text.swapMarks_eq_self fun k hk hlt ↦ ?_
    rw [← Bool.not_eq_true]
    intro hchosen
    rcases (h.opensAt k hk hchosen).of_takes htakes with ⟨-, hopens⟩ | hopens
    · exact hnone hopens
    · have := hopens.offset_le
      have := htakes.offset_next
      omega
  have hrest : u.rest = t.text ++ Text.swapMarks chosen s'.offset s'.rest := by
    rw [h.rest_eq, htakes.rest_eq, Text.swapMarks_append, hself, htakes.offset_next]
  refine ⟨⟨t.kind, t.text, u.mode, u.offset⟩,
    ⟨Text.swapMarks chosen s'.offset s'.rest, s'.offset, n'.stack⟩, ?_, ?_, ?_⟩
  · refine ⟨htakes.text_ne_nil, hrest, fun c ↦ ?_, shift_of_after hn hn', rfl, rfl, ?_⟩
    · rw [h.recognize_eq hnone, htakes.recognize_eq]
    · rw [h.offset_eq, htakes.offset_next]
  · exact ⟨rfl, rfl, ⟨m', n', hmodes, rfl, hplain'⟩, h.opensAt_next htakes⟩
  · simp only [Token.plain, h.mode_eq, htakes.mode_eq, h.offset_eq, htakes.offset_eq]

theorem step_error (h : Twins chosen s u) {e : LexError} (hstep : s.step = .error e) :
    u.step = .error e := by
  obtain ⟨m, n, hm, hn, -⟩ := h.modes_eq
  have hnone : ¬(s.mode = .outer ∧ (delimiter? s.rest).isSome) := by
    rintro ⟨hmode, hsome⟩
    obtain ⟨d, hd⟩ := Option.isSome_iff_exists.mp hsome
    obtain ⟨r, hr⟩ := delimiter?_eq_some_iff.mp hd
    obtain rfl : m = .outer := (mode_of_stack hm).symm.trans hmode
    rw [step_eq_some_iff.mpr (takes_opening hm hr)] at hstep
    cases hstep
  -- nothing in front of the scanners is exchanged: neither comes to another delimiter
  have hrest : u.rest = s.rest := by
    rw [h.rest_eq]
    refine Text.swapMarks_eq_self fun k hk _ ↦ ?_
    rw [← Bool.not_eq_true]
    exact fun hchosen ↦ hnone ((h.opensAt k hk hchosen).of_step_error hstep)
  obtain ⟨c, r, hr, hrec⟩ := (step_eq_error_iff hm).mp hstep
  exact (step_eq_error_iff hn).mpr ⟨c, r, hrest.trans hr, (h.recognize_eq hnone c).trans hrec⟩

theorem takes (h : Twins chosen s u) (htakes : Takes s t s') :
    ∃ t' u', Takes u t' u' ∧ Twins chosen s' u' ∧ t'.plain = t.plain := by
  by_cases hopening : s.mode = .outer ∧ (delimiter? s.rest).isSome
  · obtain ⟨hmode, hsome⟩ := hopening
    obtain ⟨d, hd⟩ := Option.isSome_iff_exists.mp hsome
    exact h.takes_of_opening htakes hmode hd
  · exact h.takes_of_other htakes hopening

theorem run {ts : List Token} (h : Twins chosen s u) (hrun : Run s ts s') :
    ∃ us u', Run u us u' ∧ Twins chosen s' u' ∧ us.map Token.plain = ts.map Token.plain := by
  induction hrun generalizing u with
  | refl s => exact ⟨[], u, .refl u, h, rfl⟩
  | step hstep _ ih =>
    obtain ⟨t', u₁, htakes, hnext, ht⟩ := h.takes (step_eq_some_iff.mp hstep)
    obtain ⟨us, u', hus, hend, hplain⟩ := ih hnext
    refine ⟨t' :: us, u', .step (step_eq_some_iff.mpr htakes) hus, hend, ?_⟩
    rw [List.map_cons, List.map_cons, ht, hplain]

end Twins

theorem twins_ofText {chosen : Nat → Bool} {input : Text}
    (h : ∀ n, chosen n → (ofText input).OpensAt n) :
    Twins chosen (ofText input) (ofText (Text.swapMarks chosen 0 input)) :=
  ⟨rfl, rfl, ⟨.outer, .outer, rfl, rfl, rfl⟩, fun n _ ↦ h n⟩

end Scanner

theorem Token.kind_plain_ne (t : Token) :
    (t.plain.kind ≠ .whitespace) = (t.kind ≠ .whitespace) := by
  obtain ⟨kind, text, mode, offset⟩ := t
  cases kind <;> simp [Token.plain]

/-- **Exchanging delimiters changes nothing but them.** The tokens are the same otherwise, and so is
the failure of a template that cannot be scanned. -/
theorem tokenize_swapMarks {chosen : Nat → Bool} {input : Text}
    (h : ∀ n, chosen n → (Scanner.ofText input).OpensAt n) :
    (tokenize (Text.swapMarks chosen 0 input)).map (·.map Token.plain) =
      (tokenize input).map (·.map Token.plain) := by
  have hwhite : (fun t : Token ↦ decide (t.kind ≠ .whitespace)) ∘ Token.plain =
      fun t ↦ decide (t.kind ≠ .whitespace) :=
    funext fun t ↦ by simp only [Function.comp, t.kind_plain_ne]
  obtain ⟨ts, s, hrun, hend⟩ := Scanner.exists_run (.ofText input)
  obtain ⟨us, u, hrun', htwins, hplain⟩ := (Scanner.twins_ofText h).run hrun
  rcases hend with hrest | ⟨e, hstep⟩
  · have hrest' : u.rest = [] := by
      rw [htwins.rest_eq, hrest]
      rfl
    have hfilter := congrArg (List.filter fun t : Token ↦ decide (t.kind ≠ .whitespace)) hplain
    rw [List.filter_map, List.filter_map, hwhite] at hfilter
    rw [Scanner.tokenize_of_run hrun hrest, Scanner.tokenize_of_run hrun' hrest']
    exact congrArg Except.ok hfilter
  · rw [Scanner.tokenize_of_run_error hrun hstep,
      Scanner.tokenize_of_run_error hrun' (htwins.step_error hstep)]

end Interpolation
