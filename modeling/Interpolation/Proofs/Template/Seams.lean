import Interpolation.Proofs.Template.Spelling
import Interpolation.Proofs.Token.Modes
import Interpolation.Proofs.Token.Strings

/-!
# Scanning across a seam

Two texts are joined. The tokens of the joint text are those of the first one and, moved along,
those of the second (`tokenize_append`). Behind the seam this is clear, since a scanner does not
look back. In front of it a scanner may look ahead, past the seam, and that matters in two ways.

Literal text at the end of the first text goes on if the second one starts with literal text. And a
string ends at its first quotation mark that is not paired with a backslash, but if there is none,
then at the last one at all. So the text behind the seam can move its end, unless it has no such
mark or the string did not need the second rule (`endsInPair`).
-/

namespace Interpolation

/-! ## Strings -/

/-- Whether the last character of a text is the second one of a pair, when a backslash and the
character behind it are read as a pair from left to right. -/
def endsInPair : Text → Bool
  | c :: d :: s =>
    if StringLiteral.isPair c d then s.isEmpty || endsInPair s else endsInPair (d :: s)
  | _ => false

/-- A string ends at the first mark that is not paired, or at a paired one behind which there is no
mark at all. -/
theorem endsAtFirstMark_or_endsInPair {q : Char} (hq : q ≠ '\\') {width : Nat}
    {fallback : Option Nat} {s : Text} {n : Nat}
    (h : StringLiteral.closingFrom q width fallback s = some n) :
    (fallback = some n ∧ q ∉ s) ∨
      ∃ v r, s = v ++ r ∧ n = width + v.length ∧ (endsAtFirstMark q v ∨ endsInPair v ∧ q ∉ r) := by
  fun_induction StringLiteral.closingFrom q width fallback s with
  | case1 => exact .inl ⟨h, List.not_mem_nil⟩
  | case2 width fallback =>
    cases h
    exact .inr ⟨[q], [], rfl, rfl, .inl (by simp [endsAtFirstMark])⟩
  | case3 width fallback c hc => exact .inl ⟨h, by simpa using Ne.symm hc⟩
  | case4 width fallback c d s hpair ih =>
    have hpair' : c = '\\' ∧ d ≠ '\n' := by simpa [StringLiteral.isPair] using hpair
    rcases ih h with ⟨hfallback, hs⟩ | ⟨v, r, rfl, rfl, hv⟩
    · by_cases hd : d = q
      · rw [if_pos hd] at hfallback
        cases hfallback
        exact .inr ⟨[c, d], s, rfl, rfl, .inr ⟨by simp [endsInPair, hpair], hs⟩⟩
      · rw [if_neg hd] at hfallback
        refine .inl ⟨hfallback, ?_⟩
        simp only [List.mem_cons, not_or]
        exact ⟨fun hc ↦ hq (hc.trans hpair'.1), Ne.symm hd, hs⟩
    · refine .inr ⟨c :: d :: v, r, rfl, by simp only [List.length_cons]; omega, ?_⟩
      rw [endsAtFirstMark, if_pos hpair', endsInPair, if_pos hpair, Bool.or_eq_true]
      exact hv.imp_right fun hlast ↦ ⟨.inr hlast.1, hlast.2⟩
  | case5 width fallback d s =>
    cases h
    exact .inr ⟨[q], d :: s, rfl, rfl, .inl (by simp [endsAtFirstMark])⟩
  | case6 width fallback c d s hpair hc ih =>
    have hpair' : ¬(c = '\\' ∧ d ≠ '\n') := by simpa [StringLiteral.isPair] using hpair
    rcases ih h with ⟨hfallback, hs⟩ | ⟨_ | ⟨e, v⟩, r, heq, rfl, hv⟩
    · exact .inl ⟨hfallback, List.mem_cons.not.mpr (not_or.mpr ⟨Ne.symm hc, hs⟩)⟩
    · simp [endsAtFirstMark, endsInPair] at hv
    · cases heq
      refine .inr ⟨c :: d :: v, r, rfl, by simp only [List.length_cons]; omega, ?_⟩
      rw [endsAtFirstMark, if_neg hpair', endsInPair, if_neg hpair]
      simpa [hc] using hv

theorem closingFrom_append_of_notMem {q : Char} (hq : q ≠ '\\') {r : Text} (hr : q ∉ r)
    (width : Nat) (fallback : Option Nat) (s : Text) :
    StringLiteral.closingFrom q width fallback (s ++ r) =
      StringLiteral.closingFrom q width fallback s := by
  fun_induction StringLiteral.closingFrom q width fallback s with
  | case1 width fallback => exact StringLiteral.closingFrom_of_notMem hr width fallback
  | case2 width fallback =>
    exact closingFrom_append hq (s := [q]) (by simp [endsAtFirstMark]) r width fallback
  | case3 width fallback c hc =>
    exact StringLiteral.closingFrom_of_notMem (List.mem_cons.not.mpr (not_or.mpr ⟨Ne.symm hc, hr⟩))
      width fallback
  | case4 width fallback c d s hpair ih =>
    rw [List.cons_append, List.cons_append, StringLiteral.closingFrom, if_pos hpair, ih]
  | case5 width fallback d s hpair =>
    rw [List.cons_append, List.cons_append, StringLiteral.closingFrom, if_neg hpair, if_pos rfl]
  | case6 width fallback c d s hpair hc ih =>
    rw [List.cons_append, List.cons_append, StringLiteral.closingFrom, if_neg hpair, if_neg hc,
      ← List.cons_append, ih]

/-- A string keeps its end if the text that is added has no such mark, or if the end is not paired
with a backslash. -/
theorem closing?_append {q : Char} (hq : q ≠ '\\') {s r : Text} {n : Nat}
    (h : StringLiteral.closing? q s = some n) (hr : q ∈ r → endsInPair (s.take n) = false) :
    StringLiteral.closing? q (s ++ r) = some n := by
  by_cases hmem : q ∈ r
  · -- the end is not paired, so it is the first mark that can end the string
    rcases endsAtFirstMark_or_endsInPair hq h with ⟨hnone, -⟩ | ⟨v, u, rfl, rfl, hv⟩
    · cases hnone
    · have htake : (v ++ u).take (0 + v.length) = v := by
        rw [Nat.zero_add, List.take_left]
      have hunpaired := hr hmem
      rw [htake] at hunpaired
      rw [List.append_assoc]
      exact closingFrom_append hq (hv.resolve_right (by simp [hunpaired])) (u ++ r) 0 none
  · exact (closingFrom_append_of_notMem hq hmem 0 none s).trans h

/-! ## Tokens inside expressions -/

namespace Token

theorem symbol_eq_string {q : Quote} {s : Text} {k : Kind} {n : Nat}
    (h : symbol q.char s = some (k, n)) :
    ∃ m, StringLiteral.closing? q.char s = some m ∧ k = .string q ∧ n = m + 1 := by
  cases q with
  | double =>
    obtain ⟨m, hm, heq⟩ := Option.map_eq_some_iff.mp h
    cases heq
    exact ⟨m, hm, rfl, rfl⟩
  | single =>
    obtain ⟨m, hm, heq⟩ := Option.map_eq_some_iff.mp h
    cases heq
    exact ⟨m, hm, rfl, rfl⟩

theorem symbol_append {c : Char} {s r : Text} {k : Kind} {n : Nat} (h : symbol c s = some (k, n))
    (hrest : k = .closing ∨ s ≠ [])
    (hquote : ∀ q : Quote, k = .string q → q.char ∈ r → endsInPair (s.take (n - 1)) = false) :
    symbol c (s ++ r) = some (k, n) := by
  rcases hrest with rfl | hne
  · rcases symbol_cases h with ⟨q, m, -, -, hk, -⟩ | ⟨hk | ⟨-, rfl⟩, -⟩
    · cases hk
    · cases hk
    · rw [← h]
      rfl
  · rw [← h]
    refine symbol_congr (fun a _ ↦ ?_) ?_
    · rw [List.head?_append_of_ne_nil s hne]
    · rintro q rfl
      obtain ⟨m, hm, rfl, rfl⟩ := symbol_eq_string h
      rw [hm, closing?_append q.char_ne_backslash hm (hquote q rfl)]

theorem takeWhile_append_of_lt {p : Char → Bool} {s : Text}
    (h : (s.takeWhile p).length < s.length) (r : Text) :
    (s ++ r).takeWhile p = s.takeWhile p := by
  rw [List.takeWhile_append, if_neg (Nat.ne_of_lt h)]

/-- A token that is not the last thing in a text, or closes an expression, is not changed by what
follows. -/
theorem recognize_append {s r : Text} {k : Kind} {n : Nat} (h : recognize s = some (k, n))
    (hrest : k = .closing ∨ n < s.length)
    (hquote : ∀ q : Quote, k = .string q → q.char ∈ r → endsInPair (s.take n).tail = false) :
    recognize (s ++ r) = some (k, n) := by
  have hpos := recognize_pos h
  cases s with
  | nil => cases h
  | cons c s =>
    rw [List.cons_append]
    rcases recognize_cases h with ⟨hc, rfl, rfl⟩ | ⟨hc, rfl, rfl⟩ | ⟨hc, rfl, rfl⟩ |
      ⟨hwhite, halpha, hdigit, hsymbol⟩
    · rw [recognize_white hc, ← List.cons_append,
        takeWhile_append_of_lt (hrest.resolve_left (by simp))]
    · have hne : wordKind ((c :: s).takeWhile Rule.isNameChar) ≠ .closing :=
        Kind.ne_closing_of_isInner (wordKind_isInner _)
      rw [recognize_word hc, ← List.cons_append, takeWhile_append_of_lt (hrest.resolve_left hne)]
    · rw [recognize_digit hc, ← List.cons_append,
        takeWhile_append_of_lt (hrest.resolve_left (by simp))]
    · rw [recognize_symbol hwhite halpha hdigit]
      -- a symbol that is not the last character has a next one, and that does not change
      refine symbol_append hsymbol (hrest.imp_right fun hlt hs ↦ ?_) fun q hk hr ↦ ?_
      · rw [hs, List.length_singleton] at hlt
        omega
      · obtain ⟨m, rfl⟩ := Nat.exists_eq_succ_of_ne_zero (Nat.ne_of_gt hpos)
        exact hquote q hk hr

end Token

/-! ## Tokens outside expressions -/

namespace Scanner

theorem delimiter?_append {s : Text} {d : Delimiter} (h : delimiter? s = some d) (r : Text) :
    delimiter? (s ++ r) = some d := by
  obtain ⟨t, rfl⟩ := delimiter?_eq_some_iff.mp h
  exact delimiter?_eq_some_iff.mpr ⟨t ++ r, rfl⟩

theorem delimiter?_append_eq (c d : Char) (s r : Text) :
    delimiter? (c :: d :: s ++ r) = delimiter? (c :: d :: s) := by
  by_cases hd : d = '{'
  · subst hd
    rfl
  · rw [delimiter?_eq_none (by simpa using hd), List.cons_append,
      delimiter?_eq_none (by simpa using hd)]

theorem endsLiteral_append {c : Char} {s : Text} (h : endsLiteral (c :: s) = true) (r : Text) :
    endsLiteral (c :: (s ++ r)) = true := by
  simp only [endsLiteral, Bool.or_eq_true, List.head?_cons] at h ⊢
  refine h.imp_left fun hc ↦ hc.imp_left fun hsome ↦ ?_
  obtain ⟨d, hd⟩ := Option.isSome_iff_exists.mp hsome
  rw [← List.cons_append, delimiter?_append hd]
  rfl

theorem literalWidth_append_of_lt {width : Nat} {s : Text}
    (h : literalWidth width s < width + s.length) (r : Text) :
    literalWidth width (s ++ r) = literalWidth width s := by
  induction s generalizing width with
  | nil => exact absurd h (Nat.lt_irrefl _)
  | cons c s ih =>
    by_cases hends : endsLiteral (c :: s) = true
    · rw [List.cons_append, literalWidth, literalWidth, if_pos hends,
        if_pos (endsLiteral_append hends r)]
    · rw [literalWidth, if_neg hends] at h ⊢
      -- behind the last character there would be nothing to stop at
      obtain ⟨d, s, rfl⟩ : ∃ d t, s = d :: t := by
        cases s with
        | nil => exact absurd h (Nat.lt_irrefl _)
        | cons d t => exact ⟨d, t, rfl⟩
      have hends' : ¬endsLiteral (c :: (d :: s ++ r)) = true := by
        rwa [endsLiteral, ← List.cons_append, delimiter?_append_eq]
      rw [List.length_cons] at h
      rw [List.cons_append, literalWidth, if_neg hends', ih (by omega)]

theorem brace_notMem_of_literalWidth {width : Nat} {s : Text}
    (h : literalWidth width s = width + s.length) : '{' ∉ s ∧ '}' ∉ s := by
  obtain ⟨w, r, rfl, hwidth, hw, -⟩ := literalWidth_cut width s
  obtain rfl : r = [] := by
    rw [hwidth, List.length_append] at h
    exact List.length_eq_zero_iff.mp (by omega)
  rwa [List.append_nil]

theorem endsLiteral_eq_false {s : Text} (h : 0 < literalWidth 0 s) : endsLiteral s = false := by
  cases s with
  | nil => rfl
  | cons c s =>
    rw [← Bool.not_eq_true]
    intro hends
    rw [literalWidth, if_pos hends] at h
    exact absurd h (Nat.lt_irrefl 0)

/-- Outside expressions a token is not changed by what follows, unless it is literal text up to the
end and more of it follows. -/
theorem recognizeOuter_append {offset : Nat} {s r : Text} {k : Token.Kind} {n : Nat}
    (hpos : 0 < n) (h : recognizeOuter offset s = .ok (k, n))
    (hseam : k = .literal → n = s.length → EndsLiteral r) :
    recognizeOuter offset (s ++ r) = .ok (k, n) := by
  rw [recognizeOuter_eq_ok_iff] at h ⊢
  rcases h with ⟨d, hd, rfl, rfl⟩ | ⟨-, rfl, rfl⟩
  · exact .inl ⟨d, delimiter?_append hd r, rfl, rfl⟩
  · -- literal text ends inside the first text, or at the seam, where `r` ends it
    have hwidth : literalWidth 0 (s ++ r) = literalWidth 0 s := by
      by_cases hend : literalWidth 0 s = s.length
      · have hbraces := brace_notMem_of_literalWidth (hend.trans (Nat.zero_add _).symm)
        rw [literalWidth_append hbraces (hseam rfl hend), hend, Nat.zero_add]
      · refine literalWidth_append_of_lt ?_ r
        have := literalWidth_le_length 0 s
        omega
    refine .inr ⟨endsLiteral_eq_false ?_, rfl, hwidth.symm⟩
    rw [hwidth]
    exact hpos

/-! ## In front of the seam -/

/-- The scanner with more text behind its own. -/
def extend (s : Scanner) (r : Text) : Scanner := { s with rest := s.rest ++ r }

section

variable {s s' : Scanner} {t : Token} {ts : List Token} {m : Mode} {r : Text}

theorem Takes.extend (h : Takes s t s')
    (hliteral : t.kind = .literal → s'.rest = [] → EndsLiteral r)
    (hinner : t.kind.isInner → s'.rest ≠ [])
    (hquote : ∀ q : Quote, t.kind = .string q → q.char ∈ r → endsInPair t.text.tail = false) :
    Takes (s.extend r) t (s'.extend r) := by
  have hlength : s.rest.length = t.text.length + s'.rest.length := by
    rw [h.rest_eq, List.length_append]
  have hrest : (s.extend r).rest = t.text ++ (s'.extend r).rest := by
    rw [Scanner.extend, Scanner.extend, h.rest_eq, List.append_assoc]
  refine ⟨h.text_ne_nil, hrest, fun c ↦ ?_, h.shift_eq, h.mode_eq, h.offset_eq, h.offset_next⟩
  rcases recognize_eq_ok_iff.mp (h.recognize_eq c) with ⟨hmode, hrec⟩ | ⟨d, hmode, hrec⟩
  · have hpos := List.length_pos_iff.mpr h.text_ne_nil
    refine recognize_eq_ok_iff.mpr (.inl ⟨hmode, recognizeOuter_append hpos hrec fun hk hn ↦ ?_⟩)
    exact hliteral hk (List.length_eq_zero_iff.mp (by omega))
  · have htake : s.rest.take t.text.length = t.text := by
      rw [h.rest_eq, List.take_left]
    refine recognize_eq_ok_iff.mpr (.inr ⟨d, hmode, Token.recognize_append hrec ?_ ?_⟩)
    · refine (Token.recognize_isInner hrec).symm.imp_right fun hk ↦ ?_
      have := List.length_pos_iff.mpr (hinner hk)
      omega
    · rw [htake]
      exact hquote

theorem Run.eq_of_rest_eq_nil (h : Run s ts s') (hrest : s.rest = []) : ts = [] ∧ s' = s := by
  cases h with
  | refl => exact ⟨rfl, rfl⟩
  | step hstep _ =>
    rw [step_eq_none_iff.mpr hrest] at hstep
    cases hstep

/-- A run that ends outside every expression goes in the same way with more text behind it, unless
its last token is literal text that goes on, or a string of it ends elsewhere. -/
theorem Run.extend (h : Run s ts s') (hm : s.modes = m.stack) (hrest : s'.rest = [])
    (hend : s'.modes = Mode.outer.stack)
    (hliteral : ∀ t, ts.getLast? = some t → t.kind = .literal → EndsLiteral r)
    (hquote : ∀ q : Quote, q.char ∈ r → ∀ t ∈ ts, t.kind = .string q →
      endsInPair t.text.tail = false) :
    Run (s.extend r) ts (s'.extend r) := by
  induction h generalizing m with
  | refl s => exact .refl _
  | @step s s₁ s' t ts hstep hrun ih =>
    have htakes := step_eq_some_iff.mp hstep
    obtain ⟨m₁, hafter, hm₁⟩ := after_of_takes htakes hm
    refine .step (step_eq_some_iff.mpr (htakes.extend ?_ ?_ ?_)) (ih hm₁ hrest hend ?_ ?_)
    · intro hk hnil
      obtain ⟨rfl, rfl⟩ := hrun.eq_of_rest_eq_nil hnil
      exact hliteral t rfl hk
    · -- the text cannot end here: an expression is open
      intro hk hnil
      obtain ⟨-, rfl⟩ := hrun.eq_of_rest_eq_nil hnil
      obtain rfl : m₁ = .outer := (mode_of_stack hm₁).symm.trans (mode_of_stack hend)
      exact Mode.after_ne_outer hk m hafter
    · exact fun q hk hr ↦ hquote q hr t List.mem_cons_self hk
    · intro u hu
      refine hliteral u ?_
      rw [List.getLast?_cons, hu]
      rfl
    · exact fun q hr u hu ↦ hquote q hr u (List.mem_cons_of_mem t hu)

end

/-! ## Behind the seam -/

/-- The scanner further along. -/
def move (n : Nat) (s : Scanner) : Scanner := { s with offset := n + s.offset }

end Scanner

def Token.move (n : Nat) (t : Token) : Token := { t with offset := n + t.offset }

namespace Scanner

theorem shift_congr {s u : Scanner} {k : Token.Kind} {modes : List Mode}
    (hmodes : u.modes = s.modes) (h : s.shift k = .ok modes) : u.shift k = .ok modes := by
  unfold shift at h ⊢
  rw [hmodes]
  split at h
  · exact h
  · split at h
    · cases h
    · rw [← h]
      exact if_neg ‹_›
  · exact h

theorem Takes.relocate {s s' u : Scanner} {t : Token} (h : Takes s t s') (hrest : u.rest = s.rest)
    (hmodes : u.modes = s.modes) :
    Takes u { t with offset := u.offset }
      { s' with offset := u.offset + Text.byteSize t.text } := by
  have hmode : u.mode = s.mode := by rw [mode, mode, hmodes]
  refine ⟨h.text_ne_nil, hrest.trans h.rest_eq, fun c ↦ ?_, ?_, h.mode_eq.trans hmode.symm, rfl,
    rfl⟩
  · rw [recognize_eq_ok_iff, hmode, hrest]
    rcases recognize_eq_ok_iff.mp (h.recognize_eq c) with ⟨houter, hrec⟩ | hrec
    · exact .inl ⟨houter, recognizeOuter_eq_ok_iff.mpr (recognizeOuter_eq_ok_iff.mp hrec)⟩
    · exact .inr hrec
  · exact shift_congr hmodes h.shift_eq

theorem Takes.move {s s' : Scanner} {t : Token} (h : Takes s t s') (n : Nat) :
    Takes (s.move n) (t.move n) (s'.move n) := by
  have hmove := h.relocate (u := s.move n) rfl rfl
  have ht : t.move n = { t with offset := (s.move n).offset } := by
    rw [Token.move, h.offset_eq]
    rfl
  have hs' : s'.move n = { s' with offset := (s.move n).offset + Text.byteSize t.text } := by
    rw [Scanner.move, h.offset_next, ← Nat.add_assoc]
    rfl
  rwa [ht, hs']

theorem Run.move {s s' : Scanner} {ts : List Token} (h : Run s ts s') (n : Nat) :
    Run (s.move n) (ts.map (Token.move n)) (s'.move n) := by
  induction h with
  | refl => exact .refl _
  | step hstep _ ih =>
    exact .step (step_eq_some_iff.mpr ((step_eq_some_iff.mp hstep).move n)) ih

end Scanner

/-! ## At the seam -/

/-- Outside expressions there is no white space of its own, so the last token is not left out. -/
theorem Passes.getLast?_filter {m : Mode} {ts : List Token} (h : Passes m ts .outer) :
    (ts.filter (·.kind ≠ .whitespace)).getLast? = ts.getLast? := by
  induction ts generalizing m with
  | nil => rfl
  | cons t ts ih =>
    cases h with
    | cons hmode hafter hts =>
      have hrest := ih hts
      by_cases hwhite : t.kind = .whitespace
      · rw [List.filter_cons_of_neg (by simpa using hwhite), hrest]
        -- white space leaves the expression open, so there are more tokens
        obtain ⟨u, us, rfl⟩ : ∃ u us, ts = u :: us := by
          cases ts with
          | nil =>
            cases hts
            rw [hwhite] at hafter
            exact absurd hafter (Mode.after_ne_outer rfl m)
          | cons u us => exact ⟨u, us, rfl⟩
        rw [List.getLast?_cons_cons]
      · rw [List.filter_cons_of_pos (by simpa using hwhite), List.getLast?_cons, List.getLast?_cons,
          hrest]

theorem Passes.head?_filter {m : Mode} {ts : List Token} (h : Passes .outer ts m) :
    (ts.filter (·.kind ≠ .whitespace)).head? = ts.head? := by
  cases h with
  | nil => rfl
  | @cons _ _ _ t ts _ hafter _ =>
    have hkind : t.kind ≠ .whitespace := by
      intro hk
      rw [hk] at hafter
      cases hafter
    rw [List.filter_cons_of_pos (by simpa using hkind), List.head?_cons, List.head?_cons]

namespace Scanner

theorem eq_nil_of_tokenize {text : Text} (h : tokenize text = .ok []) : text = [] := by
  obtain ⟨all, s, hrun, hrest, hnil⟩ := tokenize_eq_ok_iff.mp h
  obtain ⟨m, -, hall⟩ := passes_of_run hrun (m := .outer) rfl
  have hhead := hall.head?_filter
  rw [← hnil] at hhead
  obtain rfl := List.head?_eq_none_iff.mp hhead.symm
  cases hrun
  exact hrest

/-- A template whose first token is not literal text is empty or starts with a delimiter. -/
theorem endsLiteral_of_run {text : Text} {s : Scanner} {ts : List Token}
    (h : Run (ofText text) ts s) (hrest : s.rest = [])
    (hhead : ∀ t, ts.head? = some t → t.kind ≠ .literal) : EndsLiteral text := by
  cases h with
  | refl => exact .inl hrest
  | @step _ _ _ t ts hstep _ =>
    have htakes := step_eq_some_iff.mp hstep
    rcases htakes.recognize_outer rfl with ⟨d, -, htext⟩ | ⟨hk, -⟩
    · have hrest := htakes.rest_eq
      rw [htext] at hrest
      exact .inr ⟨d, _, hrest⟩
    · exact absurd hk (hhead t rfl)

end Scanner

/-- **The tokens of two texts in a row.** -/
theorem tokenize_append {front back : Text} {ts us : List Token} (hts : tokenize front = .ok ts)
    (hus : tokenize back = .ok us) (hmode : ∀ m, Passes .outer ts m → m = .outer)
    (hseam : ∀ t u, ts.getLast? = some t → us.head? = some u → t.kind = .literal →
      u.kind ≠ .literal)
    (hquote : ∀ q : Quote, q.char ∈ back → ∀ t ∈ ts, t.kind = .string q →
      endsInPair t.text.tail = false) :
    tokenize (front ++ back) = .ok (ts ++ us.map (Token.move (Text.byteSize front))) := by
  obtain ⟨all, s, hrun, hrest, rfl⟩ := Scanner.tokenize_eq_ok_iff.mp hts
  obtain ⟨all', s', hrun', hrest', rfl⟩ := Scanner.tokenize_eq_ok_iff.mp hus
  obtain ⟨m, hm, hall⟩ := Scanner.passes_of_run hrun (m := .outer) rfl
  obtain ⟨m', -, hall'⟩ := Scanner.passes_of_run hrun' (m := .outer) rfl
  obtain rfl := hmode m hall.filter
  rw [hall.getLast?_filter, hall'.head?_filter] at hseam
  have hliteral : ∀ t, all.getLast? = some t → t.kind = .literal → Scanner.EndsLiteral back :=
    fun t ht hk ↦ Scanner.endsLiteral_of_run hrun' hrest' fun u hu ↦ hseam t u ht hu hk
  have hfront := hrun.extend (m := .outer) rfl hrest hm hliteral fun q hr t ht hk ↦
    hquote q hr t (List.mem_filter.mpr ⟨ht, by simp [hk]⟩) hk
  have hback := hrun'.move (Text.byteSize front)
  have htiles : Scanner.Tiles front all s :=
    Scanner.tiles_of_run hrun (Scanner.tiles_ofText front)
  have hoffset : s.offset = Text.byteSize front := by
    have hcover := htiles.text_append_rest
    rw [hrest, List.append_nil] at hcover
    rw [htiles.offset_eq, hcover]
  have hscanner : s.extend back = (Scanner.ofText back).move (Text.byteSize front) := by
    rw [Scanner.extend, Scanner.move, hrest, hoffset, hm]
    rfl
  rw [hscanner] at hfront
  have hjoint : Scanner.Run (.ofText (front ++ back)) _ _ := hfront.trans hback
  rw [Scanner.tokenize_of_run hjoint hrest', List.filter_append, List.filter_map]
  rfl

end Interpolation
