import Interpolation.Proofs.Template.Seams

/-!
# What may follow a token

Inside an expression the longest rule wins, so what a token is depends on the text behind it. Here
that text is exchanged for another one, and the token stays the same (`Token.recognize_follows`).
Two things have to be kept for this (`Follows`). The next character stays the same or becomes white
space, which ends names and numerals and completes no operator. And a quotation mark is never added,
so a string that has to look to the end of the template for its closing mark finds nothing new
there.
-/

namespace Interpolation

theorem Text.takeWhile_eq_of_length {p : Char → Bool} {w r : Text}
    (h : ((w ++ r).takeWhile p).length = w.length) :
    (w ++ r).takeWhile p = w ∧ ∀ c ∈ w, p c = true := by
  have hrun : (w ++ r).takeWhile p = w :=
    (List.prefix_of_prefix_length_le (List.takeWhile_prefix p) (List.prefix_append w r)
      (Nat.le_of_eq h)).eq_of_length h
  refine ⟨hrun, fun c hc ↦ ?_⟩
  rw [← hrun] at hc
  exact List.all_eq_true.mp List.all_takeWhile c hc

/-- The second text can stand behind a token in the place of the first one. -/
structure Follows (r v : Text) : Prop where
  /-- The next character stays the same or becomes white space. -/
  head : v.head? = r.head? ∨ ∃ c, v.head? = some c ∧ Text.isWhite c = true
  /-- No quotation mark is new. -/
  quote : ∀ q : Quote, q.char ∉ r → q.char ∉ v

namespace Follows

variable {r v : Text}

theorem stops (h : Follows r v) {p : Char → Bool} (hp : ∀ c, Text.isWhite c = true → p c = false)
    (hr : r.Stops p) : v.Stops p := by
  intro c hc
  rcases h.head with heq | ⟨d, hd, hwhite⟩
  · rw [heq] at hc
    exact hr c hc
  · rw [hd] at hc
    obtain rfl := Option.some.inj hc
    exact hp d hwhite

theorem takeWhile_eq (h : Follows r v) {p : Char → Bool}
    (hp : ∀ c, Text.isWhite c = true → p c = false) {w : Text}
    (hw : ((w ++ r).takeWhile p).length = w.length) :
    (w ++ r).takeWhile p = w ∧ (w ++ v).takeWhile p = w := by
  obtain ⟨hrun, hall⟩ := Text.takeWhile_eq_of_length hw
  have hr : r.Stops p := by
    have hnil : r.takeWhile p = [] := by
      rw [List.takeWhile_append_of_pos hall] at hrun
      exact List.append_right_eq_self.mp hrun
    intro c hc
    obtain ⟨r', rfl⟩ := List.head?_eq_some_iff.mp hc
    rw [Bool.eq_false_iff]
    intro hpos
    rw [List.takeWhile_cons_of_pos hpos] at hnil
    cases hnil
  exact ⟨hrun, Text.takeWhile_append_of_stop hall (h.stops hp hr)⟩

theorem head?_ne (h : Follows r v) {a : Char} (ha : Text.isWhite a = false)
    (hr : r.head? ≠ some a) : v.head? ≠ some a := by
  rcases h.head with heq | ⟨d, hd, hwhite⟩
  · rwa [heq]
  · rw [hd]
    rintro ⟨⟩
    rw [ha] at hwhite
    cases hwhite

theorem closing? (h : Follows r v) {q : Quote} {w : Text}
    (hw : StringLiteral.closing? q.char (w ++ r) = some w.length) :
    StringLiteral.closing? q.char (w ++ v) = some w.length := by
  have hq := q.char_ne_backslash
  rcases endsAtFirstMark_or_endsInPair hq hw with ⟨hnone, -⟩ | ⟨w', r', heq, hlength, hend⟩
  · cases hnone
  · rw [Nat.zero_add] at hlength
    obtain ⟨rfl, rfl⟩ := List.append_inj heq hlength
    rcases hend with hfirst | ⟨-, hr⟩
    · exact (closingFrom_append hq hfirst v 0 none).trans (by rw [Nat.zero_add])
    · rw [StringLiteral.closing?, closingFrom_append_of_notMem hq (h.quote q hr),
        ← closingFrom_append_of_notMem hq hr]
      exact hw

end Follows

namespace Token

theorem isNameChar_of_isWhite {c : Char} (h : Text.isWhite c = true) :
    Rule.isNameChar c = false := by
  rw [Bool.eq_false_iff]
  intro hname
  rcases Bool.or_eq_true_iff.mp hname with hc | hc
  · rw [Text.isWhite_of_isAlphanum hc] at h
    cases h
  · obtain rfl := of_decide_eq_true hc
    cases h

theorem isDigit_of_isWhite {c : Char} (h : Text.isWhite c = true) : c.isDigit = false := by
  have hname := isNameChar_of_isWhite h
  rw [Bool.eq_false_iff] at hname ⊢
  exact fun hc ↦ hname (Text.isNameChar_of_isDigit hc)

/-- A symbol of one character other than a quotation mark stays one whatever follows it, unless an
equals sign comes to stand behind it. -/
theorem symbol_single {c : Char} {r v : Text} {k : Kind} (h : symbol c r = some (k, 1))
    (hquote : ∀ q : Quote, c ≠ q.char) (hv : r.head? ≠ some '=' → v.head? ≠ some '=') :
    symbol c v = some (k, 1) := by
  unfold symbol at h ⊢
  split at h
  case h_1 =>
    by_cases hr : r.head? = some '='
    · rw [if_pos hr] at h
      cases h
    · rw [if_neg hr] at h
      rw [if_neg (hv hr), h]
  case h_2 | h_3 | h_4 => split at h <;> cases h
  case h_5 => exact absurd rfl (hquote .double)
  case h_6 => exact absurd rfl (hquote .single)
  all_goals exact h

theorem symbol_follows {c : Char} {w r v : Text} {k : Kind}
    (h : symbol c (w ++ r) = some (k, w.length + 1)) (hv : Follows r v) :
    symbol c (w ++ v) = some (k, w.length + 1) := by
  by_cases hquote : ∃ q : Quote, c = q.char
  · obtain ⟨q, rfl⟩ := hquote
    have hsymbol (s : Text) : symbol q.char s =
        (StringLiteral.closing? q.char s).map fun n ↦ (.string q, n + 1) := by
      cases q <;> rfl
    obtain ⟨m, hm, rfl, hlength⟩ := symbol_eq_string h
    obtain rfl : w.length = m := Nat.succ.inj hlength
    rw [hsymbol, hv.closing? hm]
    rfl
  · have hne : ∀ q : Quote, c ≠ q.char := fun q hq ↦ hquote ⟨q, hq⟩
    cases w with
    | nil => exact symbol_single h hne (hv.head?_ne rfl)
    | cons a w =>
      rw [← h]
      exact symbol_congr (fun _ _ ↦ Iff.rfl) fun q hq ↦ absurd hq (hne q)

/-- **A token stays the same** when another text follows it, unless it is white space. -/
theorem recognize_follows {w r v : Text} {k : Kind} (h : recognize (w ++ r) = some (k, w.length))
    (hk : k ≠ .whitespace) (hv : Follows r v) : recognize (w ++ v) = some (k, w.length) := by
  obtain ⟨c, w, rfl⟩ := List.exists_cons_of_ne_nil (ne_nil_of_recognize h)
  rw [List.cons_append] at h ⊢
  rcases recognize_cases h with ⟨-, hkind, -⟩ | ⟨hc, rfl, hlength⟩ | ⟨hc, rfl, hlength⟩ |
    ⟨hwhite, halpha, hdigit, hsymbol⟩
  · exact absurd hkind hk
  · obtain ⟨hr, hv⟩ := hv.takeWhile_eq (w := c :: w) (fun _ ↦ isNameChar_of_isWhite) hlength.symm
    rw [List.cons_append] at hr hv
    rw [recognize_word hc, hr, hv]
  · obtain ⟨-, hv⟩ := hv.takeWhile_eq (w := c :: w) (fun _ ↦ isDigit_of_isWhite) hlength.symm
    rw [List.cons_append] at hv
    rw [recognize_digit hc, hv]
  · rw [recognize_symbol hwhite halpha hdigit]
    exact symbol_follows hsymbol hv

theorem symbol_ne_whitespace {c : Char} {s : Text} {n : Nat} :
    symbol c s ≠ some (.whitespace, n) := by
  unfold symbol
  split <;> grind [Option.map_eq_some_iff]

theorem wordKind_ne_whitespace (w : Text) : wordKind w ≠ .whitespace :=
  wordKind_induction (motive := fun k ↦ k ≠ .whitespace) (by decide) nofun w

theorem isWhite_of_recognize {w r : Text}
    (h : recognize (w ++ r) = some (.whitespace, w.length)) : ∀ c ∈ w, Text.isWhite c = true := by
  obtain ⟨c, w, rfl⟩ := List.exists_cons_of_ne_nil (ne_nil_of_recognize h)
  rcases recognize_cases h with ⟨-, -, hlength⟩ | ⟨-, hkind, -⟩ | ⟨-, hkind, -⟩ | ⟨-, -, -, hsymbol⟩
  · exact (Text.takeWhile_eq_of_length (w := c :: w) hlength.symm).2
  · exact absurd hkind.symm (wordKind_ne_whitespace _)
  · cases hkind
  · exact absurd hsymbol symbol_ne_whitespace

end Token

end Interpolation
