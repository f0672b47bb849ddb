import Interpolation.Token.Rule

/-!
# Names and numerals

The two classes of texts that both the templates and the code made of them take over unchanged. A
scanner takes a name or a numeral as the longest run of its characters, so it stops where it should
only if the character that follows cannot go on with it; that is what `takeWhile_append_of_stop` is
for.
-/

namespace Interpolation

open Token.Rule (isNameChar)

/-- Whether the text is a letter followed by letters, digits and underscores. -/
def Text.isName : Text → Bool
  | [] => false
  | c :: s => c.isAlpha && s.all isNameChar

/-- Whether the text is a run of digits with at least one of them. -/
def Text.isNumeral (s : Text) : Bool := !s.isEmpty && s.all Char.isDigit

/-- Nothing at the start of the text goes on with a run of characters of the class. -/
def Text.Stops (p : Char → Bool) (s : Text) : Prop := ∀ c ∈ s.head?, p c = false

namespace Text

theorem isNameChar_of_isAlpha {c : Char} (h : c.isAlpha = true) : isNameChar c = true := by
  simp [isNameChar, Char.isAlphanum, h]

theorem isNameChar_of_isDigit {c : Char} (h : c.isDigit = true) : isNameChar c = true := by
  simp [isNameChar, Char.isAlphanum, h]

theorem toNat_of_isAlpha {c : Char} (h : c.isAlpha = true) :
    65 ≤ c.toNat ∧ c.toNat ≤ 90 ∨ 97 ≤ c.toNat ∧ c.toNat ≤ 122 := by
  rcases Bool.or_eq_true_iff.mp h with hupper | hlower
  · exact .inl (of_decide_eq_true hupper)
  · obtain ⟨ha, hz⟩ := Bool.and_eq_true_iff.mp hlower
    exact .inr ⟨of_decide_eq_true ha, of_decide_eq_true hz⟩

theorem toNat_of_isDigit {c : Char} (h : c.isDigit = true) : 48 ≤ c.toNat ∧ c.toNat ≤ 57 := by
  obtain ⟨h0, h9⟩ := Bool.and_eq_true_iff.mp h
  exact ⟨of_decide_eq_true h0, of_decide_eq_true h9⟩

theorem isDigit_of_isAlpha {c : Char} (h : c.isAlpha = true) : c.isDigit = false := by
  refine Bool.eq_false_iff.mpr fun hdigit ↦ ?_
  have halpha := toNat_of_isAlpha h
  have hdigit := toNat_of_isDigit hdigit
  omega

theorem isWhite_of_isAlphanum {c : Char} (h : c.isAlphanum = true) : isWhite c = false := by
  have hrange : 48 ≤ c.toNat ∧ c.toNat ≤ 122 := by
    rcases Bool.or_eq_true_iff.mp h with halpha | hdigit
    · have := toNat_of_isAlpha halpha
      omega
    · have := toNat_of_isDigit hdigit
      omega
  simp [isWhite, inRanges, whiteRanges]
  omega

theorem exists_cons_of_isName {s : Text} (h : s.isName = true) :
    ∃ c t, s = c :: t ∧ c.isAlpha = true ∧ ∀ d ∈ s, isNameChar d = true := by
  cases s with
  | nil => simp [isName] at h
  | cons c t =>
    simp only [isName, Bool.and_eq_true, List.all_eq_true] at h
    exact ⟨c, t, rfl, h.1, List.forall_mem_cons.mpr ⟨isNameChar_of_isAlpha h.1, h.2⟩⟩

theorem exists_cons_of_isNumeral {s : Text} (h : s.isNumeral = true) :
    ∃ c t, s = c :: t ∧ c.isDigit = true ∧ ∀ d ∈ s, d.isDigit = true := by
  cases s with
  | nil => simp [isNumeral] at h
  | cons c t =>
    simp only [isNumeral, Bool.and_eq_true, List.all_eq_true] at h
    exact ⟨c, t, rfl, h.2 c List.mem_cons_self, h.2⟩

theorem Stops.mono {p q : Char → Bool} {s : Text} (h : s.Stops p)
    (hpq : ∀ c, q c = true → p c = true) : s.Stops q := by
  intro c hc
  have := h c hc
  exact Bool.eq_false_iff.mpr fun hq ↦ by simp [hpq c hq] at this

theorem takeWhile_append_of_stop {p : Char → Bool} {w r : Text} (hw : ∀ c ∈ w, p c = true)
    (hr : r.Stops p) : (w ++ r).takeWhile p = w := by
  have hnil : r.takeWhile p = [] := by
    cases r with
    | nil => rfl
    | cons c r => rw [List.takeWhile_cons_of_neg (by simp [hr c rfl])]
  rw [List.takeWhile_append_of_pos hw, hnil, List.append_nil]

theorem dropWhile_append_of_stop {p : Char → Bool} {w r : Text} (hw : ∀ c ∈ w, p c = true)
    (hr : r.Stops p) : (w ++ r).dropWhile p = r := by
  refine (List.append_right_inj w).mp ?_
  calc w ++ (w ++ r).dropWhile p
    _ = (w ++ r).takeWhile p ++ (w ++ r).dropWhile p := by rw [takeWhile_append_of_stop hw hr]
    _ = w ++ r := List.takeWhile_append_dropWhile

theorem exists_run (p : Char → Bool) (s : Text) :
    ∃ w r, s = w ++ r ∧ (∀ c ∈ w, p c = true) ∧ r.Stops p := by
  refine ⟨s.takeWhile p, s.dropWhile p, List.takeWhile_append_dropWhile.symm,
    List.all_eq_true.mp List.all_takeWhile, fun c hc ↦ ?_⟩
  have hstop := List.head?_dropWhile_not p s
  rwa [hc] at hstop

end Text

end Interpolation
