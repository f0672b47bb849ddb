import Interpolation.Token.Scan

/-!
# Runs of a scanner

A run is what a scanner does when it is asked for several tokens in a row. The scan of a template is
a run to its end, so a template can be scanned piece by piece: the tokens of the pieces, one after
the other, are the tokens of the whole (`tokenize_of_run`).

Each of the steps below says what one token leaves behind, with the text in front of the scanner
already cut into that token and the rest.
-/

namespace Interpolation.Scanner

/-- Asked for tokens one after the other, the first scanner gives the tokens of the list and becomes
the second one. -/
inductive Run : Scanner → List Token → Scanner → Prop where
  | refl (s : Scanner) : Run s [] s
  | step {s s' s'' : Scanner} {t : Token} {ts : List Token} (hstep : s.step = .ok (some (t, s')))
    (hrun : Run s' ts s'') : Run s (t :: ts) s''

theorem Run.trans {s s' s'' : Scanner} {ts us : List Token} (h : Run s ts s')
    (h' : Run s' us s'') : Run s (ts ++ us) s'' := by
  induction h with
  | refl => exact h'
  | step hstep _ ih => exact .step hstep (ih h')

theorem scanFrom_of_run {s s' : Scanner} {ts : List Token} (h : Run s ts s')
    (before : List Token) : scanFrom before s = scanFrom (ts.reverse ++ before) s' := by
  induction h generalizing before with
  | refl => rfl
  | @step s s' s'' t ts hstep _ ih =>
    rw [scanFrom]
    split
    · rename_i token next heq
      rw [hstep] at heq
      cases heq
      rw [ih, List.reverse_cons, List.append_assoc, List.singleton_append]
    all_goals
      rename_i heq
      rw [hstep] at heq
      cases heq

theorem scan_of_run {text : Text} {s : Scanner} {ts : List Token} (h : Run (.ofText text) ts s)
    (hend : s.rest = []) : Scan.ofText text = ⟨ts, none, s.openCount⟩ := by
  have hstep : s.step = .ok none := by
    rw [step, hend]
  rw [Scan.ofText, scanFrom_of_run h, List.append_nil, scanFrom]
  split
  · rename_i heq
    rw [hstep] at heq
    cases heq
  · rw [List.reverse_reverse]
  · rename_i heq
    rw [hstep] at heq
    cases heq

theorem tokenize_of_run {text : Text} {s : Scanner} {ts : List Token} (h : Run (.ofText text) ts s)
    (hend : s.rest = []) : tokenize text = .ok (ts.filter (·.kind ≠ .whitespace)) := by
  rw [tokenize, scan_of_run h hend, Scan.result]

/-! ## Single steps -/

section

variable {n : Nat} {ms : List Mode} {w r : Text} {k : Token.Kind} {d : Delimiter}

theorem step_of_recognize {ms' : List Mode} (hw : w ≠ [])
    (hrec : ∀ c, recognize ⟨w ++ r, n, ms⟩ c = .ok (k, w.length))
    (hshift : shift ⟨w ++ r, n, ms⟩ k = .ok ms') :
    step ⟨w ++ r, n, ms⟩ =
      .ok (some (⟨k, w, ms.headD .outer, n⟩, ⟨r, n + Text.byteSize w, ms'⟩)) := by
  obtain ⟨c, t, rfl⟩ := List.exists_cons_of_ne_nil hw
  simp only [List.cons_append] at hrec hshift ⊢
  rw [step]
  simp [hrec, hshift, mode, bind, Except.bind, pure, Except.pure]

theorem step_opening (d : Delimiter) (r : Text) (n : Nat) (ms : List Mode) :
    step ⟨d.mark :: '{' :: r, n, .outer :: ms⟩ =
      .ok (some (⟨.opening d, [d.mark, '{'], .outer, n⟩,
        ⟨r, n + Text.byteSize [d.mark, '{'], .inside d :: .outer :: ms⟩)) := by
  cases d <;> rfl

/-- Inside an expression the table of rules decides, and only a closing brace changes the mode. -/
theorem step_inside (hw : w ≠ []) (hrec : Token.recognize (w ++ r) = some (k, w.length))
    (hopening : ∀ d, k ≠ .opening d) (hclosing : k ≠ .closing) (n : Nat) (d : Delimiter)
    (ms : List Mode) :
    step ⟨w ++ r, n, .inside d :: ms⟩ =
      .ok (some (⟨k, w, .inside d, n⟩, ⟨r, n + Text.byteSize w, .inside d :: ms⟩)) := by
  refine step_of_recognize hw (fun c ↦ ?_) ?_
  · simp [recognize, mode, hrec]
  · cases k <;> simp_all [shift]

theorem step_closing (r : Text) (n : Nat) (d : Delimiter) (m : Mode) (ms : List Mode) :
    step ⟨'}' :: r, n, .inside d :: m :: ms⟩ =
      .ok (some (⟨.closing, ['}'], .inside d, n⟩, ⟨r, n + Text.byteSize ['}'], m :: ms⟩)) := by
  refine step_of_recognize (w := ['}']) (by simp) (fun c ↦ rfl) ?_
  simp [shift]

end

/-! ## Literal text -/

/-- Literal text ends at the end of the template and before a delimiter. -/
def EndsLiteral (r : Text) : Prop := r = [] ∨ ∃ (d : Delimiter) (t : Text), r = d.mark :: '{' :: t

theorem head?_append_ne {w r : Text} (hw : '{' ∉ w) (hr : EndsLiteral r) :
    (w ++ r).head? ≠ some '{' := by
  cases w with
  | nil => rcases hr with rfl | ⟨_ | _, t, rfl⟩ <;> simp [Delimiter.mark]
  | cons c w =>
    rw [List.cons_append, List.head?_cons, ne_eq, Option.some.injEq]
    exact fun hc ↦ hw (hc ▸ List.mem_cons_self)

theorem delimiter?_eq_none {c : Char} {s : Text} (h : s.head? ≠ some '{') :
    delimiter? (c :: s) = none := by
  unfold delimiter?
  split
  · rename_i heq
    cases heq
    exact absurd rfl h
  · rfl

theorem literalWidth_append {w r : Text} (hw : '{' ∉ w ∧ '}' ∉ w) (hr : EndsLiteral r)
    (width : Nat) : literalWidth width (w ++ r) = width + w.length := by
  induction w generalizing width with
  | nil => rcases hr with rfl | ⟨_ | _, t, rfl⟩ <;> rfl
  | cons c w ih =>
    simp only [List.mem_cons, not_or] at hw
    have hends : endsLiteral (c :: (w ++ r)) = false := by
      simp [endsLiteral, delimiter?_eq_none (head?_append_ne hw.1.2 hr), Ne.symm hw.1.1,
        Ne.symm hw.2.1]
    rw [List.cons_append, literalWidth, hends, if_neg Bool.false_ne_true, ih ⟨hw.1.2, hw.2.2⟩,
      List.length_cons]
    omega

theorem step_literal {w r : Text} (hne : w ≠ []) (hw : '{' ∉ w ∧ '}' ∉ w) (hr : EndsLiteral r)
    (n : Nat) (ms : List Mode) :
    step ⟨w ++ r, n, .outer :: ms⟩ =
      .ok (some (⟨.literal, w, .outer, n⟩, ⟨r, n + Text.byteSize w, .outer :: ms⟩)) := by
  refine step_of_recognize hne (fun _ ↦ ?_) rfl
  have hwidth := literalWidth_append hw hr 0
  obtain ⟨c, t, rfl⟩ := List.exists_cons_of_ne_nil hne
  simp only [List.mem_cons, not_or] at hw
  change recognizeOuter n (c :: (t ++ r)) = _
  rw [recognizeOuter, delimiter?_eq_none (head?_append_ne hw.1.2 hr)]
  simp only [List.head?_cons, Option.some.injEq, if_neg (Ne.symm hw.1.1), if_neg (Ne.symm hw.2.1)]
  rw [← List.cons_append, hwidth, Nat.zero_add]

end Interpolation.Scanner
