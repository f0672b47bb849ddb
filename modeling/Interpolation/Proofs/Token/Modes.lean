import Interpolation.Proofs.Token.Calls

/-!
# The modes of a scanner

A scanner keeps a stack of modes, but expressions do not nest in each other: inside an expression no
rule finds a delimiter, so the stack is either the outer mode alone or one expression on top of it
(`Mode.stack`). What a scanner can do next is therefore decided by a single mode, and the kinds of
the tokens that it returns drive a machine with one state per mode (`Mode.after`). A list of tokens
that the machine accepts, each found in the mode that the machine is in, *passes* from one mode to
another (`Passes`); the tokens of every template do.
-/

namespace Interpolation

/-! ## The machine -/

/-- The stack of a scanner that is in the given mode. -/
def Mode.stack : Mode → List Mode
  | .outer => [.outer]
  | .inside d => [.inside d, .outer]

/-- The mode behind a token of the kind, if there can be such a token in the given mode. -/
def Mode.after : Mode → Token.Kind → Option Mode
  | .outer, .literal => some .outer
  | .outer, .opening d => some (.inside d)
  | .outer, _ => none
  | .inside _, .literal => none
  | .inside _, .opening _ => none
  | .inside _, .closing => some .outer
  | .inside d, _ => some (.inside d)

/-- The tokens lead from the first mode to the second one. -/
inductive Passes : Mode → List Token → Mode → Prop where
  | nil (m : Mode) : Passes m [] m
  | cons {m m' m'' : Mode} {t : Token} {ts : List Token} (hmode : t.mode = m)
    (hafter : m.after t.kind = some m') (hts : Passes m' ts m'') : Passes m (t :: ts) m''

/-- White space does not change the mode, so it can be left out. -/
theorem Passes.filter {m m' : Mode} {ts : List Token} (h : Passes m ts m') :
    Passes m (ts.filter (·.kind ≠ .whitespace)) m' := by
  induction h with
  | nil m => exact .nil m
  | @cons m m₁ m₂ t ts hmode hafter _ ih =>
    by_cases hwhite : t.kind = .whitespace
    · rw [List.filter_cons_of_neg (by simpa using hwhite)]
      rw [hwhite] at hafter
      cases m with
      | outer => cases hafter
      | inside d =>
        obtain rfl : Mode.inside d = m₁ := Option.some.inj hafter
        exact ih
    · rw [List.filter_cons_of_pos (by simpa using hwhite)]
      exact .cons hmode hafter ih

/-! ## Inside an expression -/

theorem Mode.after_of_isInner {k : Token.Kind} (h : k.isInner) (d : Delimiter) :
    (Mode.inside d).after k = some (.inside d) := by
  cases k <;> first | rfl | cases h

theorem Mode.after_inside_eq_some {k : Token.Kind} {d : Delimiter} {m : Mode}
    (h : (Mode.inside d).after k = some m) :
    (k = .closing ∧ m = .outer) ∨ (k.isInner ∧ m = .inside d) := by
  cases k <;> simp_all [Mode.after, Token.Kind.isInner]

theorem Mode.after_outer_eq_some {k : Token.Kind} {m : Mode} (h : Mode.outer.after k = some m) :
    (k = .literal ∧ m = .outer) ∨ ∃ d, k = .opening d ∧ m = .inside d := by
  cases k <;> simp_all [Mode.after]

theorem Mode.after_ne_outer {k : Token.Kind} (h : k.isInner) (m : Mode) :
    m.after k ≠ some .outer := by
  intro heq
  cases m with
  | outer => rcases Mode.after_outer_eq_some heq with ⟨rfl, -⟩ | ⟨d, rfl, -⟩ <;> cases h
  | inside d =>
    rw [Mode.after_of_isInner h] at heq
    cases heq

/-- From inside an expression the tokens either stay there or leave it with its first closing brace.
-/
theorem Passes.inside {d : Delimiter} {m : Mode} {ts : List Token} (h : Passes (.inside d) ts m) :
    (m = .inside d ∧ ∀ t ∈ ts, t.kind.isInner) ∨
      ∃ body c rest, ts = body ++ c :: rest ∧ (∀ t ∈ body, t.kind.isInner) ∧ c.kind = .closing ∧
        Passes .outer rest m := by
  induction ts with
  | nil =>
    cases h
    exact .inl ⟨rfl, List.forall_mem_nil _⟩
  | cons t ts ih =>
    cases h with
    | cons hmode hafter hts =>
      rcases Mode.after_inside_eq_some hafter with ⟨hclosing, rfl⟩ | ⟨hinner, rfl⟩
      · exact .inr ⟨[], t, ts, rfl, List.forall_mem_nil _, hclosing, hts⟩
      · rcases ih hts with ⟨rfl, hall⟩ | ⟨body, c, rest, rfl, hall, hc, hrest⟩
        · exact .inl ⟨rfl, List.forall_mem_cons.mpr ⟨hinner, hall⟩⟩
        · exact .inr ⟨t :: body, c, rest, rfl, List.forall_mem_cons.mpr ⟨hinner, hall⟩, hc, hrest⟩

/-! ## Scanners follow the machine -/

namespace Scanner

theorem mode_of_stack {s : Scanner} {m : Mode} (h : s.modes = m.stack) : s.mode = m := by
  rw [mode, h]
  cases m <;> rfl

/-- What is recognized in a mode is something that the machine accepts there. -/
theorem exists_after_of_recognize {s : Scanner} {c : Char} {m : Mode} {k : Token.Kind} {n : Nat}
    (hm : s.modes = m.stack) (h : s.recognize c = .ok (k, n)) : ∃ m', m.after k = some m' := by
  have hmode := mode_of_stack hm
  rcases recognize_eq_ok_iff.mp h with ⟨hm, h⟩ | ⟨d, hm, h⟩
  · obtain rfl : m = .outer := hmode.symm.trans hm
    rcases recognizeOuter_eq_ok_iff.mp h with ⟨d, -, rfl, -⟩ | ⟨-, rfl, -⟩
    · exact ⟨.inside d, rfl⟩
    · exact ⟨.outer, rfl⟩
  · obtain rfl : m = .inside d := hmode.symm.trans hm
    rcases Token.recognize_isInner h with hinner | rfl
    · exact ⟨.inside d, Mode.after_of_isInner hinner d⟩
    · exact ⟨.outer, rfl⟩

/-- The stack changes as the machine says; in particular a closing brace finds something to close.
-/
theorem shift_of_after {s : Scanner} {m m' : Mode} {k : Token.Kind} (hm : s.modes = m.stack)
    (h : m.after k = some m') : s.shift k = .ok m'.stack := by
  cases m with
  | outer =>
    rcases Mode.after_outer_eq_some h with ⟨rfl, rfl⟩ | ⟨d, rfl, rfl⟩
    · exact congrArg Except.ok hm
    · exact congrArg (fun ms ↦ Except.ok (.inside d :: ms)) hm
  | inside d =>
    rcases Mode.after_inside_eq_some h with ⟨rfl, rfl⟩ | ⟨hinner, rfl⟩
    · rw [shift, hm]
      rfl
    · rw [← hm]
      cases k <;> first | rfl | cases hinner

/-- A scanner is blocked only where no token is recognized: the change of modes never fails. -/
theorem step_eq_error_iff {s : Scanner} {m : Mode} {e : LexError} (hm : s.modes = m.stack) :
    s.step = .error e ↔ ∃ c r, s.rest = c :: r ∧ s.recognize c = .error e := by
  constructor
  · intro h
    rw [step] at h
    split at h
    · cases h
    · rename_i c r hrest
      refine ⟨c, r, hrest, ?_⟩
      cases hrec : s.recognize c with
      | error e' => simpa [hrec, bind, Except.bind] using h
      | ok found =>
        obtain ⟨m', hafter⟩ := exists_after_of_recognize hm hrec
        simp [hrec, shift_of_after hm hafter, bind, Except.bind, pure, Except.pure] at h
  · rintro ⟨c, r, hrest, hrec⟩
    rw [step, hrest]
    simp only [hrec, bind, Except.bind]

theorem takes_opening {s : Scanner} {d : Delimiter} {r : Text} (hm : s.modes = Mode.outer.stack)
    (hrest : s.rest = d.mark :: '{' :: r) :
    Takes s ⟨.opening d, [d.mark, '{'], .outer, s.offset⟩
      ⟨r, s.offset + Text.byteSize [d.mark, '{'], (Mode.inside d).stack⟩ := by
  obtain ⟨rest, offset, modes⟩ := s
  dsimp only at hm hrest
  subst hm hrest
  exact step_eq_some_iff.mp (step_opening d r offset [])

/-- Outside expressions a token is a delimiter, or literal text where that does not end at once. -/
theorem Takes.recognize_outer {s s' : Scanner} {t : Token} (h : Takes s t s')
    (hm : s.modes = Mode.outer.stack) :
    (∃ d, t.kind = .opening d ∧ t.text = [d.mark, '{']) ∨
      t.kind = .literal ∧ endsLiteral s.rest = false := by
  rcases recognize_eq_ok_iff.mp (h.recognize_eq ' ') with ⟨-, hrec⟩ | ⟨d, hinside, -⟩
  · rcases recognizeOuter_eq_ok_iff.mp hrec with ⟨d, hd, hkind, -⟩ | ⟨hends, hkind, -⟩
    · obtain ⟨r, hr⟩ := delimiter?_eq_some_iff.mp hd
      obtain ⟨rfl, -⟩ := h.unique (takes_opening hm hr)
      exact .inl ⟨d, hkind, rfl⟩
    · exact .inr ⟨hkind, hends⟩
  · rw [mode_of_stack hm] at hinside
    cases hinside

theorem after_of_takes {s s' : Scanner} {t : Token} {m : Mode} (h : Takes s t s')
    (hm : s.modes = m.stack) : ∃ m', m.after t.kind = some m' ∧ s'.modes = m'.stack := by
  obtain ⟨m', hm'⟩ := exists_after_of_recognize hm (h.recognize_eq ' ')
  refine ⟨m', hm', ?_⟩
  have hshift := h.shift_eq
  rw [shift_of_after hm hm'] at hshift
  exact (Except.ok.inj hshift).symm

theorem passes_of_run {s s' : Scanner} {ts : List Token} (h : Run s ts s') {m : Mode}
    (hm : s.modes = m.stack) : ∃ m', s'.modes = m'.stack ∧ Passes m ts m' := by
  induction h generalizing m with
  | refl => exact ⟨m, hm, .nil m⟩
  | step hstep _ ih =>
    have htakes := step_eq_some_iff.mp hstep
    obtain ⟨m₁, hafter, hm₁⟩ := after_of_takes htakes hm
    obtain ⟨m', hm', hts⟩ := ih hm₁
    exact ⟨m', hm', .cons (htakes.mode_eq.trans (mode_of_stack hm)) hafter hts⟩

/-- **The tokens of a template pass from the outer mode to the mode at its end.** -/
theorem passes_of_tokenize {input : Text} {ts : List Token} (h : tokenize input = .ok ts) :
    ∃ m, Passes .outer ts m := by
  obtain ⟨all, s, hrun, -, rfl⟩ := tokenize_eq_ok_iff.mp h
  obtain ⟨m, -, hall⟩ := passes_of_run hrun (m := .outer) rfl
  exact ⟨m, hall.filter⟩

end Scanner

end Interpolation
