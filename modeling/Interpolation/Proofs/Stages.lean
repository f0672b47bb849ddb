import Interpolation.Compile

/-!
# The stages of a compilation

A compilation is its stages one after the other, and the first that fails decides. Here that is said
once: what a successful compilation went through, and where one that fails has stopped. Other
modules argue about the stages and do not look at how they are put together.
-/

namespace Interpolation

/-! ## Results -/

namespace Result

variable {ε ε' α β : Type}

theorem bind_eq_ok_iff {x : Except ε α} {f : α → Except ε β} {b : β} :
    x >>= f = .ok b ↔ ∃ a, x = .ok a ∧ f a = .ok b := by
  cases x <;> simp [bind, Except.bind]

theorem mapError_eq_ok_iff {x : Except ε α} {f : ε → ε'} {a : α} :
    x.mapError f = .ok a ↔ x = .ok a := by
  cases x with
  | error e => exact iff_of_false nofun nofun
  | ok b =>
    constructor
    · rintro ⟨⟩
      rfl
    · rintro ⟨⟩
      rfl

end Result

/-! ## Reading -/

theorem readTemplate_eq_ok_iff {limit : Nat} {input : Text} {x : Template} :
    readTemplate limit input = .ok x ↔
      ∃ ts, tokenize input = .ok ts ∧ parse limit ts = .ok x := by
  simp only [readTemplate, Result.bind_eq_ok_iff, Result.mapError_eq_ok_iff]

theorem readTemplate_of_lexError {limit : Nat} {input : Text} {e : LexError}
    (h : tokenize input = .error e) : readTemplate limit input = .error (.lex e) := by
  rw [readTemplate, h]
  rfl

theorem readTemplate_of_parseError {limit : Nat} {input : Text} {ts : List Token} {e : ParseError}
    (hts : tokenize input = .ok ts) (h : parse limit ts = .error e) :
    readTemplate limit input = .error (.parse e) := by
  rw [readTemplate, hts]
  change (parse limit ts).mapError CompileError.parse = _
  rw [h]
  rfl

theorem readTemplate_cases (limit : Nat) (input : Text) :
    (∃ x, readTemplate limit input = .ok x) ∨
      (∃ e, readTemplate limit input = .error (.lex e)) ∨
        ∃ e, readTemplate limit input = .error (.parse e) := by
  cases hts : tokenize input with
  | error e => exact .inr (.inl ⟨e, readTemplate_of_lexError hts⟩)
  | ok ts =>
    cases hx : parse limit ts with
    | error e => exact .inr (.inr ⟨e, readTemplate_of_parseError hts hx⟩)
    | ok x => exact .inl ⟨x, readTemplate_eq_ok_iff.mpr ⟨ts, hts, hx⟩⟩

/-! ## Lowering -/

section

variable {helper : Text} {c : Code}

theorem Expr.lower_unary_eq_ok_iff {op : UnaryOp} {operand : Expr} :
    (Expr.unary op operand).lower helper = .ok c ↔
      ∃ d, operand.lower helper = .ok d ∧ op.lower helper d = .ok c :=
  Result.bind_eq_ok_iff

theorem Expr.lower_binary_eq_ok_iff {op : BinaryOp} {lhs rhs : Expr} :
    (Expr.binary op lhs rhs).lower helper = .ok c ↔
      ∃ a b, lhs.lower helper = .ok a ∧ rhs.lower helper = .ok b ∧ .binary op.lower a b = c := by
  simp only [lower, Result.bind_eq_ok_iff, pure, Except.pure, Except.ok.injEq, exists_and_left]

theorem Expr.lower_ternary_eq_ok_iff {condition consequent alternate : Expr} :
    (Expr.ternary condition consequent alternate).lower helper = .ok c ↔
      ∃ a b d, condition.lower helper = .ok a ∧ consequent.lower helper = .ok b ∧
        alternate.lower helper = .ok d ∧ .conditional a b d = c := by
  simp only [lower, Result.bind_eq_ok_iff, pure, Except.pure, Except.ok.injEq, exists_and_left]

theorem Template.lowerFrom_cons_eq_ok_iff {before : Code} {i : Item} {x : Template} :
    Template.lowerFrom helper before (i :: x) = .ok c ↔
      ∃ d, i.lower helper = .ok d ∧ Template.lowerFrom helper (before.concat d) x = .ok c :=
  Result.bind_eq_ok_iff

theorem Template.lower_cons_eq_ok_iff {i : Item} {x : Template} :
    Template.lower helper (i :: x) = .ok c ↔
      ∃ d, i.lower helper = .ok d ∧ Template.lowerFrom helper d x = .ok c :=
  Result.bind_eq_ok_iff

end

/-! ## Compiling -/

/-- The stage that failed, if the compilation came to its stages. -/
def CompileError.stage? : CompileError → Option Stage
  | .lex _ => some .lexing
  | .parse _ => some .parsing
  | .lower _ => some .lowering
  | .inputTooLarge _ _ => none

theorem compile_eq_ok_iff {o : Options} {input : Text} {code : Code} :
    compile o input = .ok code ↔
      Text.byteSize input ≤ o.maxInputLen ∧
        ∃ x, readTemplate o.maxDepth input = .ok x ∧ Template.lower o.emptyHelper x = .ok code := by
  rw [compile]
  split
  · exact iff_of_false (by simp) fun h ↦ absurd h.1 (Nat.not_le_of_lt ‹_›)
  · simp only [Result.bind_eq_ok_iff, Result.mapError_eq_ok_iff, Nat.le_of_not_lt ‹_›, true_and]

section

variable {o : Options} {input : Text}

theorem compile_of_readError (hsize : Text.byteSize input ≤ o.maxInputLen) {e : CompileError}
    (h : readTemplate o.maxDepth input = .error e) : compile o input = .error e := by
  rw [compile, if_neg (Nat.not_lt_of_le hsize), h]
  rfl

theorem compile_of_read (hsize : Text.byteSize input ≤ o.maxInputLen) {x : Template}
    (h : readTemplate o.maxDepth input = .ok x) :
    compile o input = (Template.lower o.emptyHelper x).mapError .lower := by
  rw [compile, if_neg (Nat.not_lt_of_le hsize), h]
  rfl

end

end Interpolation
