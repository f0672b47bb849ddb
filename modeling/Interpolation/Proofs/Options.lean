import Interpolation.Proofs.Stages
import Interpolation.Proofs.Template.Exact
import Interpolation.Proofs.Token.Calls

/-!
# What options can change

Two of the options are limits and the third is a name. A limit decides whether a template is
compiled and has no part in what it is compiled to: the depth limit is compared at every level of
every expression, but whatever is read under it is read the same under a greater one (`parse_mono`).
The name is written into the calls and looked at nowhere, so lowering with another name is lowering
and then redirecting the calls (`Template.lower_redirect`). That is an equation between results, and
so it speaks of failures as well.
-/

namespace Interpolation

/-! ## Calls of another function -/

namespace Code

mutual

/-- The code with the given function in place of every function that is called. -/
def redirect (callee : Text) : Code → Code
  | .string value => .string value
  | .number digits => .number digits
  | .boolean value => .boolean value
  | .name n => .name n
  | .property object n => .property (redirect callee object) n
  | .binary op left right => .binary op (redirect callee left) (redirect callee right)
  | .not operand => .not (redirect callee operand)
  | .conditional test consequent alternate =>
    .conditional (redirect callee test) (redirect callee consequent) (redirect callee alternate)
  | .call _ arguments => .call callee (redirectAll callee arguments)

def redirectAll (callee : Text) : List Code → List Code
  | [] => []
  | c :: cs => redirect callee c :: redirectAll callee cs

end

theorem redirect_foldl_property (callee : Text) (object : Code) (names : List Text) :
    (names.foldl property object).redirect callee =
      names.foldl property (object.redirect callee) := by
  induction names generalizing object with
  | nil => rfl
  | cons n names ih => exact ih (object.property n)

end Code

/-! ## Lowering with another name -/

theorem Path.redirect_lower (callee : Text) (p : Path) : p.lower.redirect callee = p.lower := by
  rw [lower, Code.redirect_foldl_property]
  cases p.atom <;> rfl

section

variable (helper callee : Text)

theorem UnaryOp.lower_redirect (operand : Code) (op : UnaryOp) :
    op.lower callee (operand.redirect callee) =
      (op.lower helper operand).map (Code.redirect callee) := by
  cases op <;> rfl

theorem Expr.lower_redirect (e : Expr) :
    e.lower callee = (e.lower helper).map (Code.redirect callee) := by
  induction e with
  | path p => exact congrArg Except.ok (p.redirect_lower callee).symm
  | unary op operand ih =>
    rw [lower, lower, ih]
    cases operand.lower helper with
    | error e => rfl
    | ok c => exact op.lower_redirect helper callee c
  | binary op lhs rhs ih₁ ih₂ =>
    rw [lower, lower, ih₁, ih₂]
    cases lhs.lower helper with
    | error e => rfl
    | ok a => cases rhs.lower helper <;> rfl
  | ternary condition consequent alternate ih₁ ih₂ ih₃ =>
    rw [lower, lower, ih₁, ih₂, ih₃]
    cases condition.lower helper with
    | error e => rfl
    | ok a =>
      cases consequent.lower helper with
      | error e => rfl
      | ok b => cases alternate.lower helper <;> rfl

theorem Item.lower_redirect (i : Item) :
    i.lower callee = (i.lower helper).map (Code.redirect callee) := by
  cases i with
  | literal text => rfl
  | embedded d e => exact e.lower_redirect helper callee

namespace Template

theorem lowerFrom_redirect (before : Code) (x : Template) :
    lowerFrom callee (before.redirect callee) x =
      (lowerFrom helper before x).map (Code.redirect callee) := by
  induction x generalizing before with
  | nil => rfl
  | cons i x ih =>
    rw [lowerFrom, lowerFrom, i.lower_redirect helper callee]
    cases i.lower helper with
    | error e => rfl
    | ok c => exact ih (before.concat c)

/-- **Lowering with another name redirects the calls**, and fails where lowering failed. -/
theorem lower_redirect (x : Template) :
    lower callee x = (lower helper x).map (Code.redirect callee) := by
  cases x with
  | nil => rfl
  | cons i x =>
    rw [lower, lower, i.lower_redirect helper callee]
    cases i.lower helper with
    | error e => rfl
    | ok c => exact lowerFrom_redirect helper callee c x

end Template

end

/-! ## Compiling with other options -/

theorem readTemplate_mono {limit limit' : Nat} {input : Text} {x : Template} (hle : limit ≤ limit')
    (h : readTemplate limit input = .ok x) : readTemplate limit' input = .ok x := by
  obtain ⟨ts, hts, hx⟩ := readTemplate_eq_ok_iff.mp h
  exact readTemplate_eq_ok_iff.mpr ⟨ts, hts, parse_mono hle hx⟩

theorem compile_of_limits_le {o o' : Options} (hdepth : o.maxDepth ≤ o'.maxDepth)
    (hlen : o.maxInputLen ≤ o'.maxInputLen) {input : Text} {c : Code}
    (h : compile o input = .ok c) : compile o' input = .ok (c.redirect o'.emptyHelper) := by
  obtain ⟨hsize, x, hx, hc⟩ := compile_eq_ok_iff.mp h
  refine compile_eq_ok_iff.mpr ⟨Nat.le_trans hsize hlen, x, readTemplate_mono hdepth hx, ?_⟩
  rw [Template.lower_redirect o.emptyHelper o'.emptyHelper, hc]
  rfl

theorem compile_error_of_limits_eq {o o' : Options} (hdepth : o.maxDepth = o'.maxDepth)
    (hlen : o.maxInputLen = o'.maxInputLen) {input : Text} {e : CompileError}
    (h : compile o input = .error e) : compile o' input = .error e := by
  by_cases hsize : Text.byteSize input ≤ o.maxInputLen
  · cases hread : readTemplate o.maxDepth input with
    | error e' =>
      rw [compile_of_readError hsize hread] at h
      exact h ▸ compile_of_readError (hlen ▸ hsize) (hdepth ▸ hread)
    | ok x =>
      rw [compile_of_read hsize hread] at h
      rw [compile_of_read (hlen ▸ hsize) (hdepth ▸ hread),
        Template.lower_redirect o.emptyHelper o'.emptyHelper]
      cases hlower : Template.lower o.emptyHelper x with
      | error cause => rwa [hlower] at h
      | ok c =>
        rw [hlower] at h
        cases h
  · rw [compile, if_pos (Nat.lt_of_not_le hsize)] at h
    rw [compile, ← hlen, if_pos (Nat.lt_of_not_le hsize)]
    exact h

/-- **Options only gate and rename.** What is compiled under some limits is compiled to the same
code under greater ones, but for the name of the function that is called, which is the one that the
options give. And where two sets of options have the same limits, the one compiles what the other
does, and they refuse a text for the same reason. -/
theorem compile_gated_and_renamed (input : Text) (o o' : Options) :
    (o.maxDepth ≤ o'.maxDepth → o.maxInputLen ≤ o'.maxInputLen →
        ∀ c, compile o input = .ok c → compile o' input = .ok (c.redirect o'.emptyHelper)) ∧
      (o.maxDepth = o'.maxDepth → o.maxInputLen = o'.maxInputLen →
        ((∃ c, compile o input = .ok c) ↔ ∃ c, compile o' input = .ok c) ∧
          ∀ e, compile o input = .error e ↔ compile o' input = .error e) := by
  refine ⟨fun hdepth hlen c hc ↦ compile_of_limits_le hdepth hlen hc, fun hdepth hlen ↦ ⟨?_, ?_⟩⟩
  · constructor
    · rintro ⟨c, hc⟩
      exact ⟨_, compile_of_limits_le (Nat.le_of_eq hdepth) (Nat.le_of_eq hlen) hc⟩
    · rintro ⟨c, hc⟩
      exact ⟨_, compile_of_limits_le (Nat.le_of_eq hdepth.symm) (Nat.le_of_eq hlen.symm) hc⟩
  · intro e
    exact ⟨compile_error_of_limits_eq hdepth hlen,
      compile_error_of_limits_eq hdepth.symm hlen.symm⟩

/-- A call around a conditional and another below a negation, compiled under limits that just
suffice and then under greater ones: `#{empty a ? !empty b : c}`. An operator without a meaning
before a call is refused, whichever function is called: `#{-empty a}`. -/
theorem compile_gated_and_renamed_nested :
    let input := "#\x7bempty a ? !empty b : c\x7d".toList
    let negated := "#\x7b-empty a\x7d".toList
    let o : Options := ⟨5, 25, "isEmpty".toList⟩
    let o' : Options := ⟨9, 90, "Helpers.none".toList⟩
    compile o input = .ok (.call "isEmpty".toList [.conditional (.name ['a'])
        (.not (.call "isEmpty".toList [.name ['b']])) (.name ['c'])]) ∧
      compile o' input = .ok (.call "Helpers.none".toList [.conditional (.name ['a'])
        (.not (.call "Helpers.none".toList [.name ['b']])) (.name ['c'])]) ∧
      compile o negated = .error (.lower (.unsupportedOperator .minus)) ∧
      compile ⟨5, 25, "Helpers.none".toList⟩ negated =
        .error (.lower (.unsupportedOperator .minus)) := by
  intro input negated o o'
  have hts := Scanner.tokenize_of_returned input 16 (by decide) rfl
  have hread : readTemplate 5 input = .ok [.embedded .deferred (.unary .empty (.ternary
      (.path ⟨.name ['a'], []⟩) (.unary .not (.unary .empty (.path ⟨.name ['b'], []⟩)))
      (.path ⟨.name ['c'], []⟩)))] :=
    readTemplate_eq_ok_iff.mpr ⟨_, hts, parse_eq_ok_iff.mpr (by decide)⟩
  have hcompile : compile o input = .ok _ := compile_eq_ok_iff.mpr ⟨by decide, _, hread, rfl⟩
  have hts' := Scanner.tokenize_of_returned negated 6 (by decide) rfl
  have hread' : readTemplate 5 negated = .ok [.embedded .deferred (.unary .minus (.unary .empty
      (.path ⟨.name ['a'], []⟩)))] :=
    readTemplate_eq_ok_iff.mpr ⟨_, hts', parse_eq_ok_iff.mpr (by decide)⟩
  have hsize : Text.byteSize negated ≤ o.maxInputLen := by decide
  have herror : compile o negated = .error _ := compile_of_read hsize hread'
  exact ⟨hcompile, (compile_gated_and_renamed input o o').1 (by decide) (by decide) _ hcompile,
    herror, (((compile_gated_and_renamed negated o ⟨5, 25, "Helpers.none".toList⟩).2 rfl rfl).2
      _).mp herror⟩

end Interpolation
