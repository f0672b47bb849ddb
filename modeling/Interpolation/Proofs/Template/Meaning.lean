import Interpolation.Proofs.Stages
import Interpolation.Proofs.Template.Exact
import Interpolation.Proofs.Token.Calls

/-!
# Templates without a meaning

Of all that can be written, numeric negation alone has no meaning. Lowering refuses a template with
a negation in it wherever the negation stands, and refuses nothing else. So there is one thing to be
said of the lowering of every phrase (`RefusedIf`), and it is passed on from the parts of a phrase
to the whole: a lowering that goes on with another is refused if one of the two is.

Reading keeps every token and makes none up, so whether a template has a negation can be told from
its tokens.
-/

namespace Interpolation

/-! ## Negations in a template -/

/-- Whether there is a numeric negation in an expression. -/
def Expr.hasMinus : Expr → Bool
  | .path _ => false
  | .unary op operand => operand.hasMinus || op = .minus
  | .binary _ lhs rhs => lhs.hasMinus || rhs.hasMinus
  | .ternary condition consequent alternate =>
    condition.hasMinus || (consequent.hasMinus || alternate.hasMinus)

def Item.hasMinus : Item → Bool
  | .literal _ => false
  | .embedded _ e => e.hasMinus

def Template.hasMinus (x : Template) : Bool := x.any Item.hasMinus

theorem Path.minus_notMem_signs (p : Path) : Sign.bare (.unary .minus) ∉ p.signs := by
  simp [signs, propertySigns]

theorem Expr.minus_mem_signs_iff (e : Expr) :
    Sign.bare (.unary .minus) ∈ e.signs ↔ e.hasMinus = true := by
  induction e with
  | path p => simpa [signs, hasMinus] using p.minus_notMem_signs
  | unary op operand ih =>
    simp only [signs, hasMinus, List.mem_cons, ih, Sign.bare.injEq, Token.Kind.unary.injEq,
      Bool.or_eq_true, decide_eq_true_eq]
    rw [or_comm, eq_comm (a := UnaryOp.minus)]
  | binary op lhs rhs ih₁ ih₂ => simp [signs, hasMinus, ih₁, ih₂]
  | ternary condition consequent alternate ih₁ ih₂ ih₃ =>
    simp [signs, hasMinus, ih₁, ih₂, ih₃]

theorem Item.minus_mem_signs_iff (i : Item) :
    Sign.bare (.unary .minus) ∈ i.signs ↔ i.hasMinus = true := by
  cases i with
  | literal text => simp [signs, hasMinus]
  | embedded d e => simp [signs, hasMinus, e.minus_mem_signs_iff]

theorem Template.minus_mem_signs_iff (x : Template) :
    Sign.bare (.unary .minus) ∈ Template.signs x ↔ Template.hasMinus x = true := by
  simp only [signs, hasMinus, List.mem_flatMap, List.any_eq_true, Item.minus_mem_signs_iff]

/-- The negations of a template that was read are among its tokens. -/
theorem hasMinus_iff_of_parse {limit : Nat} {ts : List Token} {x : Template}
    (h : parse limit ts = .ok x) :
    Template.hasMinus x = true ↔ ∃ t ∈ ts, t.kind = .unary .minus := by
  rw [← Template.minus_mem_signs_iff, ← (parse_eq_ok_iff.mp h).1, List.mem_map]
  simp only [Token.sign_eq_bare_iff, Token.Kind.isBare, and_true]

/-! ## Lowering -/

/-- Lowering has refused a negation if `minus` holds, and has given code otherwise. -/
def RefusedIf (minus : Bool) (r : Except LoweringError Code) : Prop :=
  if minus then r = .error (.unsupportedOperator .minus) else ∃ c, r = .ok c

theorem refusedIf_ok (c : Code) : RefusedIf false (.ok c) := ⟨c, rfl⟩

theorem RefusedIf.bind {minus minus' : Bool} {r : Except LoweringError Code}
    {f : Code → Except LoweringError Code} (h : RefusedIf minus r)
    (hf : ∀ c, RefusedIf minus' (f c)) : RefusedIf (minus || minus') (r >>= f) := by
  cases minus with
  | true =>
    obtain rfl : r = .error _ := h
    rfl
  | false =>
    obtain ⟨c, rfl⟩ : ∃ c, r = .ok c := h
    exact hf c

theorem UnaryOp.refusedIf_lower (helper : Text) (operand : Code) (op : UnaryOp) :
    RefusedIf (op = .minus) (op.lower helper operand) := by
  cases op with
  | minus => rfl
  | not => exact refusedIf_ok _
  | empty => exact refusedIf_ok _

/-- **An expression is refused for its negations, and for nothing else.** -/
theorem Expr.refusedIf_lower (helper : Text) (e : Expr) :
    RefusedIf e.hasMinus (e.lower helper) := by
  induction e with
  | path p => exact refusedIf_ok _
  | unary op operand ih => exact ih.bind fun c ↦ op.refusedIf_lower helper c
  | binary op lhs rhs ih₁ ih₂ =>
    have h := ih₁.bind fun a ↦ ih₂.bind fun b ↦ refusedIf_ok (.binary op.lower a b)
    rwa [Bool.or_false] at h
  | ternary condition consequent alternate ih₁ ih₂ ih₃ =>
    have h := ih₁.bind fun a ↦ ih₂.bind fun b ↦ ih₃.bind fun c ↦
      refusedIf_ok (.conditional a b c)
    rwa [Bool.or_false] at h

theorem Item.refusedIf_lower (helper : Text) (i : Item) :
    RefusedIf i.hasMinus (i.lower helper) := by
  cases i with
  | literal text => exact refusedIf_ok _
  | embedded d e => exact e.refusedIf_lower helper

namespace Template

theorem refusedIf_lowerFrom (helper : Text) (before : Code) (x : Template) :
    RefusedIf (hasMinus x) (lowerFrom helper before x) := by
  induction x generalizing before with
  | nil => exact refusedIf_ok _
  | cons i x ih => exact (i.refusedIf_lower helper).bind fun c ↦ ih (before.concat c)

theorem refusedIf_lower (helper : Text) (x : Template) :
    RefusedIf (hasMinus x) (lower helper x) := by
  cases x with
  | nil => exact refusedIf_ok _
  | cons i x => exact (i.refusedIf_lower helper).bind fun c ↦ refusedIf_lowerFrom helper c x

theorem exists_lower_of_hasMinus (helper : Text) {x : Template} (h : hasMinus x = false) :
    ∃ c, lower helper x = .ok c := by
  have hlower := refusedIf_lower helper x
  rwa [h] at hlower

theorem lower_of_hasMinus (helper : Text) {x : Template} (h : hasMinus x = true) :
    lower helper x = .error (.unsupportedOperator .minus) := by
  have hlower := refusedIf_lower helper x
  rwa [h] at hlower

end Template

/-! ## Compiling -/

/-- **Numeric negation is refused wherever it stands, and nothing else is.** A text that is not too
long and can be read as a template is compiled, unless one of its tokens is a minus sign; and then
the failure is that the operator `-` is not supported. -/
theorem compile_refuses_minus (o : Options) {input : Text} {ts : List Token} {x : Template}
    (hsize : Text.byteSize input ≤ o.maxInputLen) (hts : tokenize input = .ok ts)
    (hx : parse o.maxDepth ts = .ok x) :
    ((∃ e, compile o input = .error e) ↔ ∃ t ∈ ts, t.kind = .unary .minus) ∧
      (∀ e, compile o input = .error e →
        ∃ op, e = .lower (.unsupportedOperator op) ∧ op.symbol = "-") ∧
      ((∀ t ∈ ts, t.kind ≠ .unary .minus) → ∃ c, compile o input = .ok c) := by
  have hcompile := compile_of_read hsize (readTemplate_eq_ok_iff.mpr ⟨ts, hts, hx⟩)
  have hminus := hasMinus_iff_of_parse hx
  cases hx' : Template.hasMinus x with
  | true =>
    obtain ⟨t, ht, hkind⟩ := hminus.mp hx'
    rw [Template.lower_of_hasMinus o.emptyHelper hx'] at hcompile
    refine ⟨iff_of_true ⟨_, hcompile⟩ ⟨t, ht, hkind⟩, fun e he ↦ ?_, fun h ↦ absurd hkind (h t ht)⟩
    exact ⟨.minus, Except.error.inj (he.symm.trans hcompile), rfl⟩
  | false =>
    obtain ⟨c, hc⟩ := Template.exists_lower_of_hasMinus o.emptyHelper hx'
    rw [hc] at hcompile
    have hnone : ∀ e, compile o input ≠ .error e := fun e he ↦ by
      cases hcompile.symm.trans he
    refine ⟨iff_of_false (fun ⟨e, he⟩ ↦ hnone e he) fun h ↦ ?_, fun e he ↦ absurd he (hnone e),
      fun _ ↦ ⟨c, hcompile⟩⟩
    rw [hminus.mpr h] at hx'
    cases hx'

/-- A negation in the last branch of a conditional, below another operator and behind a comparison:
`a#{b ? c : not d == -e}`. -/
theorem compile_refuses_minus_nested :
    let input := "a#\x7bb ? c : not d == -e\x7d".toList
    ∃ ts x, Text.byteSize input ≤ 24 ∧ tokenize input = .ok ts ∧ parse 5 ts = .ok x ∧
      compile ⟨5, 24, []⟩ input = .error (.lower (.unsupportedOperator .minus)) := by
  intro input
  let ts := (Scanner.returned 19 (.ofText input)).filter (·.kind ≠ .whitespace)
  let x : Template := [.literal ['a'], .embedded .deferred (.ternary (.path ⟨.name ['b'], []⟩)
    (.path ⟨.name ['c'], []⟩) (.unary .not (.binary .eq (.path ⟨.name ['d'], []⟩)
      (.unary .minus (.path ⟨.name ['e'], []⟩)))))]
  have hsize : Text.byteSize input ≤ 24 := by decide
  have hts : tokenize input = .ok ts :=
    Scanner.tokenize_of_returned input 19 (by decide) rfl
  have hx : parse 5 ts = .ok x := parse_eq_ok_iff.mpr (by decide)
  obtain ⟨herror, hcause, -⟩ := compile_refuses_minus ⟨5, 24, []⟩ hsize hts hx
  obtain ⟨e, he⟩ := herror.mpr (by decide)
  obtain ⟨op, rfl, hop⟩ := hcause e he
  obtain rfl : op = .minus := by
    cases op with
    | minus => rfl
    | not => exact absurd hop (by decide)
    | empty => exact absurd hop (by decide)
  exact ⟨_, _, hsize, hts, hx, he⟩

end Interpolation
