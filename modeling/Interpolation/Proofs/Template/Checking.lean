import Interpolation.Proofs.Stages
import Interpolation.Proofs.Template.Seams

/-!
# Checking a template

A check reads a template and counts its items, and goes no further. So it succeeds where a
compilation does, and also where only the meaning of the template is missing; where it fails, the
compilation fails in the same way, as long as the template is not too long for it.

What a check counts can be seen in the compiled code. Concatenations stand between the items of a
template and nowhere else, since no operator of expressions becomes one. So there is one of them
less than there are items.
-/

namespace Interpolation

/-! ## Concatenations -/

namespace Code

mutual

/-- The number of concatenations in a piece of code. -/
def additions : Code → Nat
  | .string _ | .number _ | .boolean _ | .name _ => 0
  | .property object _ => additions object
  | .binary op left right => (if op = .add then 1 else 0) + additions left + additions right
  | .not operand => additions operand
  | .conditional test consequent alternate =>
    additions test + additions consequent + additions alternate
  | .call _ arguments => additionsIn arguments

def additionsIn : List Code → Nat
  | [] => 0
  | c :: cs => additions c + additionsIn cs

end

theorem additions_concat (left right : Code) :
    (left.concat right).additions = 1 + left.additions + right.additions := rfl

theorem additions_foldl_property (object : Code) (names : List Text) :
    (names.foldl property object).additions = object.additions := by
  induction names generalizing object with
  | nil => rfl
  | cons n names ih => exact ih (object.property n)

end Code

theorem BinaryOp.lower_ne_add (op : BinaryOp) : op.lower ≠ .add := by
  cases op <;> simp [lower]

theorem Path.additions_lower (p : Path) : p.lower.additions = 0 := by
  rw [lower, Code.additions_foldl_property]
  cases p.atom <;> rfl

theorem UnaryOp.additions_lower {helper : Text} {op : UnaryOp} {operand c : Code}
    (h : op.lower helper operand = .ok c) : c.additions = operand.additions := by
  cases op with
  | minus => cases h
  | not =>
    cases h
    rfl
  | empty =>
    cases h
    rfl

theorem Expr.additions_lower {helper : Text} {e : Expr} {c : Code} (h : e.lower helper = .ok c) :
    c.additions = 0 := by
  induction e generalizing c with
  | path p =>
    cases h
    exact p.additions_lower
  | unary op operand ih =>
    obtain ⟨d, hd, hc⟩ := lower_unary_eq_ok_iff.mp h
    rw [UnaryOp.additions_lower hc, ih hd]
  | binary op lhs rhs ih₁ ih₂ =>
    obtain ⟨a, b, ha, hb, rfl⟩ := lower_binary_eq_ok_iff.mp h
    rw [Code.additions, if_neg op.lower_ne_add, ih₁ ha, ih₂ hb]
  | ternary condition consequent alternate ih₁ ih₂ ih₃ =>
    obtain ⟨a, b, d, ha, hb, hd, rfl⟩ := lower_ternary_eq_ok_iff.mp h
    rw [Code.additions, ih₁ ha, ih₂ hb, ih₃ hd]

theorem Item.additions_lower {helper : Text} {i : Item} {c : Code} (h : i.lower helper = .ok c) :
    c.additions = 0 := by
  cases i with
  | literal text =>
    cases h
    rfl
  | embedded d e => exact Expr.additions_lower (e := e) h

namespace Template

theorem additions_lowerFrom {helper : Text} {before c : Code} {x : Template}
    (h : lowerFrom helper before x = .ok c) : c.additions = before.additions + x.length := by
  induction x generalizing before with
  | nil =>
    cases h
    rfl
  | cons i x ih =>
    obtain ⟨d, hd, hx⟩ := lowerFrom_cons_eq_ok_iff.mp h
    rw [ih hx, Code.additions_concat, Item.additions_lower hd, List.length_cons]
    omega

/-- **Concatenations stand between the items of a template**, so there is one less of them. -/
theorem additions_lower {helper : Text} {x : Template} {c : Code} (h : lower helper x = .ok c) :
    c.additions = x.length - 1 := by
  cases x with
  | nil =>
    cases h
    rfl
  | cons i x =>
    obtain ⟨d, hd, hx⟩ := lower_cons_eq_ok_iff.mp h
    rw [additions_lowerFrom hx, Item.additions_lower hd, List.length_cons, Nat.zero_add,
      Nat.add_sub_cancel]

end Template

/-! ## Checking and compiling -/

/-- Only the empty text is read as a template without items. -/
theorem readTemplate_eq_nil_iff (limit : Nat) {input : Text} :
    readTemplate limit input = .ok [] ↔ input = [] := by
  constructor
  · intro h
    obtain ⟨ts, hts, hparse⟩ := readTemplate_eq_ok_iff.mp h
    obtain rfl : ts = [] := List.map_eq_nil_iff.mp (parse_eq_ok_iff.mp hparse).1
    exact Scanner.eq_nil_of_tokenize hts
  · rintro rfl
    have hrun : Scanner.Run (.ofText []) [] (.ofText []) := .refl _
    exact readTemplate_eq_ok_iff.mpr ⟨_, Scanner.tokenize_of_run hrun rfl, parse_nil limit⟩

theorem check_eq_ok_iff {o : Options} {input : Text} {n : Nat} :
    check o input = .ok n ↔ ∃ x, readTemplate o.maxDepth input = .ok x ∧ x.length = n := by
  rw [check]
  cases readTemplate o.maxDepth input with
  | error e => exact iff_of_false nofun (by simp)
  | ok x => simp [Except.map]

theorem check_eq_error_iff {o : Options} {input : Text} {e : CompileError} :
    check o input = .error e ↔ readTemplate o.maxDepth input = .error e := by
  rw [check]
  cases readTemplate o.maxDepth input with
  | error e => simp [Except.map]
  | ok x => exact iff_of_false nofun nofun

/-- **A check agrees with the compilation.** Of a text that is not too long, it accepts what can be
compiled and what has an operator without a meaning, and nothing else; whatever it refuses, the
compilation refuses for the same reason, found in the tokens or in the items. The number that it
gives is zero for the empty text only, and one more than the number of concatenations in the
compiled code, which are none for the empty text. -/
theorem check_agrees (o : Options) (input : Text) (hsize : Text.byteSize input ≤ o.maxInputLen) :
    ((∃ n, check o input = .ok n) ↔
        (∃ c, compile o input = .ok c) ∨
          ∃ op, compile o input = .error (.lower (.unsupportedOperator op))) ∧
      (∀ e, check o input = .error e → compile o input = .error e ∧
        ((∃ cause, e = .lex cause) ∨ ∃ cause, e = .parse cause)) ∧
      ∀ n, check o input = .ok n → (n = 0 ↔ input = []) ∧
        ∀ c, compile o input = .ok c → c.additions = n - 1 := by
  refine ⟨⟨?_, ?_⟩, ?_, ?_⟩
  · rintro ⟨n, hn⟩
    obtain ⟨x, hx, -⟩ := check_eq_ok_iff.mp hn
    have hcompile := compile_of_read hsize hx
    cases hlower : Template.lower o.emptyHelper x with
    | ok c =>
      rw [hlower] at hcompile
      exact .inl ⟨c, hcompile⟩
    | error cause =>
      rw [hlower] at hcompile
      obtain ⟨op⟩ := cause
      exact .inr ⟨op, hcompile⟩
  · intro h
    -- a failure of reading would be neither of the two
    rcases readTemplate_cases o.maxDepth input with ⟨x, hx⟩ | ⟨e, he⟩ | ⟨e, he⟩
    · exact ⟨x.length, check_eq_ok_iff.mpr ⟨x, hx, rfl⟩⟩
    all_goals
      rw [compile_of_readError hsize he] at h
      rcases h with ⟨c, hc⟩ | ⟨op, hop⟩
      · cases hc
      · cases hop
  · intro e he
    have hread := check_eq_error_iff.mp he
    refine ⟨compile_of_readError hsize hread, ?_⟩
    rcases readTemplate_cases o.maxDepth input with ⟨x, hx⟩ | ⟨cause, hcause⟩ | ⟨cause, hcause⟩
    · rw [hx] at hread
      cases hread
    · exact .inl ⟨cause, Except.error.inj (hread.symm.trans hcause)⟩
    · exact .inr ⟨cause, Except.error.inj (hread.symm.trans hcause)⟩
  · intro n hn
    obtain ⟨x, hx, rfl⟩ := check_eq_ok_iff.mp hn
    refine ⟨?_, ?_⟩
    · rw [← readTemplate_eq_nil_iff o.maxDepth, hx, List.length_eq_zero_iff, Except.ok.injEq]
    · intro c hc
      obtain ⟨-, y, hy, hlower⟩ := compile_eq_ok_iff.mp hc
      obtain rfl := Except.ok.inj (hx.symm.trans hy)
      exact Template.additions_lower hlower

/-- Three items, one of them with an operator of its own: `a#{b and !c}${d}`. -/
theorem check_agrees_three_items :
    let input := "a#\x7bb and !c\x7d$\x7bd\x7d".toList
    check {} input = .ok 3 ∧ ∃ c, compile {} input = .ok c ∧ c.additions = 2 := by
  intro input
  have htokens := Scanner.tokenize_of_returned input 12 (by decide) rfl
  have hread : readTemplate 256 input = .ok [.literal ['a'], .embedded .deferred (.binary .and
      (.path ⟨.name ['b'], []⟩) (.unary .not (.path ⟨.name ['c'], []⟩))),
      .embedded .dynamic (.path ⟨.name ['d'], []⟩)] :=
    readTemplate_eq_ok_iff.mpr ⟨_, htokens, parse_eq_ok_iff.mpr (by decide)⟩
  have hsize : Text.byteSize input ≤ ({} : Options).maxInputLen := by decide
  have hcheck : check {} input = .ok 3 := check_eq_ok_iff.mpr ⟨_, hread, rfl⟩
  have hcompile : compile {} input = .ok (.concat (.concat (.string ['a'])
      (.binary .and (.name ['b']) (.not (.name ['c'])))) (.name ['d'])) :=
    compile_eq_ok_iff.mpr ⟨hsize, _, hread, rfl⟩
  exact ⟨hcheck, _, hcompile, ((check_agrees {} input hsize).2.2 3 hcheck).2 _ hcompile⟩

end Interpolation
