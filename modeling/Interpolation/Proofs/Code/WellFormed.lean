import Interpolation.Proofs.Template.Checking
import Interpolation.Proofs.Template.Spelling

/-!
# The form of compiled code

The trees of code allow more than a compilation produces. What it produces is described here by what
every part of a tree has to look like (`Code.Admitted`) and by where concatenations stand
(`Code.ConcatenatesLeft`). Each stage has its share in it. The scanner sees to the names and the
numbers (`Sign.Lexed`). The reader lets nothing but paths stand before an operator and before a
question mark. Lowering makes the calls and the concatenations, and keeps everything else as it is.
-/

namespace Interpolation

/-! ## The form -/

namespace Code

/-- Whether the code is a literal or a name, followed by properties. -/
def isPath : Code → Bool
  | .string _ | .number _ | .boolean _ | .name _ => true
  | .property object _ => object.isPath
  | _ => false

/-- The code `sub` stands somewhere in a tree. -/
inductive Occurs (sub : Code) : Code → Prop where
  | self : Occurs sub sub
  | object {object : Code} {n : Text} : Occurs sub object → Occurs sub (.property object n)
  | left {op : Op} {left right : Code} : Occurs sub left → Occurs sub (.binary op left right)
  | right {op : Op} {left right : Code} : Occurs sub right → Occurs sub (.binary op left right)
  | operand {operand : Code} : Occurs sub operand → Occurs sub (.not operand)
  | test {test consequent alternate : Code} :
    Occurs sub test → Occurs sub (.conditional test consequent alternate)
  | consequent {test consequent alternate : Code} :
    Occurs sub consequent → Occurs sub (.conditional test consequent alternate)
  | alternate {test consequent alternate : Code} :
    Occurs sub alternate → Occurs sub (.conditional test consequent alternate)
  | argument {callee : Text} {arguments : List Code} {argument : Code} :
    argument ∈ arguments → Occurs sub argument → Occurs sub (.call callee arguments)

/-- What a part of compiled code looks like, where `helper` tests for emptiness. -/
def Admitted (helper : Text) : Code → Prop
  | .string _ | .boolean _ | .not _ => True
  | .number digits => digits.isNumeral
  | .name n => Token.IsFreeName n
  | .property object n => object.isPath ∧ Token.IsFreeName n
  | .binary op left _ => op ≠ .add → left.isPath
  | .conditional test _ _ => test.isPath
  | .call callee arguments => callee = helper ∧ arguments.length = 1

/-- Every part of the code looks as it should. -/
def AllAdmitted (helper : Text) (c : Code) : Prop := ∀ sub, Occurs sub c → sub.Admitted helper

/-- A concatenation stands at the root, or is the left operand of one that does. There are no
others. -/
def ConcatenatesLeft : Code → Prop
  | .binary .add left right => left.ConcatenatesLeft ∧ right.additions = 0
  | c => c.additions = 0

/-- The form of compiled code. -/
structure WellFormed (helper : Text) (tree : Code) : Prop where
  /-- Concatenations stand on the way from the root to the left. -/
  concatenations : tree.ConcatenatesLeft
  /-- Every part has its form. -/
  occurs : tree.AllAdmitted helper

theorem ConcatenatesLeft.concat {left right : Code} (hleft : left.ConcatenatesLeft)
    (hright : right.additions = 0) : (left.concat right).ConcatenatesLeft :=
  ⟨hleft, hright⟩

theorem ConcatenatesLeft.of_additions {c : Code} (h : c.additions = 0) : c.ConcatenatesLeft := by
  unfold ConcatenatesLeft
  split
  · rw [additions, if_pos rfl] at h
    omega
  · exact h

end Code

/-! ## What the scanner sees to -/

namespace Token

theorem wordKind_eq_identifier {w : Text} (h : wordKind w = .identifier) :
    w ∉ keywords.map Prod.fst := by
  intro hw
  obtain ⟨p, hp, rfl⟩ := List.mem_map.mp hw
  rw [wordKind_of_mem p hp] at h
  exact absurd h ((by decide : ∀ p ∈ keywords, p.2 ≠ .identifier) p hp)

theorem symbol_ne_word {c : Char} {s : Text} {k : Kind} {n : Nat} (h : symbol c s = some (k, n)) :
    k ≠ .integer ∧ k ≠ .identifier := by
  unfold symbol at h
  split at h <;> grind [Option.map_eq_some_iff]

/-- A text that is as long as the run of characters at its start is that run. -/
theorem forall_mem_of_length_takeWhile {p : Char → Bool} {w r : Text}
    (h : w.length = ((w ++ r).takeWhile p).length) :
    (w ++ r).takeWhile p = w ∧ ∀ c ∈ w, p c = true := by
  have htake := List.prefix_iff_eq_take.mp (List.takeWhile_prefix p (l := w ++ r))
  rw [← h, List.take_left] at htake
  exact ⟨htake, fun c hc ↦ List.all_eq_true.mp List.all_takeWhile c (htake ▸ hc)⟩

theorem lexed_sign {t : Token} (hinteger : t.kind = .integer → t.text.isNumeral)
    (hname : t.kind = .identifier → IsFreeName t.text) : t.sign.Lexed := by
  rw [sign]
  split
  case h_3 hk => exact hinteger hk
  case h_5 hk => exact hname hk
  all_goals trivial

end Token

namespace Scanner

theorem Takes.lexed {s s' : Scanner} {t : Token} (h : Takes s t s') : t.sign.Lexed := by
  rcases recognize_eq_ok_iff.mp (h.recognize_eq ' ') with ⟨-, hrec⟩ | ⟨d, -, hrec⟩
  · have hkind : t.kind = .literal ∨ ∃ d, t.kind = .opening d := by
      rcases recognizeOuter_eq_ok_iff.mp hrec with ⟨d, -, hk, -⟩ | ⟨-, hk, -⟩
      · exact .inr ⟨d, hk⟩
      · exact .inl hk
    rw [Token.sign]
    rcases hkind with hk | ⟨d, hk⟩ <;> rw [hk] <;> trivial
  obtain ⟨c, w, hw⟩ := List.exists_cons_of_ne_nil h.text_ne_nil
  rw [h.rest_eq, hw, List.cons_append] at hrec
  rcases Token.recognize_cases hrec with
    ⟨-, hk, -⟩ | ⟨hc, hk, hn⟩ | ⟨hc, hk, hn⟩ | ⟨-, -, -, hsymbol⟩
  · rw [Token.sign, hk]
    trivial
  · rw [← List.cons_append] at hk hn
    obtain ⟨hrun, hall⟩ := Token.forall_mem_of_length_takeWhile hn
    rw [hrun] at hk
    refine Token.lexed_sign (fun hinteger ↦ ?_) fun hname ↦ ?_
    · have hne : Token.wordKind (c :: w) ≠ .integer :=
        Token.wordKind_induction (motive := (· ≠ .integer)) (by decide) (by decide) _
      exact absurd (hk.symm.trans hinteger) hne
    · rw [hw]
      refine ⟨?_, Token.wordKind_eq_identifier (hk.symm.trans hname)⟩
      rw [Text.isName, hc, Bool.true_and, List.all_eq_true]
      exact fun d hd ↦ hall d (List.mem_cons_of_mem c hd)
  · rw [← List.cons_append] at hn
    obtain ⟨-, hall⟩ := Token.forall_mem_of_length_takeWhile hn
    refine Token.lexed_sign (fun _ ↦ ?_) fun hname ↦ ?_
    · rw [hw, Text.isNumeral, List.all_eq_true.mpr hall]
      rfl
    · cases hk.symm.trans hname
  · obtain ⟨hinteger, hname⟩ := Token.symbol_ne_word hsymbol
    exact Token.lexed_sign (fun hk ↦ absurd hk hinteger) fun hk ↦ absurd hk hname

theorem lexed_of_tokenize {input : Text} {ts : List Token} (h : tokenize input = .ok ts) :
    ∀ t ∈ ts, t.sign.Lexed :=
  forall_mem_of_tokenize (fun _ _ _ htakes ↦ htakes.lexed) h

end Scanner

/-! ## What lowering makes of it -/

theorem Atom.admitted_lower (helper : Text) {a : Atom} (h : (Sign.atom a).Lexed) :
    a.lower.isPath ∧ a.lower.AllAdmitted helper := by
  cases a with
  | boolean value => exact ⟨rfl, fun sub hsub ↦ by cases hsub; trivial⟩
  | integer digits => exact ⟨rfl, fun sub hsub ↦ by cases hsub; exact h⟩
  | string raw => exact ⟨rfl, fun sub hsub ↦ by cases hsub; trivial⟩
  | name n => exact ⟨rfl, fun sub hsub ↦ by cases hsub; exact h⟩

theorem Code.admitted_foldl_property {helper : Text} {names : List Text} {object : Code}
    (hnames : ∀ n ∈ names, Token.IsFreeName n) (hpath : object.isPath)
    (hobject : object.AllAdmitted helper) :
    (names.foldl .property object).isPath ∧
      (names.foldl .property object).AllAdmitted helper := by
  induction names generalizing object with
  | nil => exact ⟨hpath, hobject⟩
  | cons n names ih =>
    obtain ⟨hn, hnames⟩ := List.forall_mem_cons.mp hnames
    refine ih hnames hpath fun sub hsub ↦ ?_
    cases hsub with
    | self => exact ⟨hpath, hn⟩
    | object hsub => exact hobject sub hsub

theorem Path.admitted_lower (helper : Text) {p : Path} (h : ∀ sign ∈ p.signs, sign.Lexed) :
    p.lower.isPath ∧ p.lower.AllAdmitted helper := by
  obtain ⟨hatom, hproperties⟩ := List.forall_mem_cons.mp h
  obtain ⟨hpath, hparts⟩ := Atom.admitted_lower helper hatom
  refine Code.admitted_foldl_property (fun n hn ↦ ?_) hpath hparts
  exact hproperties (.atom (.name n)) (List.mem_flatMap.mpr ⟨n, hn, by simp [propertySigns]⟩)

theorem UnaryOp.admitted_lower {helper : Text} {op : UnaryOp} {operand c : Code}
    (h : op.lower helper operand = .ok c) (hoperand : operand.AllAdmitted helper) :
    c.AllAdmitted helper := by
  intro sub hsub
  cases op with
  | minus => cases h
  | not =>
    cases h
    cases hsub with
    | self => trivial
    | operand hsub => exact hoperand sub hsub
  | empty =>
    cases h
    cases hsub with
    | self => exact ⟨rfl, rfl⟩
    | argument hmem hsub =>
      cases List.mem_singleton.mp hmem
      exact hoperand sub hsub

/-- **The code of an expression.** -/
theorem Expr.admitted_lower {helper : Text} {e : Expr} {c : Code} (hlower : e.lower helper = .ok c)
    (hnested : e.RightNested) (hsigns : ∀ sign ∈ e.signs, sign.Lexed) :
    c.AllAdmitted helper := by
  induction e generalizing c with
  | path p =>
    cases hlower
    exact (p.admitted_lower helper hsigns).2
  | unary op operand ih =>
    obtain ⟨d, hd, hc⟩ := lower_unary_eq_ok_iff.mp hlower
    exact UnaryOp.admitted_lower hc (ih hd hnested (List.forall_mem_cons.mp hsigns).2)
  | binary op lhs rhs _ ih =>
    obtain ⟨p, rfl⟩ := isPath_iff.mp hnested.1
    obtain ⟨hp, hright⟩ := List.forall_mem_append.mp hsigns
    obtain ⟨hpath, hleft⟩ := p.admitted_lower helper hp
    obtain ⟨a, b, ha, hb, rfl⟩ := lower_binary_eq_ok_iff.mp hlower
    cases ha
    intro sub hsub
    cases hsub with
    | self => exact fun _ ↦ hpath
    | left hsub => exact hleft sub hsub
    | right hsub => exact ih hb hnested.2 (List.forall_mem_cons.mp hright).2 sub hsub
  | ternary condition consequent alternate _ ih₁ ih₂ =>
    obtain ⟨p, rfl⟩ := isPath_iff.mp hnested.1
    obtain ⟨hp, hbranches⟩ := List.forall_mem_append.mp hsigns
    obtain ⟨hpath, htest⟩ := p.admitted_lower helper hp
    obtain ⟨hconsequent, halternate⟩ :=
      List.forall_mem_append.mp (List.forall_mem_cons.mp hbranches).2
    obtain ⟨a, b, d, ha, hb, hd, rfl⟩ := lower_ternary_eq_ok_iff.mp hlower
    cases ha
    intro sub hsub
    cases hsub with
    | self => exact hpath
    | test hsub => exact htest sub hsub
    | consequent hsub => exact ih₁ hb hnested.2.1 hconsequent sub hsub
    | alternate hsub =>
      exact ih₂ hd hnested.2.2 (List.forall_mem_cons.mp halternate).2 sub hsub

theorem Item.admitted_lower {helper : Text} {i : Item} {c : Code} (hlower : i.lower helper = .ok c)
    (hnested : i.RightNested) (hsigns : ∀ sign ∈ i.signs, sign.Lexed) :
    c.AllAdmitted helper := by
  cases i with
  | literal text =>
    cases hlower
    intro sub hsub
    cases hsub
    trivial
  | embedded d e =>
    exact Expr.admitted_lower hlower hnested
      (List.forall_mem_append.mp (List.forall_mem_cons.mp hsigns).2).1

namespace Template

variable {helper : Text}

theorem wellFormed_lowerFrom {before c : Code} {x : Template} (hbefore : before.WellFormed helper)
    (hlower : lowerFrom helper before x = .ok c) (hnested : RightNested x)
    (hsigns : ∀ sign ∈ signs x, sign.Lexed) : c.WellFormed helper := by
  induction x generalizing before with
  | nil =>
    cases hlower
    exact hbefore
  | cons i x ih =>
    obtain ⟨hi, hx⟩ := List.forall_mem_cons.mp hnested
    obtain ⟨hisigns, hxsigns⟩ := List.forall_mem_append.mp hsigns
    obtain ⟨d, hd, hlower⟩ := lowerFrom_cons_eq_ok_iff.mp hlower
    refine ih ⟨hbefore.concatenations.concat (Item.additions_lower hd), fun sub hsub ↦ ?_⟩ hlower
      hx hxsigns
    cases hsub with
    | self => exact fun hadd ↦ absurd rfl hadd
    | left hsub => exact hbefore.occurs sub hsub
    | right hsub => exact Item.admitted_lower hd hi hisigns sub hsub

theorem wellFormed_lower {c : Code} {x : Template} (hlower : lower helper x = .ok c)
    (hnested : RightNested x) (hsigns : ∀ sign ∈ signs x, sign.Lexed) : c.WellFormed helper := by
  cases x with
  | nil =>
    cases hlower
    refine ⟨rfl, fun sub hsub ↦ ?_⟩
    cases hsub
    trivial
  | cons i x =>
    obtain ⟨hi, hx⟩ := List.forall_mem_cons.mp hnested
    obtain ⟨hisigns, hxsigns⟩ := List.forall_mem_append.mp hsigns
    obtain ⟨d, hd, hlower⟩ := lower_cons_eq_ok_iff.mp hlower
    exact wellFormed_lowerFrom ⟨.of_additions (Item.additions_lower hd),
      Item.admitted_lower hd hi hisigns⟩ hlower hx hxsigns

end Template

/-- **Compiled code is well formed.** Concatenations stand on the way from the root to the left and
nowhere else; names, those of properties among them, are names of templates and no words of the
language; numbers are runs of digits; the one function that is called is the one that tests for
emptiness, with one argument; and what a property is taken from, what is tested, and what stands
before an operator is a literal or a name with properties. -/
theorem wellFormed_of_compile {o : Options} {input : Text} {tree : Code}
    (h : compile o input = .ok tree) : tree.WellFormed o.emptyHelper := by
  obtain ⟨-, x, hread, hlower⟩ := compile_eq_ok_iff.mp h
  obtain ⟨ts, htokens, hparse⟩ := readTemplate_eq_ok_iff.mp hread
  obtain ⟨hsigns, hnested, -⟩ := parse_eq_ok_iff.mp hparse
  refine Template.wellFormed_lower hlower hnested fun sign hsign ↦ ?_
  rw [← hsigns] at hsign
  obtain ⟨t, ht, rfl⟩ := List.mem_map.mp hsign
  exact Scanner.lexed_of_tokenize htokens t ht

/-- Text, a negated test for emptiness, and a conditional with a comparison in it:
`a#{!empty b.or_}${c?d:1<e}`. -/
theorem wellFormed_of_compile_three :
    let input := "a#\x7b!empty b.or_\x7d$\x7bc?d:1<e\x7d".toList
    let emptiness := Code.call "isEmpty".toList [.property (.name ['b']) "or_".toList]
    let tree := Code.concat (.concat (.string ['a']) (.not emptiness))
      (.conditional (.name ['c']) (.name ['d']) (.binary .less (.number ['1']) (.name ['e'])))
    compile {} input = .ok tree ∧ tree.WellFormed "isEmpty".toList := by
  intro input emptiness tree
  have htokens := Scanner.tokenize_of_returned input 18 (by decide) rfl
  have hread : readTemplate 256 input = .ok [.literal ['a'],
      .embedded .deferred (.unary .not (.unary .empty (.path ⟨.name ['b'], ["or_".toList]⟩))),
      .embedded .dynamic (.ternary (.path ⟨.name ['c'], []⟩) (.path ⟨.name ['d'], []⟩)
        (.binary .lt (.path ⟨.integer ['1'], []⟩) (.path ⟨.name ['e'], []⟩)))] :=
    readTemplate_eq_ok_iff.mpr ⟨_, htokens, parse_eq_ok_iff.mpr (by decide)⟩
  have hcompile : compile {} input = .ok tree :=
    compile_eq_ok_iff.mpr ⟨by decide, _, hread, rfl⟩
  exact ⟨hcompile, wellFormed_of_compile hcompile⟩

end Interpolation
