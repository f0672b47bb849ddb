import Interpolation.Proofs.Template.Meaning
import Interpolation.Proofs.Template.Seams
import Interpolation.Proofs.Token.Strings

/-!
# What lowering forgets

Code does not say which delimiter an expression stood in, which quotation marks a string had, or
whether a string was an item by itself or an expression of its own. A template without all that is
its *normal form* (`Template.normal`), and templates have the same code exactly if they have the
same normal form: nothing else is forgotten.

That nothing else is forgotten is shown by reading the normal form off the code
(`Template.items?_lower`). Concatenations stand between items only, so an item ends where the right
operand of one does; a chain of properties is a path, whatever it starts with; and every operator is
the code of one operator of expressions. That so much is forgotten is seen by comparing the two
lowerings step by step.

What counts as the body of a string is an argument of the normal form. Lowering drops the first
character and the last one whatever they are, but what was meant is the text between two marks, and
the scanner finds no other strings (`Scanner.Takes.exists_body`).
-/

namespace Interpolation

/-! ## Normal forms -/

/-- The text between two equal marks. A text that does not stand between two such marks is left as
it is. -/
def Text.betweenMarks : Text → Text
  | [] => []
  | q :: s => if s.getLast? = some q then s.dropLast else q :: s

/-- The expression that is just a string. -/
def Expr.constant (text : Text) : Expr := .path ⟨.string text, []⟩

section

variable (body : Text → Text)

/-- An atom with the body of a string in place of the string. -/
def Atom.normal : Atom → Atom
  | .string raw => .string (body raw)
  | a => a

def Path.normal (p : Path) : Path := ⟨p.atom.normal body, p.properties⟩

/-- An expression with the bodies of its strings in place of the strings. -/
def Expr.normal : Expr → Expr
  | .path p => .path (p.normal body)
  | .unary op operand => .unary op operand.normal
  | .binary op lhs rhs => .binary op lhs.normal rhs.normal
  | .ternary condition consequent alternate =>
    .ternary condition.normal consequent.normal alternate.normal

/-- An item as an expression, without its delimiter. -/
def Item.normal : Item → Expr
  | .literal text => .constant text
  | .embedded _ e => e.normal body

/-- The items of a template as expressions. A template without items is the empty string. -/
def Template.normal : Template → List Expr
  | [] => [.constant []]
  | i :: x => i.normal body :: x.map (Item.normal body)

end

/-! ## Reading the normal form off the code -/

/-- An expression with one property more, if it is a path. -/
def Expr.property? (n : Text) : Expr → Option Expr
  | .path p => some (.path ⟨p.atom, p.properties ++ [n]⟩)
  | _ => none

namespace Code

/-- The operator of expressions that an operator is the code of. Concatenation is none. -/
def Op.binary? : Op → Option BinaryOp
  | .add => none
  | .and => some .and
  | .or => some .or
  | .equal => some .eq
  | .notEqual => some .notEq
  | .greater => some .gt
  | .less => some .lt

/-- The normal form of the expression that a piece of code was made from. -/
def expr? : Code → Option Expr
  | .string value => some (.constant value)
  | .number digits => some (.path ⟨.integer digits, []⟩)
  | .boolean value => some (.path ⟨.boolean value, []⟩)
  | .name n => some (.path ⟨.name n, []⟩)
  | .property object n => do (← object.expr?).property? n
  | .binary op left right => return .binary (← op.binary?) (← left.expr?) (← right.expr?)
  | .not operand => return .unary .not (← operand.expr?)
  | .conditional test consequent alternate =>
    return .ternary (← test.expr?) (← consequent.expr?) (← alternate.expr?)
  | .call _ [argument] => return .unary .empty (← argument.expr?)
  | .call _ _ => none

/-- The normal form of the template that a piece of code was made from. -/
def items? : Code → Option (List Expr)
  | .binary .add left right => return (← left.items?) ++ [← right.expr?]
  | c => return [← c.expr?]

theorem expr?_foldl_property {object : Code} {a : Atom} {before : List Text}
    (h : object.expr? = some (.path ⟨a, before⟩)) (names : List Text) :
    (names.foldl property object).expr? = some (.path ⟨a, before ++ names⟩) := by
  induction names generalizing object before with
  | nil => rw [List.foldl_nil, h, List.append_nil]
  | cons n names ih =>
    have hproperty : (object.property n).expr? = some (.path ⟨a, before ++ [n]⟩) := by
      rw [expr?, h]
      rfl
    rw [List.foldl_cons, ih hproperty, List.append_assoc, List.singleton_append]

theorem items?_of_expr? {c : Code} {e : Expr} (h : c.expr? = some e) : c.items? = some [e] := by
  unfold items?
  split
  · cases h
  · rw [h]
    rfl

end Code

theorem BinaryOp.binary?_lower (op : BinaryOp) : op.lower.binary? = some op := by
  cases op <;> rfl

theorem Path.expr?_lower (p : Path) : p.lower.expr? = some (.path (p.normal unquote)) := by
  have hatom : p.atom.lower.expr? = some (.path ⟨p.atom.normal unquote, []⟩) := by
    cases p.atom <;> rfl
  exact Code.expr?_foldl_property hatom p.properties

theorem UnaryOp.expr?_lower {helper : Text} {op : UnaryOp} {operand c : Code} {e : Expr}
    (h : op.lower helper operand = .ok c) (he : operand.expr? = some e) :
    c.expr? = some (.unary op e) := by
  cases op with
  | minus => cases h
  | not =>
    cases h
    rw [Code.expr?, he]
    rfl
  | empty =>
    cases h
    rw [Code.expr?, he]
    rfl

theorem Expr.expr?_lower {helper : Text} {e : Expr} {c : Code} (h : e.lower helper = .ok c) :
    c.expr? = some (e.normal unquote) := by
  induction e generalizing c with
  | path p =>
    cases h
    exact p.expr?_lower
  | unary op operand ih =>
    obtain ⟨d, hd, hc⟩ := lower_unary_eq_ok_iff.mp h
    exact UnaryOp.expr?_lower hc (ih hd)
  | binary op lhs rhs ih₁ ih₂ =>
    obtain ⟨a, b, ha, hb, rfl⟩ := lower_binary_eq_ok_iff.mp h
    rw [Code.expr?, op.binary?_lower, ih₁ ha, ih₂ hb]
    rfl
  | ternary condition consequent alternate ih₁ ih₂ ih₃ =>
    obtain ⟨a, b, d, ha, hb, hd, rfl⟩ := lower_ternary_eq_ok_iff.mp h
    rw [Code.expr?, ih₁ ha, ih₂ hb, ih₃ hd]
    rfl

theorem Item.expr?_lower {helper : Text} {i : Item} {c : Code} (h : i.lower helper = .ok c) :
    c.expr? = some (i.normal unquote) := by
  cases i with
  | literal text =>
    cases h
    rfl
  | embedded d e => exact Expr.expr?_lower (e := e) h

namespace Template

theorem items?_lowerFrom {helper : Text} {before c : Code} {es : List Expr} {x : Template}
    (hbefore : before.items? = some es) (h : lowerFrom helper before x = .ok c) :
    c.items? = some (es ++ x.map (Item.normal unquote)) := by
  induction x generalizing before es with
  | nil =>
    cases h
    rw [hbefore, List.map_nil, List.append_nil]
  | cons i x ih =>
    obtain ⟨d, hd, hx⟩ := lowerFrom_cons_eq_ok_iff.mp h
    have hnext : (before.concat d).items? = some (es ++ [i.normal unquote]) := by
      rw [Code.concat, Code.items?, hbefore, Item.expr?_lower hd]
      rfl
    rw [ih hnext hx, List.append_assoc, List.singleton_append, List.map_cons]

/-- **The normal form of a template can be read off its code.** -/
theorem items?_lower {helper : Text} {x : Template} {c : Code} (h : lower helper x = .ok c) :
    c.items? = some (normal unquote x) := by
  cases x with
  | nil =>
    cases h
    rfl
  | cons i x =>
    obtain ⟨d, hd, hx⟩ := lower_cons_eq_ok_iff.mp h
    exact items?_lowerFrom (Code.items?_of_expr? (Item.expr?_lower hd)) hx

end Template

/-! ## Lowering looks at the normal form only -/

theorem Atom.lower_eq_of_normal {a b : Atom} (h : a.normal unquote = b.normal unquote) :
    a.lower = b.lower := by
  cases a <;> cases b <;> simp_all [normal, lower]

theorem Path.lower_eq_of_normal {p p' : Path} (h : p.normal unquote = p'.normal unquote) :
    p.lower = p'.lower := by
  obtain ⟨hatom, hproperties⟩ := Path.mk.inj h
  rw [lower, lower, hproperties, Atom.lower_eq_of_normal hatom]

theorem Expr.lower_eq_of_normal {e e' : Expr} (helper : Text)
    (h : e.normal unquote = e'.normal unquote) : e.lower helper = e'.lower helper := by
  induction e generalizing e' with
  | path p =>
    cases e' with
    | path p' => exact congrArg Except.ok (Path.lower_eq_of_normal (Expr.path.inj h))
    | _ => cases h
  | unary op operand ih =>
    cases e' with
    | unary op' operand' =>
      obtain ⟨rfl, hoperand⟩ := Expr.unary.inj h
      rw [lower, lower, ih hoperand]
    | _ => cases h
  | binary op lhs rhs ih₁ ih₂ =>
    cases e' with
    | binary op' lhs' rhs' =>
      obtain ⟨rfl, hlhs, hrhs⟩ := Expr.binary.inj h
      rw [lower, lower, ih₁ hlhs, ih₂ hrhs]
    | _ => cases h
  | ternary condition consequent alternate ih₁ ih₂ ih₃ =>
    cases e' with
    | ternary condition' consequent' alternate' =>
      obtain ⟨hcondition, hconsequent, halternate⟩ := Expr.ternary.inj h
      rw [lower, lower, ih₁ hcondition, ih₂ hconsequent, ih₃ halternate]
    | _ => cases h

theorem Item.lower_eq_of_normal {i j : Item} (helper : Text)
    (h : i.normal unquote = j.normal unquote) : i.lower helper = j.lower helper := by
  -- literal text is lowered like the same text between quotation marks
  have hembedded : ∀ i : Item, ∃ e : Expr,
      e.normal unquote = i.normal unquote ∧ e.lower helper = i.lower helper := by
    intro i
    cases i with
    | literal text =>
      refine ⟨.constant ('"' :: (text ++ ['"'])), ?_, ?_⟩ <;>
        simp [Expr.constant, Expr.normal, Path.normal, Atom.normal, Item.normal, Expr.lower,
          Item.lower, Path.lower, Atom.lower, unquote]
    | embedded d e => exact ⟨e, rfl, rfl⟩
  obtain ⟨e, he, heq⟩ := hembedded i
  obtain ⟨e', he', heq'⟩ := hembedded j
  rw [← heq, ← heq']
  exact Expr.lower_eq_of_normal helper (by rw [he, he', h])

namespace Template

theorem lowerFrom_eq_of_normal {x y : Template} (helper : Text) (before : Code)
    (h : x.map (Item.normal unquote) = y.map (Item.normal unquote)) :
    lowerFrom helper before x = lowerFrom helper before y := by
  induction x generalizing before y with
  | nil => rw [List.map_eq_nil_iff.mp h.symm]
  | cons i x ih =>
    obtain ⟨j, y, rfl, hj, hy⟩ := List.map_eq_cons_iff.mp h.symm
    rw [lowerFrom, lowerFrom, Item.lower_eq_of_normal helper hj]
    congr 1
    funext c
    exact ih (before.concat c) hy.symm

theorem exists_item (x : Template) (helper : Text) :
    ∃ i y, normal unquote (i :: y) = normal unquote x ∧ lower helper (i :: y) = lower helper x := by
  cases x with
  | nil => exact ⟨.literal [], [], rfl, rfl⟩
  | cons i y => exact ⟨i, y, rfl, rfl⟩

/-- **Templates with the same normal form are lowered alike.** -/
theorem lower_eq_of_normal {x y : Template} (helper : Text)
    (h : normal unquote x = normal unquote y) : lower helper x = lower helper y := by
  obtain ⟨i, x', hx, hx'⟩ := exists_item x helper
  obtain ⟨j, y', hy, hy'⟩ := exists_item y helper
  rw [← hx, ← hy] at h
  obtain ⟨hi, hrest⟩ := List.cons.inj h
  rw [← hx', ← hy', lower, lower, Item.lower_eq_of_normal helper hi]
  congr 1
  funext c
  exact lowerFrom_eq_of_normal helper c hrest

theorem lower_eq_iff {helper : Text} {x y : Template} {a b : Code} (ha : lower helper x = .ok a)
    (hb : lower helper y = .ok b) : a = b ↔ normal unquote x = normal unquote y := by
  constructor
  · rintro rfl
    exact Option.some.inj ((items?_lower ha).symm.trans (items?_lower hb))
  · intro h
    rw [lower_eq_of_normal helper h, hb] at ha
    exact (Except.ok.inj ha).symm

end Template

/-! ## Strings stand between marks -/

theorem Text.betweenMarks_quoted (q : Char) (w : Text) : betweenMarks (q :: (w ++ [q])) = w := by
  rw [betweenMarks, List.getLast?_concat, if_pos rfl, List.dropLast_concat]

theorem unquote_quoted (q : Char) (w : Text) : unquote (q :: (w ++ [q])) = w := by
  rw [unquote, List.tail_cons, List.dropLast_concat]

theorem Token.closing?_of_symbol {c : Char} {s : Text} {q : Quote} {n : Nat}
    (h : symbol c s = some (.string q, n)) :
    c = q.char ∧ ∃ m, StringLiteral.closing? q.char s = some m ∧ n = m + 1 := by
  by_cases hc : ∃ q' : Quote, c = q'.char
  · obtain ⟨q', rfl⟩ := hc
    obtain ⟨m, hm, hk, rfl⟩ := symbol_eq_string h
    cases hk
    exact ⟨rfl, m, hm, rfl⟩
  · -- all other symbols have kinds of their own
    exfalso
    have hdouble : c ≠ '"' := fun hc' ↦ hc ⟨.double, hc'⟩
    have hsingle : c ≠ '\'' := fun hc' ↦ hc ⟨.single, hc'⟩
    unfold symbol at h
    split at h <;> grind

theorem Scanner.Takes.exists_body {s s' : Scanner} {t : Token} {q : Quote} (h : Takes s t s')
    (ht : t.kind = .string q) : ∃ w, t.text = q.char :: (w ++ [q.char]) := by
  rcases recognize_eq_ok_iff.mp (h.recognize_eq ' ') with ⟨-, hrec⟩ | ⟨d, -, hrec⟩
  · rw [ht] at hrec
    rcases recognizeOuter_eq_ok_iff.mp hrec with ⟨d, -, hk, -⟩ | ⟨-, hk, -⟩ <;> cases hk
  obtain ⟨c, r, hr⟩ := List.exists_cons_of_ne_nil h.text_ne_nil
  rw [h.rest_eq, hr, ht, List.cons_append] at hrec
  rcases Token.recognize_cases hrec with
    ⟨-, hk, -⟩ | ⟨-, hk, -⟩ | ⟨-, hk, -⟩ | ⟨-, -, -, hsymbol⟩
  · cases hk
  · refine absurd hk.symm (Token.wordKind_induction (motive := (· ≠ .string q)) ?_ nofun _)
    cases q <;> decide
  · cases hk
  · obtain ⟨rfl, m, hm, hlength⟩ := Token.closing?_of_symbol hsymbol
    obtain ⟨w, rest, hw, rfl⟩ := StringLiteral.exists_body_of_closing? q.char_ne_backslash hm
    -- the text of the token ends right behind the mark that closes the string
    rw [← List.singleton_append, ← List.append_assoc] at hw
    obtain ⟨rfl, -⟩ := List.append_inj hw (by simpa using hlength)
    exact ⟨w, hr⟩

theorem Token.sign_eq_string {t : Token} {raw : Text} (h : t.sign = .atom (.string raw)) :
    ∃ q, t.kind = .string q ∧ t.text = raw := by
  rw [sign] at h
  split at h <;> cases h
  exact ⟨_, ‹_›, rfl⟩

/-! ## Normal forms of templates that were read -/

section

variable {f g : Text → Text}

theorem Expr.normal_congr {e : Expr}
    (h : ∀ raw, Sign.atom (.string raw) ∈ e.signs → f raw = g raw) : e.normal f = e.normal g := by
  induction e with
  | path p =>
    obtain ⟨a, names⟩ := p
    cases a with
    | string raw => simp [normal, Path.normal, Atom.normal, h raw List.mem_cons_self]
    | _ => rfl
  | unary op operand ih =>
    rw [normal, normal, ih fun raw hraw ↦ h raw (List.mem_cons_of_mem _ hraw)]
  | binary op lhs rhs ih₁ ih₂ =>
    simp only [signs, List.mem_append, List.mem_cons] at h
    rw [normal, normal, ih₁ fun raw hraw ↦ h raw (.inl hraw),
      ih₂ fun raw hraw ↦ h raw (.inr (.inr hraw))]
  | ternary condition consequent alternate ih₁ ih₂ ih₃ =>
    simp only [signs, List.mem_append, List.mem_cons] at h
    rw [normal, normal, ih₁ fun raw hraw ↦ h raw (.inl hraw),
      ih₂ fun raw hraw ↦ h raw (.inr (.inr (.inl hraw))),
      ih₃ fun raw hraw ↦ h raw (.inr (.inr (.inr (.inr hraw))))]

theorem Item.normal_congr {i : Item}
    (h : ∀ raw, Sign.atom (.string raw) ∈ i.signs → f raw = g raw) : i.normal f = i.normal g := by
  cases i with
  | literal text => rfl
  | embedded d e =>
    refine Expr.normal_congr fun raw hraw ↦ h raw ?_
    exact List.mem_cons_of_mem _ (List.mem_append_left _ hraw)

theorem Template.normal_congr {x : Template}
    (h : ∀ raw, Sign.atom (.string raw) ∈ signs x → f raw = g raw) : normal f x = normal g x := by
  have hitem : ∀ i ∈ x, i.normal f = i.normal g := fun i hi ↦
    Item.normal_congr fun raw hraw ↦ h raw (List.mem_flatMap.mpr ⟨i, hi, hraw⟩)
  cases x with
  | nil => rfl
  | cons i x =>
    obtain ⟨hi, hx⟩ := List.forall_mem_cons.mp hitem
    rw [normal, normal, hi, List.map_congr_left hx]

end

/-- In a template that was read, the text that lowering makes of a string is the text between its
marks. -/
theorem normal_eq_of_readTemplate {limit : Nat} {input : Text} {x : Template}
    (h : readTemplate limit input = .ok x) :
    Template.normal unquote x = Template.normal Text.betweenMarks x := by
  obtain ⟨ts, hts, hparse⟩ := readTemplate_eq_ok_iff.mp h
  refine Template.normal_congr fun raw hraw ↦ ?_
  rw [← (parse_eq_ok_iff.mp hparse).1] at hraw
  obtain ⟨t, ht, hsign⟩ := List.mem_map.mp hraw
  obtain ⟨q, hkind, rfl⟩ := Token.sign_eq_string hsign
  obtain ⟨w, hw⟩ := Scanner.forall_mem_of_tokenize (P := fun t ↦ t.kind = .string q → _)
    (fun _ _ _ htakes hk ↦ htakes.exists_body hk) hts t ht hkind
  rw [hw, unquote_quoted, Text.betweenMarks_quoted]

/-- **Lowering keeps apart what it should.** Templates that were read from texts and have no numeric
negation in them are lowered to the same code exactly if they have the same normal form: item by
item the same expressions, where the delimiter does not count, a string counts as the text between
its quotation marks, literal text counts as a string, and no item at all as the empty string. -/
theorem lower_eq_iff_normal_eq (helper : Text) {limit limit' : Nat} {input input' : Text}
    {x y : Template} (hx : readTemplate limit input = .ok x)
    (hy : readTemplate limit' input' = .ok y) (hxminus : Template.hasMinus x = false)
    (hyminus : Template.hasMinus y = false) :
    ∃ a b, Template.lower helper x = .ok a ∧ Template.lower helper y = .ok b ∧
      (a = b ↔ Template.normal Text.betweenMarks x = Template.normal Text.betweenMarks y) := by
  obtain ⟨a, ha⟩ := Template.exists_lower_of_hasMinus helper hxminus
  obtain ⟨b, hb⟩ := Template.exists_lower_of_hasMinus helper hyminus
  refine ⟨a, b, ha, hb, ?_⟩
  rw [← normal_eq_of_readTemplate hx, ← normal_eq_of_readTemplate hy]
  exact Template.lower_eq_iff ha hb

/-- Text and a string are lowered alike, whatever the delimiters and the quotation marks, but two
strings in a row are not lowered to one: `a#{'b'.c}`, `${"a"}${"b".c}` and `#{'ab'.c}`. -/
theorem lower_eq_iff_normal_eq_strings :
    let text := "a#\x7b'b'.c\x7d".toList
    let text' := "$\x7b\"a\"\x7d$\x7b\"b\".c\x7d".toList
    let joint := "#\x7b'ab'.c\x7d".toList
    ∃ x y z a b c, readTemplate 1 text = .ok x ∧ readTemplate 1 text' = .ok y ∧
      readTemplate 1 joint = .ok z ∧ Template.lower [] x = .ok a ∧ Template.lower [] y = .ok b ∧
        Template.lower [] z = .ok c ∧ a = b ∧ a ≠ c := by
  intro text text' joint
  have hts := Scanner.tokenize_of_returned text 6 (by decide) rfl
  have hts' := Scanner.tokenize_of_returned text' 8 (by decide) rfl
  have hjoint := Scanner.tokenize_of_returned joint 5 (by decide) rfl
  have hx : readTemplate 1 text =
      .ok [.literal ['a'], .embedded .deferred (.path ⟨.string "'b'".toList, [['c']]⟩)] :=
    readTemplate_eq_ok_iff.mpr ⟨_, hts, parse_eq_ok_iff.mpr (by decide)⟩
  have hy : readTemplate 1 text' = .ok [.embedded .dynamic (.constant "\"a\"".toList),
      .embedded .dynamic (.path ⟨.string "\"b\"".toList, [['c']]⟩)] :=
    readTemplate_eq_ok_iff.mpr ⟨_, hts', parse_eq_ok_iff.mpr (by decide)⟩
  have hz : readTemplate 1 joint =
      .ok [.embedded .deferred (.path ⟨.string "'ab'".toList, [['c']]⟩)] :=
    readTemplate_eq_ok_iff.mpr ⟨_, hjoint, parse_eq_ok_iff.mpr (by decide)⟩
  obtain ⟨a, b, ha, hb, hab⟩ := lower_eq_iff_normal_eq [] hx hy rfl rfl
  obtain ⟨a', c, ha', hc, hac⟩ := lower_eq_iff_normal_eq [] hx hz rfl rfl
  obtain rfl := Except.ok.inj (ha.symm.trans ha')
  exact ⟨_, _, _, a, b, c, hx, hy, hz, ha, hb, hc, hab.mpr (by decide),
    fun h ↦ absurd (hac.mp h) (by decide)⟩

end Interpolation
