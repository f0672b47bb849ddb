import Interpolation.Proofs.Template.Exact

/-!
# The grammar of templates

The grammar as a relation between phrases and lists of kinds, read off the rules

```text
template    :=  item*
item        :=  opening expression closing  |  literal
expression  :=  (path | unary) [binary] [ternary]
unary       :=  unary-operator expression
binary      :=  binary-operator expression
ternary     :=  question expression colon expression
path        :=  atom (dot identifier)*
atom        :=  boolean  |  integer  |  string  |  identifier
```

A list has as many derivations as there are ways to hand its suffixes to the expressions before
them. The reader only ever finds one of these, the one that gives every suffix to the innermost
expression. It misses nothing by that: a suffix that some derivation puts behind a whole expression
can be moved to the last path of that expression, and the signs stay where they are
(`Expr.signs_atLast`).
-/

namespace Interpolation

namespace Grammar

/-- The phrases of the grammar. -/
inductive Phrase where
  /-- A whole template. -/
  | template
  /-- Literal text or an embedded expression. -/
  | item
  /-- What stands between delimiters, and what an operator applies to. -/
  | expression
  /-- An expression without its suffixes. -/
  | primary
  /-- A unary operator and its operand. -/
  | unary
  /-- A binary operator and its second operand. -/
  | binary
  /-- The branches of a conditional. -/
  | ternary
  /-- A value with its properties. -/
  | path
  /-- A dot and the name of a property. -/
  | property
  | atom
  /-- A phrase that may be left out. -/
  | optional (phrase : Phrase)
  /-- A phrase any number of times. -/
  | many (phrase : Phrase)

/-- The phrase can be spelled with tokens of the given kinds. -/
inductive Derives : Phrase → List Token.Kind → Prop where
  | absent {p : Phrase} : Derives (.optional p) []
  | present {p : Phrase} {ks : List Token.Kind} : Derives p ks → Derives (.optional p) ks
  | done {p : Phrase} : Derives (.many p) []
  | more {p : Phrase} {ks ls : List Token.Kind} :
    Derives p ks → Derives (.many p) ls → Derives (.many p) (ks ++ ls)
  | template {ks : List Token.Kind} : Derives (.many .item) ks → Derives .template ks
  | embedded {d : Delimiter} {ks : List Token.Kind} :
    Derives .expression ks → Derives .item (.opening d :: (ks ++ [.closing]))
  | literal : Derives .item [.literal]
  | expression {ks ls ms : List Token.Kind} :
    Derives .primary ks → Derives (.optional .binary) ls → Derives (.optional .ternary) ms →
      Derives .expression (ks ++ (ls ++ ms))
  | primaryPath {ks : List Token.Kind} : Derives .path ks → Derives .primary ks
  | primaryUnary {ks : List Token.Kind} : Derives .unary ks → Derives .primary ks
  | unary {op : UnaryOp} {ks : List Token.Kind} :
    Derives .expression ks → Derives .unary (.unary op :: ks)
  | binary {op : BinaryOp} {ks : List Token.Kind} :
    Derives .expression ks → Derives .binary (.binary op :: ks)
  | ternary {ks ls : List Token.Kind} :
    Derives .expression ks → Derives .expression ls →
      Derives .ternary (.question :: (ks ++ .colon :: ls))
  | path {ks ls : List Token.Kind} :
    Derives .atom ks → Derives (.many .property) ls → Derives .path (ks ++ ls)
  | property : Derives .property [.dot, .identifier]
  | boolean : Derives .atom [.boolean]
  | integer : Derives .atom [.integer]
  | string {q : Quote} : Derives .atom [.string q]
  | identifier : Derives .atom [.identifier]

end Grammar

open Grammar

/-! ## What was read can be derived -/

theorem Token.derives_of_sign {t : Token} {a : Atom} (h : t.sign = .atom a) :
    Derives .atom [t.kind] := by
  rw [Token.sign] at h
  split at h
  · cases h
  · exact ‹t.kind = _› ▸ .boolean
  · exact ‹t.kind = _› ▸ .integer
  · exact ‹t.kind = _› ▸ .string
  · exact ‹t.kind = _› ▸ .identifier
  · cases h

theorem derives_properties {names : List Text} {ts : List Token}
    (h : ts.map Token.sign = names.flatMap propertySigns) :
    Derives (.many .property) (ts.map Token.kind) := by
  induction names generalizing ts with
  | nil =>
    rw [List.map_eq_nil_iff.mp h]
    exact .done
  | cons n names ih =>
    obtain ⟨t, us, rfl, ht, hus⟩ := List.map_eq_cons_iff.mp h
    obtain ⟨u, vs, rfl, hu, hvs⟩ := List.map_eq_cons_iff.mp hus
    rw [List.map_cons, List.map_cons, (Token.sign_eq_bare_iff.mp ht).1,
      (Token.sign_eq_name_iff.mp hu).1]
    exact .more .property (ih hvs)

theorem Path.derives {p : Path} {ts : List Token} (h : ts.map Token.sign = p.signs) :
    Derives .path (ts.map Token.kind) := by
  obtain ⟨t, us, rfl, ht, hus⟩ := List.map_eq_cons_iff.mp h
  exact .path (Token.derives_of_sign ht) (derives_properties hus)

theorem Expr.derives {e : Expr} (he : e.RightNested) {ts : List Token}
    (h : ts.map Token.sign = e.signs) : Derives .expression (ts.map Token.kind) := by
  -- Of the two suffixes a right-nested tree has at most one, so the other is always absent.
  induction e generalizing ts with
  | path p =>
    rw [← List.append_nil (ts.map Token.kind)]
    exact .expression (.primaryPath (Path.derives h)) .absent .absent
  | unary op operand ih =>
    obtain ⟨t, us, rfl, ht, hus⟩ := List.map_eq_cons_iff.mp h
    rw [List.map_cons, (Token.sign_eq_bare_iff.mp ht).1, ← List.append_nil (_ :: _)]
    exact .expression (.primaryUnary (.unary (ih he hus))) .absent .absent
  | binary op lhs rhs _ ih =>
    obtain ⟨p, rfl⟩ := Expr.isPath_iff.mp he.1
    obtain ⟨us, vs, rfl, hus, hvs⟩ := List.map_eq_append_iff.mp h
    obtain ⟨t, ws, rfl, ht, hws⟩ := List.map_eq_cons_iff.mp hvs
    rw [List.map_append, List.map_cons, (Token.sign_eq_bare_iff.mp ht).1,
      ← List.append_nil (_ :: _)]
    exact .expression (.primaryPath (Path.derives hus)) (.present (.binary (ih he.2 hws))) .absent
  | ternary condition consequent alternate _ ihc iha =>
    obtain ⟨p, rfl⟩ := Expr.isPath_iff.mp he.1
    obtain ⟨us, vs, rfl, hus, hvs⟩ := List.map_eq_append_iff.mp h
    obtain ⟨t, ws, rfl, ht, hws⟩ := List.map_eq_cons_iff.mp hvs
    obtain ⟨cs, ds, rfl, hcs, hds⟩ := List.map_eq_append_iff.mp hws
    obtain ⟨u, as, rfl, hu, has⟩ := List.map_eq_cons_iff.mp hds
    rw [List.map_append, List.map_cons, List.map_append, List.map_cons,
      (Token.sign_eq_bare_iff.mp ht).1, (Token.sign_eq_bare_iff.mp hu).1,
      ← List.nil_append (_ :: _)]
    exact .expression (.primaryPath (Path.derives hus)) .absent
      (.present (.ternary (ihc he.2.1 hcs) (iha he.2.2 has)))

theorem Item.derives {i : Item} (hi : i.RightNested) {ts : List Token}
    (h : ts.map Token.sign = i.signs) : Derives .item (ts.map Token.kind) := by
  cases i with
  | literal text =>
    obtain ⟨t, rfl, ht⟩ := List.map_eq_singleton_iff.mp h
    rw [List.map_singleton, (Token.sign_eq_literal_iff.mp ht).1]
    exact .literal
  | embedded d e =>
    obtain ⟨t, us, rfl, ht, hus⟩ := List.map_eq_cons_iff.mp h
    obtain ⟨vs, ws, rfl, hvs, hws⟩ := List.map_eq_append_iff.mp hus
    obtain ⟨u, rfl, hu⟩ := List.map_eq_singleton_iff.mp hws
    rw [List.map_cons, List.map_append, List.map_singleton, (Token.sign_eq_bare_iff.mp ht).1,
      (Token.sign_eq_bare_iff.mp hu).1]
    exact .embedded (Expr.derives hi hvs)

theorem Template.derives {x : Template} (hx : Template.RightNested x) {ts : List Token}
    (h : ts.map Token.sign = Template.signs x) : Derives .template (ts.map Token.kind) := by
  refine .template ?_
  induction x generalizing ts with
  | nil =>
    rw [List.map_eq_nil_iff.mp h]
    exact .done
  | cons i x ih =>
    obtain ⟨hi, hx⟩ := List.forall_mem_cons.mp hx
    obtain ⟨us, vs, rfl, hus, hvs⟩ := List.map_eq_append_iff.mp h
    rw [List.map_append]
    exact .more (Item.derives hi hus) (ih hx hvs)

/-! ## What can be derived is read

A suffix is moved to the last path of the expression that a derivation puts it behind. -/

/-- The expression with its last path replaced. -/
def Expr.atLast (f : Path → Expr) : Expr → Expr
  | .path p => f p
  | .unary op operand => .unary op (operand.atLast f)
  | .binary op lhs rhs => .binary op lhs (rhs.atLast f)
  | .ternary condition consequent alternate =>
    .ternary condition consequent (alternate.atLast f)

theorem Expr.signs_atLast {f : Path → Expr} {suffix : List Sign}
    (hf : ∀ p, (f p).signs = p.signs ++ suffix) (e : Expr) :
    (e.atLast f).signs = e.signs ++ suffix := by
  induction e with
  | path p => exact hf p
  | unary op operand ih => rw [atLast, signs, signs, ih, List.cons_append]
  | binary op lhs rhs _ ih =>
    rw [atLast, signs, signs, ih, List.append_assoc, List.cons_append]
  | ternary condition consequent alternate _ _ ih =>
    simp only [atLast, signs, ih, List.append_assoc, List.cons_append]

theorem Expr.RightNested.atLast {f : Path → Expr} (hf : ∀ p, (f p).RightNested) {e : Expr}
    (he : e.RightNested) : (e.atLast f).RightNested := by
  induction e with
  | path p => exact hf p
  | unary op operand ih => exact ih he
  | binary op lhs rhs _ ih => exact ⟨he.1, ih he.2⟩
  | ternary condition consequent alternate _ _ ih => exact ⟨he.1, he.2.1, ih he.2.2⟩

/-- The tokens are a phrase of the shape that reading produces. -/
def Grammar.Phrase.Readable : Phrase → List Token → Prop
  | .template, ts => ∃ x, Template.RightNested x ∧ ts.map Token.sign = Template.signs x
  | .item, ts => ∃ i : Item, i.RightNested ∧ ts.map Token.sign = i.signs
  | .expression, ts | .primary, ts | .unary, ts =>
    ∃ e : Expr, e.RightNested ∧ ts.map Token.sign = e.signs
  | .binary, ts =>
    ∃ op, ∃ e : Expr, e.RightNested ∧ ts.map Token.sign = .bare (.binary op) :: e.signs
  | .ternary, ts =>
    ∃ c a : Expr, c.RightNested ∧ a.RightNested ∧
      ts.map Token.sign = .bare .question :: (c.signs ++ .bare .colon :: a.signs)
  | .path, ts => ∃ p : Path, ts.map Token.sign = p.signs
  | .property, ts => ∃ n, ts.map Token.sign = propertySigns n
  | .atom, ts => ∃ a, ts.map Token.sign = [.atom a]
  | .optional p, ts => ts = [] ∨ p.Readable ts
  | .many p, ts => ∃ parts : List (List Token), ts = parts.flatten ∧ ∀ part ∈ parts, p.Readable part

/-- Phrases one after the other are a list of what they stand for. -/
theorem exists_signs_of_parts {α : Type} {P : α → Prop} {signs : α → List Sign}
    {parts : List (List Token)} (h : ∀ part ∈ parts, ∃ a, P a ∧ part.map Token.sign = signs a) :
    ∃ as : List α, (∀ a ∈ as, P a) ∧ parts.flatten.map Token.sign = as.flatMap signs := by
  induction parts with
  | nil => exact ⟨[], List.forall_mem_nil _, rfl⟩
  | cons part parts ih =>
    obtain ⟨⟨a, ha, hpart⟩, hparts⟩ := List.forall_mem_cons.mp h
    obtain ⟨as, has, hsigns⟩ := ih hparts
    refine ⟨a :: as, List.forall_mem_cons.mpr ⟨ha, has⟩, ?_⟩
    rw [List.flatten_cons, List.map_append, hpart, hsigns, List.flatMap_cons]

/-- An expression goes on with a binary operator, whatever it ends with. -/
theorem exists_binary {e rhs : Expr} (he : e.RightNested) (hrhs : rhs.RightNested)
    (op : BinaryOp) :
    ∃ e' : Expr, e'.RightNested ∧ e'.signs = e.signs ++ .bare (.binary op) :: rhs.signs :=
  ⟨e.atLast fun p ↦ .binary op (.path p) rhs,
    he.atLast (f := fun p ↦ .binary op (.path p) rhs) fun _ ↦ ⟨rfl, hrhs⟩,
    e.signs_atLast fun _ ↦ rfl⟩

/-- An expression goes on with the branches of a conditional, whatever it ends with. -/
theorem exists_ternary {e c a : Expr} (he : e.RightNested) (hc : c.RightNested)
    (ha : a.RightNested) :
    ∃ e' : Expr, e'.RightNested ∧
      e'.signs = e.signs ++ .bare .question :: (c.signs ++ .bare .colon :: a.signs) :=
  ⟨e.atLast fun p ↦ .ternary (.path p) c a,
    he.atLast (f := fun p ↦ .ternary (.path p) c a) fun _ ↦ ⟨rfl, hc, ha⟩,
    e.signs_atLast fun _ ↦ rfl⟩

theorem Grammar.Phrase.readable_of_derives {p : Phrase} {ks : List Token.Kind}
    (h : Derives p ks) {ts : List Token} (hts : ts.map Token.kind = ks) : p.Readable ts := by
  induction h generalizing ts with
  | absent => exact Or.inl (List.map_eq_nil_iff.mp hts)
  | present _ ih => exact Or.inr (ih hts)
  | done => exact ⟨[], List.map_eq_nil_iff.mp hts, List.forall_mem_nil _⟩
  | more _ _ ih₁ ih₂ =>
    obtain ⟨us, vs, rfl, hus, hvs⟩ := List.map_eq_append_iff.mp hts
    obtain ⟨parts, rfl, hparts⟩ := ih₂ hvs
    exact ⟨us :: parts, rfl, List.forall_mem_cons.mpr ⟨ih₁ hus, hparts⟩⟩
  | template _ ih =>
    obtain ⟨parts, rfl, hparts⟩ := ih hts
    exact exists_signs_of_parts hparts
  | @embedded d _ _ ih =>
    obtain ⟨t, us, rfl, ht, hus⟩ := List.map_eq_cons_iff.mp hts
    obtain ⟨vs, ws, rfl, hvs, hws⟩ := List.map_eq_append_iff.mp hus
    obtain ⟨u, rfl, hu⟩ := List.map_eq_singleton_iff.mp hws
    obtain ⟨e, he, hsigns⟩ := ih hvs
    refine ⟨.embedded d e, he, ?_⟩
    rw [List.map_cons, List.map_append, List.map_singleton, hsigns,
      Token.sign_eq_bare_iff.mpr ⟨ht, rfl⟩, Token.sign_eq_bare_iff.mpr ⟨hu, rfl⟩, Item.signs]
  | literal =>
    obtain ⟨t, rfl, ht⟩ := List.map_eq_singleton_iff.mp hts
    refine ⟨.literal t.text, trivial, ?_⟩
    rw [List.map_singleton, Token.sign_eq_literal_iff.mpr ⟨ht, rfl⟩, Item.signs]
  | expression _ _ _ ih₁ ih₂ ih₃ =>
    obtain ⟨us, vs, rfl, hus, hvs⟩ := List.map_eq_append_iff.mp hts
    obtain ⟨bs, cs, rfl, hbs, hcs⟩ := List.map_eq_append_iff.mp hvs
    obtain ⟨e, he, hsigns⟩ := ih₁ hus
    -- the primary with the binary suffix, and then that with the ternary one
    obtain ⟨e₁, he₁, hsigns₁⟩ : Readable .expression (us ++ bs) := by
      rcases ih₂ hbs with rfl | ⟨op, rhs, hrhs, hsuffix⟩
      · exact ⟨e, he, by rw [List.append_nil, hsigns]⟩
      · obtain ⟨e', he', hsigns'⟩ := exists_binary he hrhs op
        exact ⟨e', he', by rw [List.map_append, hsigns, hsuffix, hsigns']⟩
    rw [← List.append_assoc]
    rcases ih₃ hcs with rfl | ⟨c, a, hc, ha, hsuffix⟩
    · exact ⟨e₁, he₁, by rw [List.append_nil, hsigns₁]⟩
    · obtain ⟨e', he', hsigns'⟩ := exists_ternary he₁ hc ha
      exact ⟨e', he', by rw [List.map_append, hsigns₁, hsuffix, hsigns']⟩
  | primaryPath _ ih =>
    obtain ⟨p, hp⟩ := ih hts
    exact ⟨.path p, trivial, hp⟩
  | primaryUnary _ ih =>
    obtain ⟨e, he⟩ := ih hts
    exact ⟨e, he⟩
  | @unary op _ _ ih =>
    obtain ⟨t, us, rfl, ht, hus⟩ := List.map_eq_cons_iff.mp hts
    obtain ⟨e, he, hsigns⟩ := ih hus
    refine ⟨.unary op e, he, ?_⟩
    rw [List.map_cons, hsigns, Token.sign_eq_bare_iff.mpr ⟨ht, rfl⟩, Expr.signs]
  | @binary op _ _ ih =>
    obtain ⟨t, us, rfl, ht, hus⟩ := List.map_eq_cons_iff.mp hts
    obtain ⟨e, he, hsigns⟩ := ih hus
    refine ⟨op, e, he, ?_⟩
    rw [List.map_cons, hsigns, Token.sign_eq_bare_iff.mpr ⟨ht, rfl⟩]
  | ternary _ _ ih₁ ih₂ =>
    obtain ⟨t, us, rfl, ht, hus⟩ := List.map_eq_cons_iff.mp hts
    obtain ⟨vs, ws, rfl, hvs, hws⟩ := List.map_eq_append_iff.mp hus
    obtain ⟨u, as, rfl, hu, has⟩ := List.map_eq_cons_iff.mp hws
    obtain ⟨c, hc, hcsigns⟩ := ih₁ hvs
    obtain ⟨a, ha, hasigns⟩ := ih₂ has
    refine ⟨c, a, hc, ha, ?_⟩
    rw [List.map_cons, List.map_append, List.map_cons, hcsigns, hasigns,
      Token.sign_eq_bare_iff.mpr ⟨ht, rfl⟩, Token.sign_eq_bare_iff.mpr ⟨hu, rfl⟩]
  | path _ _ ih₁ ih₂ =>
    obtain ⟨us, vs, rfl, hus, hvs⟩ := List.map_eq_append_iff.mp hts
    obtain ⟨a, ha⟩ := ih₁ hus
    obtain ⟨parts, rfl, hparts⟩ := ih₂ hvs
    have hnamed : ∀ part ∈ parts, ∃ n, True ∧ part.map Token.sign = propertySigns n :=
      fun part hpart ↦ (hparts part hpart).imp fun _ h ↦ ⟨trivial, h⟩
    obtain ⟨names, -, hnames⟩ := exists_signs_of_parts hnamed
    refine ⟨⟨a, names⟩, ?_⟩
    rw [List.map_append, ha, hnames, Path.signs, List.singleton_append]
  | property =>
    obtain ⟨t, us, rfl, ht, hus⟩ := List.map_eq_cons_iff.mp hts
    obtain ⟨u, rfl, hu⟩ := List.map_eq_singleton_iff.mp hus
    refine ⟨u.text, ?_⟩
    rw [List.map_cons, List.map_singleton, Token.sign_eq_bare_iff.mpr ⟨ht, rfl⟩,
      Token.sign_eq_name_iff.mpr ⟨hu, rfl⟩, propertySigns]
  | boolean | integer | string | identifier =>
    obtain ⟨t, rfl, ht⟩ := List.map_eq_singleton_iff.mp hts
    simp [Readable, Token.sign, ht]

/-! ## The reader accepts the grammar -/

/-- **Reading succeeds exactly on the sentences of the grammar**, once the depth limit is at least
the number of tokens. -/
theorem parse_succeeds_iff_derives {limit : Nat} {ts : List Token} (h : ts.length ≤ limit) :
    (∃ x, parse limit ts = .ok x) ↔ Derives .template (ts.map Token.kind) := by
  constructor
  · rintro ⟨x, hx⟩
    obtain ⟨hsigns, hnested, -⟩ := parse_eq_ok_iff.mp hx
    exact Template.derives hnested hsigns
  · intro hder
    obtain ⟨x, hnested, hsigns⟩ := Phrase.readable_of_derives hder rfl
    refine ⟨x, parse_eq_ok_iff.mpr ⟨hsigns, hnested, fun i hi ↦ ?_⟩⟩
    calc i.nesting ≤ (Template.signs x).length := x.nestsWithin_length_signs i hi
      _ = ts.length := by rw [← hsigns, List.length_map]
      _ ≤ limit := h

/-- A sentence is read whichever derivation shows it to be one: here the one of `${!a == b}` that
compares the whole negation, while the reader negates the comparison. -/
theorem parse_succeeds_loose_negation :
    let ts : List Token :=
      [(.opening .dynamic, "$\x7b"), (.unary .not, "!"), (.identifier, "a"), (.binary .eq, "=="),
        (.identifier, "b"), (.closing, "\x7d")].map fun (k, s) ↦ ⟨k, s.toList, .outer, 0⟩
    ts.length ≤ 6 ∧ ∃ x, parse 6 ts = .ok x := by
  intro ts
  have hname : Derives .path [.identifier] := .path .identifier .done
  have hexpr : Derives .expression [.identifier] := .expression (.primaryPath hname) .absent .absent
  have hbody : Derives .expression [.unary .not, .identifier, .binary .eq, .identifier] :=
    .expression (.primaryUnary (.unary hexpr)) (.present (.binary hexpr)) .absent
  have htemplate : Derives .template (ts.map Token.kind) :=
    .template (.more (.embedded hbody) .done)
  exact ⟨by decide, (parse_succeeds_iff_derives (by decide)).mpr htemplate⟩

end Interpolation
