import Interpolation.Code.Source
import Interpolation.Proofs.Script.Unambiguous

/-!
# Printed code is read back

The printer has a level for every construct and asks for a least level at every place; the grammar
of scripts has a category for every kind of expression. The two meet in `Code.category`, which sends
a level to the category of what may stand at a place that asks for it. Then every construct has one
lemma: if the printed parts are read as the parts, the printed whole is read as the whole.

What a text is read as depends on what follows it, since a name or a numeral goes on for as long as
it can. So it is said that the text is read as it should be before anything that does not go on with
a name, and all that the printer puts behind a piece of code is of that kind.
-/

namespace Interpolation

open Script (Category Derives Lexeme Spells Reads)
open Text (Builder)
open Token.Rule (isNameChar)

namespace Code

/-! ## Code that can be read -/

/-- The names in the code are names of the language, and the numbers are numerals. Strings are
free. -/
inductive Printable : Code → Prop where
  | string {v} : Printable (.string v)
  | number {d} : Text.isNumeral d = true → Printable (.number d)
  | boolean {b} : Printable (.boolean b)
  | name {n} : Text.isName n = true → n ∉ Script.reserved → Printable (.name n)
  | property {c n} : Printable c → Text.isName n = true → Printable (.property c n)
  | binary {op c d} : Printable c → Printable d → Printable (.binary op c d)
  | not {c} : Printable c → Printable (.not c)
  | conditional {c d e} : Printable c → Printable d → Printable e → Printable (.conditional c d e)
  | call {n ns arguments} : (∀ m ∈ n :: ns, Text.isName m = true) → n ∉ Script.reserved →
      (∀ c ∈ arguments, Printable c) → Printable (.call (Script.dottedName n ns) arguments)

/-! ## Strings -/

theorem string?_escape (c : Char) (s : Text) :
    Script.string? (escape c ++ s) = (Script.string? s).map (Prod.map (c :: ·) id) := by
  unfold escape
  split
  · rfl
  · rfl
  · rfl
  · rfl
  · rfl
  next hquote hbackslash hnewline hreturn _ =>
    split
    next hcontrol =>
      -- Control characters have small numbers, for which four digits are enough.
      have hlt : c.toNat < 0x10000 := by
        simp only [Text.isControl, Bool.or_eq_true, Bool.and_eq_true, decide_eq_true_eq] at hcontrol
        omega
      have hvalue := Script.codePoint?_hex4 c
      match hdigits : Text.hex4 c.toNat, Script.length_hex4 hlt with
      | [w, x, y, z], _ =>
        rw [hdigits] at hvalue
        simp [Script.string?, hvalue]
    next =>
      rw [List.singleton_append, Script.string?, if_neg (by simp_all)]
      · exact hquote
      · exact fun _ _ _ _ _ h ↦ absurd h hbackslash
      · exact fun _ _ h ↦ absurd h hbackslash

theorem string?_flatMap_escape (v r : Text) :
    Script.string? (v.flatMap escape ++ '"' :: r) = some (v, r) := by
  induction v with
  | nil => rfl
  | cons c v ih =>
    rw [List.flatMap_cons, List.append_assoc, string?_escape, ih]
    rfl

theorem first?_quote (v r : Text) : Script.first? (quote v ++ r) = some (.string v, r) := by
  simp [quote, Script.first?, string?_flatMap_escape]

/-! ## Levels and categories -/

/-- What may stand at a place that asks for the level. -/
def category : Nat → Category
  | 0 | 1 => .expression
  | 8 => .access
  | n => if n < 8 then .chain (Script.tiers.drop (n - 2)) else .atom

theorem derives_category_of_succ {n : Nat} {ls : List Lexeme} {c : Code}
    (h : Derives (category (n + 1)) ls c) : Derives (category n) ls c := by
  match n with
  | 0 => exact h
  | 1 => exact .ofChain h
  | 2 | 3 | 4 | 5 | 6 => exact .ofTighter h
  | 7 => exact .ofAccess h
  | 8 => exact .ofAtom h
  | n + 9 => exact h

/-- What may stand at a place may stand at one that asks for less. -/
theorem derives_category_mono {m n : Nat} (hmn : m ≤ n) {ls : List Lexeme} {c : Code}
    (h : Derives (category n) ls c) : Derives (category m) ls c := by
  induction hmn with
  | refl => exact h
  | step _ ih => exact ih (derives_category_of_succ h)

/-- The levels of the printer are in the order of the tiers. -/
theorem exists_category_eq (op : Op) :
    ∃ ops tiers, category op.level = .chain (ops :: tiers) ∧ op ∈ ops ∧
      category (op.level + 1) = .chain tiers := by
  cases op <;> exact ⟨_, _, rfl, by decide, rfl⟩

/-! ## Texts that are read as code -/

/-- Before anything that does not go on with a name, the text is read as the code, which is of the
category. It does not start as the rest of an inequality would. -/
structure Prints (K : Category) (c : Code) (s : Text) : Prop where
  opens : ∃ x t, s = x :: t ∧ x ≠ '='
  read : ∃ ls, Derives K ls c ∧
    ∀ {r ms}, r.Stops isNameChar → Spells r ms → Spells (s ++ r) (ls ++ ms)

namespace Prints

variable {c d e : Code} {s t u : Text}

theorem mono {m n : Nat} (hmn : m ≤ n) (h : Prints (category n) c s) : Prints (category m) c s := by
  obtain ⟨hopens, ls, hls, hspells⟩ := h
  exact ⟨hopens, ls, derives_category_mono hmn hls, hspells⟩

theorem parenthesize (h : Prints .expression c s) : Prints .atom c ('(' :: s ++ [')']) := by
  obtain ⟨-, ls, hls, hspells⟩ := h
  refine ⟨⟨_, _, rfl, by decide⟩, _, .parentheses hls, fun {r ms} _ hms ↦ ?_⟩
  have hclosing : Spells (')' :: r) (.closing :: ms) := .lexeme rfl hms
  have hinner := hspells (by simp [Text.Stops, isNameChar]) hclosing
  simpa using Spells.lexeme (l := .opening) (s := '(' :: _) rfl hinner

theorem string (v : Text) : Prints .atom (.string v) (quote v) :=
  ⟨⟨_, _, rfl, by decide⟩, _, .string, fun _ hms ↦ .lexeme (first?_quote v _) hms⟩

theorem number {d : Text} (hd : d.isNumeral = true) : Prints .atom (.number d) d := by
  obtain ⟨x, t, hcons, hx, -⟩ := Text.exists_cons_of_isNumeral hd
  refine ⟨⟨x, t, hcons, by rintro rfl; cases hx⟩, _, .number, fun hr hms ↦ ?_⟩
  exact .lexeme (Script.first?_digits hd (hr.mono fun _ ↦ Text.isNameChar_of_isDigit)) hms

theorem word {w : Text} (hw : w.isName = true) (h : Derives .atom [.word w] c) :
    Prints .atom c w := by
  obtain ⟨x, t, hcons, hx, -⟩ := Text.exists_cons_of_isName hw
  refine ⟨⟨x, t, hcons, by rintro rfl; cases hx⟩, _, h, fun hr hms ↦ ?_⟩
  exact .lexeme (Script.first?_word hw hr) hms

theorem property {n : Text} (h : Prints .access c s) (hn : n.isName = true) :
    Prints .access (.property c n) (s ++ '.' :: n) := by
  obtain ⟨⟨x, t, rfl, hx⟩, ls, hls, hspells⟩ := h
  refine ⟨⟨x, _, rfl, hx⟩, _, .property hls, fun {r ms} hr hms ↦ ?_⟩
  have hname : Spells (n ++ r) (.word n :: ms) := .lexeme (Script.first?_word hn hr) hms
  have hdot : Spells ('.' :: (n ++ r)) (.dot :: .word n :: ms) := .lexeme rfl hname
  simpa using hspells (by simp [Text.Stops, isNameChar]) hdot

theorem not (h : Prints (.chain []) c s) : Prints (.chain []) (.not c) ('!' :: s) := by
  obtain ⟨⟨x, t, rfl, hx⟩, ls, hls, hspells⟩ := h
  refine ⟨⟨'!', _, rfl, by decide⟩, _, .not hls, fun hr hms ↦ ?_⟩
  exact .lexeme (Script.first?_bang (by simpa using hx)) (hspells hr hms)

theorem binary {op : Op} {ops : List Op} {tiers : List (List Op)} (hop : op ∈ ops)
    (hc : Prints (.chain (ops :: tiers)) c s) (hd : Prints (.chain tiers) d t) :
    Prints (.chain (ops :: tiers)) (.binary op c d)
      (s ++ (' ' :: op.symbol.toList ++ [' ']) ++ t) := by
  obtain ⟨⟨x, s, rfl, hx⟩, ls, hls, hleft⟩ := hc
  obtain ⟨-, ms, hms, hright⟩ := hd
  refine ⟨⟨x, _, rfl, hx⟩, _, .binary hop hls hms, fun {r ns} hr hns ↦ ?_⟩
  have hop : Spells (op.symbol.toList ++ ' ' :: (t ++ r)) (.op op :: (ms ++ ns)) :=
    .lexeme (Script.first?_op op _) (.blank rfl (hright hr hns))
  simpa using hleft (by simp [Text.Stops, isNameChar]) (.blank rfl hop)

theorem conditional (hc : Prints (.chain Script.tiers) c s) (hd : Prints .expression d t)
    (he : Prints .expression e u) :
    Prints .expression (.conditional c d e) (s ++ " ? ".toList ++ t ++ " : ".toList ++ u) := by
  obtain ⟨⟨x, s, rfl, hx⟩, ls, hls, htest⟩ := hc
  obtain ⟨-, ms, hms, hconsequent⟩ := hd
  obtain ⟨-, ns, hns, halternate⟩ := he
  refine ⟨⟨x, _, rfl, hx⟩, _, .conditional hls hms hns, fun {r os} hr hos ↦ ?_⟩
  have hcolon : Spells (" : ".toList ++ (u ++ r)) (.colon :: (ns ++ os)) :=
    .blank rfl (.lexeme rfl (.blank rfl (halternate hr hos)))
  have hquestion : Spells (" ? ".toList ++ (t ++ (" : ".toList ++ (u ++ r))))
      (.question :: (ms ++ .colon :: (ns ++ os))) :=
    .blank rfl (.lexeme rfl (.blank rfl (hconsequent (by simp [Text.Stops, isNameChar]) hcolon)))
  simpa using htest (by simp [Text.Stops, isNameChar]) hquestion

end Prints

/-! ## Calls -/

theorem spells_dottedName {n : Text} {ns : List Text} (hns : ∀ m ∈ n :: ns, m.isName = true)
    {r : Text} {ls : List Lexeme} (hr : r.Stops isNameChar) (hls : Spells r ls) :
    Spells (Script.dottedName n ns ++ r) (.word n :: Script.dottedLexemes ns ++ ls) := by
  induction ns generalizing n with
  | nil =>
    have hhead := Spells.lexeme (Script.first?_word (hns n (by simp)) hr) hls
    simpa [Script.dottedName, Script.dottedLexemes] using hhead
  | cons m ns ih =>
    have htail := ih fun k hk ↦ hns k (List.mem_cons_of_mem _ hk)
    have hdot : Spells ('.' :: (Script.dottedName m ns ++ r))
        (.dot :: .word m :: Script.dottedLexemes ns ++ ls) := .lexeme rfl htail
    have hstops : Text.Stops isNameChar ('.' :: (Script.dottedName m ns ++ r)) := by
      simp [Text.Stops, isNameChar]
    have hhead := Spells.lexeme (Script.first?_word (hns n (by simp)) hstops) hdot
    simpa [Script.dottedName, Script.dottedLexemes] using hhead

theorem exists_arguments {cs : List Code} {f : Code → Text}
    (hcs : ∀ c ∈ cs, Prints .expression c (f c)) :
    ∃ xs : List (List Lexeme × Code), xs.map Prod.snd = cs ∧
      (∀ x ∈ xs, Derives .expression x.1 x.2) ∧
      ∀ {r ms}, r.Stops isNameChar → Spells r ms →
        Spells (", ".toList.intercalate (cs.map f) ++ r)
          ([.comma].intercalate (xs.map Prod.fst) ++ ms) := by
  induction cs with
  | nil => exact ⟨[], rfl, by simp, fun _ hms ↦ hms⟩
  | cons c cs ih =>
    obtain ⟨hc, hcs⟩ := List.forall_mem_cons.mp hcs
    obtain ⟨-, ls, hls, hhead⟩ := hc
    obtain ⟨xs, rfl, hxs, htail⟩ := ih hcs
    refine ⟨(ls, c) :: xs, rfl, List.forall_mem_cons.mpr ⟨hls, hxs⟩, fun {r ms} hr hms ↦ ?_⟩
    cases xs with
    | nil => simpa using hhead hr hms
    | cons x xs =>
      have hcomma := Spells.lexeme (s := ',' :: ' ' :: _) rfl (.blank rfl (htail hr hms))
      simpa using hhead (by simp [Text.Stops, isNameChar]) hcomma

theorem Prints.call {n : Text} {ns : List Text} {cs : List Code} {f : Code → Text}
    (hns : ∀ m ∈ n :: ns, m.isName = true) (hn : n ∉ Script.reserved)
    (hcs : ∀ c ∈ cs, Prints .expression c (f c)) :
    Prints .access (.call (Script.dottedName n ns) cs)
      (Script.dottedName n ns ++ '(' :: ", ".toList.intercalate (cs.map f) ++ [')']) := by
  obtain ⟨x, t, rfl, hx, -⟩ := Text.exists_cons_of_isName (hns n (by simp))
  obtain ⟨xs, rfl, hxs, harguments⟩ := exists_arguments hcs
  refine ⟨⟨x, _, rfl, by rintro rfl; cases hx⟩, _, .call hn hxs, fun {r ms} hr hms ↦ ?_⟩
  have hclosing : Spells (')' :: r) (.closing :: ms) := .lexeme rfl hms
  have hopening := Spells.lexeme (s := '(' :: _) rfl
    (harguments (by simp [Text.Stops, isNameChar]) hclosing)
  simpa using spells_dottedName hns (by simp [Text.Stops, isNameChar]) hopening

/-! ## The text of every construct -/

@[simp] theorem toText_parenthesize (s : Builder) :
    (parenthesize s).toText = '(' :: s.toText ++ [')'] := by
  simp [parenthesize]

theorem source_string (v : Text) : (string v).source = quote v := Builder.toText_ofText _

theorem source_number (d : Text) : (number d).source = d := Builder.toText_ofText _

theorem source_boolean (b : Bool) :
    (boolean b).source = if b then "true".toList else "false".toList := by
  cases b <;> exact Builder.toText_ofText _

theorem source_name (n : Text) : (name n).source = n := Builder.toText_ofText _

theorem source_property (c : Code) (n : Text) :
    (property c n).source = (beforeDot (m := Id) c c.write).run.toText ++ '.' :: n := by
  change ((beforeDot (m := Id) c c.write).run ++ Builder.ofText ('.' :: n)).toText = _
  simp

theorem source_binary (op : Op) (c d : Code) :
    (binary op c d).source =
      (atLeast op.level c c.write).toText ++ (' ' :: op.symbol.toList ++ [' ']) ++
        (atLeast (op.level + 1) d d.write).toText := by
  change (atLeast op.level c c.write ++ Builder.ofText (' ' :: op.symbol.toList ++ [' ']) ++
    atLeast (op.level + 1) d d.write).toText = _
  simp

theorem source_not (c : Code) :
    (not c).source = '!' :: (atLeast Level.negation c c.write).toText := by
  change (Builder.ofText ['!'] ++ atLeast Level.negation c c.write).toText = _
  simp

theorem source_conditional (c d e : Code) :
    (conditional c d e).source =
      (atLeast Level.disjunction c c.write).toText ++ " ? ".toList ++
        (atLeast Level.conditional d d.write).toText ++ " : ".toList ++
        (atLeast Level.conditional e e.write).toText := by
  change (atLeast Level.disjunction c c.write ++ Builder.ofText " ? ".toList ++
    atLeast Level.conditional d d.write ++ Builder.ofText " : ".toList ++
    atLeast Level.conditional e e.write).toText = _
  simp

theorem run_writeArgumentsBy (cs : List Code) :
    (writeArgumentsBy (m := Id) id cs).run =
      cs.map fun c ↦ atLeast Level.conditional c c.write := by
  induction cs with
  | nil => rfl
  | cons c cs ih =>
    rw [List.map_cons, ← ih]
    rfl

theorem source_call (f : Text) (cs : List Code) :
    (call f cs).source =
      f ++ '(' :: ", ".toList.intercalate
        (cs.map fun c ↦ (atLeast Level.conditional c c.write).toText) ++ [')'] := by
  change (Builder.ofText f ++ parenthesize
    (.separated ", ".toList (writeArgumentsBy (m := Id) id cs).run)).toText = _
  simp [run_writeArgumentsBy, Function.comp_def]

/-! ## The printer -/

theorem prints_atLeast {floor : Nat} (hfloor : floor ≤ Level.atom) {c : Code}
    (h : Prints (category c.level) c c.source) :
    Prints (category floor) c (atLeast floor c c.write).toText := by
  unfold atLeast
  split
  · rw [toText_parenthesize]
    have hatom : Prints (category Level.atom) c ('(' :: c.source ++ [')']) :=
      (h.mono (Nat.zero_le _)).parenthesize
    exact hatom.mono hfloor
  · exact h.mono (by omega)

theorem prints_beforeDot {c : Code} (h : Prints (category c.level) c c.source) :
    Prints .access c (beforeDot (m := Id) c c.write).run.toText := by
  unfold beforeDot
  split
  · -- A number is between parentheses here, although its level would do without.
    rw [Id.run_pure, toText_parenthesize]
    have hatom : Prints (category Level.atom) _ _ := (h.mono (Nat.zero_le _)).parenthesize
    exact hatom.mono (m := Level.access) (by decide)
  · exact prints_atLeast (by decide : Level.access ≤ Level.atom) h

/-- **Code is read from its source text.** -/
theorem prints_source {c : Code} (hc : c.Printable) : Prints (category c.level) c c.source := by
  induction hc with
  | string =>
    rw [source_string]
    exact .string _
  | number hd =>
    rw [source_number]
    exact .number hd
  | @boolean b =>
    rw [source_boolean]
    cases b
    · exact .word rfl .false
    · exact .word rfl .true
  | name hn hreserved =>
    rw [source_name]
    exact .word hn (.name hreserved)
  | property _ hn ih =>
    rw [source_property]
    exact (prints_beforeDot ih).property hn
  | @binary op c d _ _ ihc ihd =>
    -- The left operand may be a chain of the same tier, the right one starts at the next tier.
    obtain ⟨ops, tiers, hlevel, hop, hnext⟩ := exists_category_eq op
    have hbound : op.level + 1 ≤ Level.atom := by cases op <;> decide
    have hleft := prints_atLeast (Nat.le_of_succ_le hbound) ihc
    have hright := prints_atLeast hbound ihd
    rw [hlevel] at hleft
    rw [hnext] at hright
    rw [source_binary, level, hlevel]
    exact .binary hop hleft hright
  | not _ ih =>
    rw [source_not]
    exact (prints_atLeast (by decide : Level.negation ≤ Level.atom) ih).not
  | conditional _ _ _ ihc ihd ihe =>
    have hbranch : Level.conditional ≤ Level.atom := by decide
    have htest : Level.disjunction ≤ Level.atom := by decide
    rw [source_conditional]
    exact .conditional (prints_atLeast htest ihc) (prints_atLeast hbranch ihd)
      (prints_atLeast hbranch ihe)
  | call hns hn _ ih =>
    have hargument : Level.conditional ≤ Level.atom := by decide
    rw [source_call]
    exact .call hns hn fun c hc ↦ prints_atLeast hargument (ih c hc)

theorem reads_source {c : Code} (hc : c.Printable) : Reads c.source c := by
  obtain ⟨-, ls, hls, hspells⟩ := (prints_source hc).mono (Nat.zero_le _)
  have hsource := hspells (r := []) (by simp [Text.Stops]) .nil
  exact ⟨ls, by simpa using hsource, hls⟩

end Code

/-- **Printing loses nothing.** The source text of code is read as that code and as nothing else, so
that no other code is printed as the same text. -/
theorem reads_source_iff {c : Code} (hc : c.Printable) :
    (∀ d, Reads c.source d ↔ d = c) ∧ ∀ d : Code, d.Printable → d.source = c.source → d = c := by
  have hreads := Code.reads_source hc
  constructor
  · intro d
    constructor
    · exact fun hd ↦ hd.unique hreads
    · rintro rfl
      exact hreads
  · intro d hd hsource
    have hdreads := Code.reads_source hd
    rw [hsource] at hdreads
    exact hdreads.unique hreads

/-- Constructs of all levels in one another, a number with a property, and a string with escapes. -/
theorem reads_source_iff_nested :
    let a : Code := .name ['a']
    let b : Code := .property (.number ['1']) ['b']
    let s : Code := .string ['"', '\\', '\n', Char.ofNat 0x7F]
    let c : Code := .conditional
      (.binary .or (.not (.binary .equal a b)) (.binary .add a (.binary .add b (.not (.not a)))))
      (.call "f.g".toList [.conditional a b a, s])
      (.conditional (.conditional a b a) s (.binary .greater (.binary .less a b) a))
    let text := "!(a === (1).b) || a + ((1).b + !!a) ? " ++
      "f.g(a ? (1).b : a, \"\\\"\\\\\\n\\u007f\") : " ++
      "(a ? (1).b : a) ? \"\\\"\\\\\\n\\u007f\" : a < (1).b > a"
    c.Printable ∧ c.source = text.toList ∧ ∀ d, Reads text.toList d ↔ d = c := by
  intro a b s c text
  have ha : a.Printable := .name rfl (by decide)
  have hb : b.Printable := .property (.number rfl) rfl
  have hs : s.Printable := .string
  have hinner : (Code.conditional a b a).Printable := .conditional ha hb ha
  have hnames : ∀ m ∈ ['f'] :: [['g']], Text.isName m = true := by decide
  have harguments : ∀ x ∈ [Code.conditional a b a, s], x.Printable := by
    simp only [List.mem_cons, List.not_mem_nil, or_false]
    rintro x (rfl | rfl)
    · exact hinner
    · exact hs
  have hc : c.Printable :=
    .conditional (.binary (.not (.binary ha hb)) (.binary ha (.binary hb (.not (.not ha)))))
      (.call hnames (by decide) harguments)
      (.conditional hinner hs (.binary (.binary ha hb) ha))
  have htext : c.source = text.toList := by decide +kernel
  exact ⟨hc, htext, htext ▸ (reads_source_iff hc).1⟩

end Interpolation
