import Interpolation.Proofs.Code.Printing
import Interpolation.Proofs.Script.Strict
import Mathlib.Data.List.Infix

/-!
# No parentheses to spare

Printed code has as few parentheses as its reading allows: without any one pair of them the text is
no longer read as the code. Which parentheses a piece of code needs is a matter of counting
(`Code.openings`). A derivation of the code in the grammar of scripts has at least that many of them
(`Code.openings_le_count`), wherever they stand, and printed code has exactly that many. So a text
with one pair less can be anything but the same code.

For that the text must be read strictly: the parentheses in `(1).a` are there for the sake of the
lexemes and not of the grammar.
-/

namespace Interpolation

open Script (Category Derives Lexeme Outline Spells SpellsStrictly ReadsStrictly Whole first?)
open Token.Rule (isNameChar)

namespace Code

/-! ## The parentheses that code needs -/

/-- Whether the code is put between parentheses before a dot. -/
def wrapsBeforeDot : Code → Bool
  | .number _ => true
  | c => c.level < Level.access

/-- The number of pairs of parentheses around the code at a place that asks for at least the level
`floor`. -/
def wraps (floor : Nat) (c : Code) : Nat := if c.level < floor then 1 else 0

mutual

/-- The number of parentheses that open in the text of the code, those of calls among them. -/
def openings : Code → Nat
  | .string _ | .number _ | .boolean _ | .name _ => 0
  | .property object _ => openings object + if object.wrapsBeforeDot then 1 else 0
  | .binary op left right =>
    openings left + left.wraps op.level + (openings right + right.wraps (op.level + 1))
  | .not operand => openings operand + operand.wraps Level.negation
  | .conditional test consequent alternate =>
    openings test + test.wraps Level.disjunction +
      (openings consequent + consequent.wraps Level.conditional) +
      (openings alternate + alternate.wraps Level.conditional)
  | .call _ arguments => 1 + openingsIn arguments

def openingsIn : List Code → Nat
  | [] => 0
  | c :: cs => openings c + c.wraps Level.conditional + openingsIn cs

end

theorem wraps_mono {m n : Nat} (h : m ≤ n) (c : Code) : c.wraps m ≤ c.wraps n := by
  unfold wraps
  split
  · rw [if_pos (by omega)]
  · exact Nat.zero_le _

theorem wraps_eq_zero {floor : Nat} {c : Code} (h : floor ≤ c.level) : c.wraps floor = 0 :=
  if_neg (Nat.not_lt_of_le h)

theorem openings_le_of_le {m n count : Nat} {c : Code} (h : c.openings + c.wraps n ≤ count)
    (hmn : m ≤ n) : c.openings + c.wraps m ≤ count :=
  Nat.le_trans (Nat.add_le_add_left (wraps_mono hmn c) _) h

theorem wrapsBeforeDot_eq_true {c : Code} (h : c.wrapsBeforeDot = true) :
    (∃ d, c = .number d) ∨ c.wraps Level.access = 1 := by
  unfold wrapsBeforeDot at h
  split at h
  · exact .inl ⟨_, rfl⟩
  · exact .inr (if_pos (of_decide_eq_true h))

/-! ## What a derivation has to have -/

/-- The level that a place of the category asks for. -/
def floor : Category → Nat
  | .expression => Level.conditional
  | .chain tiers => Level.negation - tiers.length
  | .access => Level.access
  | .atom => Level.atom

/-- The tiers of a chain are the last ones of all tiers. -/
def IsProper : Category → Prop
  | .chain tiers => tiers <:+ Script.tiers
  | _ => True

/-- The levels of the printer are in the order of the tiers, and there are no other tiers. -/
theorem level_eq_floor {op : Op} {ops : List Op} {tighter : List (List Op)}
    (h : (ops :: tighter) <:+ Script.tiers) (hop : op ∈ ops) :
    op.level = floor (.chain (ops :: tighter)) ∧ op.level + 1 = floor (.chain tighter) := by
  have hall : ∀ ts ∈ Script.tiers.tails, ∀ op ∈ ts.headD [],
      op.level = Level.negation - ts.length ∧ op.level + 1 = Level.negation - ts.tail.length := by
    decide
  exact hall _ ((List.mem_tails _ _).mpr h) op hop

theorem eq_digits_or_opening {K : Category} {ls : List Lexeme} {c : Code} (h : Derives K ls c)
    {d : Text} (hc : c = .number d) : ls = [.digits d] ∨ .opening ∈ ls := by
  induction h with
  | number =>
    cases hc
    exact .inl rfl
  | parentheses => exact .inr (by simp)
  | ofAtom _ ih | ofAccess _ ih | ofTighter _ ih | ofChain _ ih => exact ih hc
  | _ => cases hc

/-- The arguments of a call have their parentheses each for itself. -/
theorem openingsIn_le_count {xs : List (List Lexeme × Code)}
    (h : ∀ x ∈ xs, x.1.IsChain Lexeme.Apart →
      x.2.openings + x.2.wraps Level.conditional ≤ x.1.count .opening)
    (hapart : ([.comma].intercalate (xs.map Prod.fst)).IsChain Lexeme.Apart) :
    openingsIn (xs.map Prod.snd) ≤ ([.comma].intercalate (xs.map Prod.fst)).count .opening := by
  induction xs with
  | nil => exact Nat.zero_le _
  | cons x xs ih =>
    obtain ⟨hx, hxs⟩ := List.forall_mem_cons.mp h
    cases xs with
    | nil =>
      have hcut : [.comma].intercalate ([x].map Prod.fst) = x.1 := by simp
      rw [hcut] at hapart ⊢
      exact hx hapart
    | cons y ys =>
      have hcut : [.comma].intercalate ((x :: y :: ys).map Prod.fst) =
          x.1 ++ .comma :: [.comma].intercalate ((y :: ys).map Prod.fst) := by
        simp [List.intercalate_cons_cons]
      rw [hcut] at hapart ⊢
      have hfirst := hx hapart.left_of_append
      have hothers := ih hxs (List.isChain_cons.mp hapart.right_of_append).2
      rw [List.count_append, List.count_cons_of_ne (by simp), List.map_cons, openingsIn]
      omega

/-- **Code cannot be derived with fewer parentheses than it needs.** -/
theorem openings_le_count {K : Category} {ls : List Lexeme} {c : Code} (h : Derives K ls c)
    (hK : IsProper K) (hapart : ls.IsChain Lexeme.Apart) :
    c.openings + c.wraps (floor K) ≤ ls.count .opening := by
  induction h with
  | string | number | true | false | name => exact Nat.zero_le _
  | @parentheses ls c _ ih =>
    -- the pair itself makes up for any level
    have hinner := ih trivial (List.isChain_cons.mp hapart.left_of_append).2
    have hone : c.wraps (floor .atom) ≤ 1 := by
      unfold wraps
      split <;> omega
    rw [List.cons_append, List.count_cons_self, List.count_append]
    omega
  | ofAtom _ ih => exact openings_le_of_le (ih trivial hapart) (by decide)
  | @property ls c n h ih =>
    have hobject := ih trivial hapart.left_of_append
    have hlevel : (Code.property c n).wraps (floor .access) = 0 := wraps_eq_zero (Nat.le_refl _)
    have hcount : List.count Lexeme.opening (ls ++ [.dot, .word n]) = ls.count .opening := by simp
    rw [openings, hlevel, hcount]
    split
    · rename_i hwraps
      rcases wrapsBeforeDot_eq_true hwraps with ⟨d, rfl⟩ | hone
      · rcases eq_digits_or_opening h rfl with rfl | hmem
        · exact absurd rfl ((List.isChain_cons.mp hapart).1 .dot rfl d rfl)
        · exact List.count_pos_iff.mpr hmem
      · rw [← hone]
        exact hobject
    · exact Nat.le_trans (Nat.le_add_right _ _) hobject
  | @call n ns xs hn hxs ih =>
    have hlevel : (call (Script.dottedName n ns) (xs.map Prod.snd)).wraps (floor .access) = 0 :=
      wraps_eq_zero (Nat.le_refl _)
    have hinner := (List.isChain_cons.mp hapart.left_of_append.right_of_append).2
    have harguments := openingsIn_le_count (fun x hx hx' ↦ ih x hx trivial hx') hinner
    rw [openings, hlevel, List.count_append, List.count_append, List.count_cons_self]
    omega
  | ofAccess _ ih => exact openings_le_of_le (ih trivial hapart) (by decide)
  | @not ls c _ ih =>
    have hlevel : (Code.not c).wraps (floor (.chain [])) = 0 := wraps_eq_zero (Nat.le_refl _)
    rw [openings, hlevel, List.count_cons_of_ne (by simp)]
    exact ih hK (List.isChain_cons.mp hapart).2
  | @ofTighter ops tighter ls c _ ih =>
    have htighter : tighter <:+ Script.tiers := (List.suffix_cons ops tighter).trans hK
    refine openings_le_of_le (ih htighter hapart) ?_
    simp only [floor, List.length_cons]
    omega
  | @binary op ops tighter ls ms c d hop _ _ ihc ihd =>
    obtain ⟨hloose, htight⟩ := level_eq_floor hK hop
    have htighter : tighter <:+ Script.tiers := (List.suffix_cons ops tighter).trans hK
    have hleft := ihc hK hapart.left_of_append
    have hright := ihd htighter (List.isChain_cons.mp hapart.right_of_append).2
    have hlevel : (Code.binary op c d).wraps (floor (.chain (ops :: tighter))) = 0 :=
      wraps_eq_zero (Nat.le_of_eq hloose.symm)
    rw [openings, hlevel, htight, hloose, List.count_append, List.count_cons_of_ne (by simp)]
    omega
  | ofChain _ ih => exact openings_le_of_le (ih (List.suffix_refl _) hapart) (by decide)
  | @conditional ls ms ns c d e _ _ _ ihc ihd ihe =>
    have hlevel : (Code.conditional c d e).wraps (floor .expression) = 0 :=
      wraps_eq_zero (Nat.le_refl _)
    have hbranches := (List.isChain_cons.mp hapart.left_of_append.right_of_append).2
    have htest : c.openings + c.wraps Level.disjunction ≤ ls.count .opening :=
      ihc (List.suffix_refl _) hapart.left_of_append.left_of_append
    have hconsequent : d.openings + d.wraps Level.conditional ≤ ms.count .opening :=
      ihd trivial hbranches
    have halternate : e.openings + e.wraps Level.conditional ≤ ns.count .opening :=
      ihe trivial (List.isChain_cons.mp hapart.right_of_append).2
    rw [openings, hlevel, List.count_append, List.count_append, List.count_cons_of_ne (by simp),
      List.count_cons_of_ne (by simp)]
    omega

/-! ## Printed texts in lexemes

What directly follows a lexeme in a printed text is more than the grammar asks for, and it is what
makes it possible to take parentheses out of the text. -/

/-- Whether a dot may stand directly behind the lexeme. -/
def admitsDot : Lexeme → Bool
  | .digits _ | .opening => false
  | _ => true

/-- The text is cut into the lexemes. Behind white space there is neither a dot nor a parenthesis
that closes, and behind digits or a parenthesis that opens there is no dot. -/
inductive SpellsNeatly : Text → List Lexeme → Prop where
  | nil : SpellsNeatly [] []
  | blank {c s ls} : c.isWhitespace = true → s.head? ≠ some '.' ∧ s.head? ≠ some ')' →
      SpellsNeatly s ls → SpellsNeatly (c :: s) ls
  | lexeme {s l r ls} : first? s = some (l, r) → (r.head? = some '.' → admitsDot l = true) →
      SpellsNeatly r ls → SpellsNeatly s (l :: ls)

/-- Neighbours in the outline of a printed text. -/
def Neighbours (x y : Char) : Prop :=
  (x.isWhitespace = true → y ≠ '.' ∧ y ≠ ')') ∧ (x = '(' → y ≠ '.')

theorem neighbours_of_ink {x : Char} (hwhite : x.isWhitespace = false) (hopening : x ≠ '(')
    (y : Char) : Neighbours x y :=
  ⟨fun h ↦ by simp [hwhite] at h, fun h ↦ absurd h hopening⟩

theorem SpellsNeatly.strictly {s : Text} {ls : List Lexeme} (h : SpellsNeatly s ls) :
    SpellsStrictly s ls := by
  induction h with
  | nil => exact .nil
  | blank hc _ _ ih => exact .blank hc ih
  | lexeme hl hdot _ ih =>
    refine .lexeme hl (fun d hd hr ↦ ?_) ih
    subst hd
    cases hdot hr

theorem isChain_append_of_plain {l : Lexeme} {w t : Text} (hw : l.Plain w)
    (hdot : l = .opening → t.head? ≠ some '.') (ht : t.IsChain Neighbours) :
    (w ++ t).IsChain Neighbours := by
  rcases hw.opening with ⟨hl, rfl⟩ | ⟨-, hnot⟩
  · refine List.isChain_cons.mpr ⟨fun y hy ↦ ⟨nofun, fun _ ↦ ?_⟩, ht⟩
    rintro rfl
    exact hdot hl hy
  · have hink : ∀ x ∈ w, ∀ y, Neighbours x y := fun x hx ↦
      neighbours_of_ink (hw.white x hx) fun h ↦ hnot (h ▸ hx)
    clear hw hnot
    induction w with
    | nil => exact ht
    | cons x w ih =>
      obtain ⟨hx, hw⟩ := List.forall_mem_cons.mp hink
      exact List.isChain_cons.mpr ⟨fun y _ ↦ hx y, ih hw⟩

theorem SpellsNeatly.exists_outline {s : Text} {ls : List Lexeme} (h : SpellsNeatly s ls) :
    ∃ t, Outline s t ∧ t.IsChain Neighbours := by
  induction h with
  | nil => exact ⟨[], .nil, .nil⟩
  | @blank c s ls hc hhead _ ih =>
    obtain ⟨t, hs, ht⟩ := ih
    rw [← hs.head?_eq] at hhead
    have hquote : c ≠ '"' := by rintro rfl; cases hc
    refine ⟨c :: t, .char hquote hs, List.isChain_cons.mpr ⟨fun y hy ↦ ⟨fun _ ↦ ?_, ?_⟩, ht⟩⟩
    · rw [Option.mem_def] at hy
      simpa [hy] using hhead
    · rintro rfl
      cases hc
  | @lexeme s l r ls hl hdot _ ih =>
    obtain ⟨t, hr, ht⟩ := ih
    rcases Script.first?_cases hl with ⟨v, x, rfl, hv, rfl⟩ | ⟨w, rfl, hw⟩
    · refine ⟨'"' :: t, .string hv hr, List.isChain_cons.mpr ⟨fun y _ ↦ ?_, ht⟩⟩
      exact neighbours_of_ink rfl (by decide) y
    · refine ⟨w ++ t, (Outline.of_notMem hw.quote).append hr, isChain_append_of_plain hw ?_ ht⟩
      rintro rfl hhead
      cases hdot (hr.head?_eq ▸ hhead)

/-! ## Printed parts -/

/-- The text has lexemes among which `count` parentheses open, before anything that does not go on
with a name, and before a dot if `dotted` holds. It starts as an operand does. -/
structure PrintsNeatly (count : Nat) (dotted : Prop) (s : Text) : Prop where
  opens : ∃ x t, s = x :: t ∧ x ≠ '=' ∧ x ≠ '.' ∧ x ≠ ')'
  spells : ∃ ls, List.count Lexeme.opening ls = count ∧
    ∀ {r ms}, r.Stops isNameChar → (r.head? = some '.' → dotted) → SpellsNeatly r ms →
      SpellsNeatly (s ++ r) (ls ++ ms)

namespace PrintsNeatly

variable {k m n : Nat} {p q : Prop} {s t u : Text}

theorem mono (h : PrintsNeatly n p s) (hqp : q → p) : PrintsNeatly n q s := by
  obtain ⟨hopens, ls, hls, hspells⟩ := h
  exact ⟨hopens, ls, hls, fun hr hdot hms ↦ hspells hr (fun h ↦ hqp (hdot h)) hms⟩

theorem head?_ne (h : PrintsNeatly n p s) (r : Text) :
    (s ++ r).head? ≠ some '=' ∧ (s ++ r).head? ≠ some '.' ∧ (s ++ r).head? ≠ some ')' := by
  obtain ⟨⟨x, t, rfl, hne⟩, -⟩ := h
  simpa using hne

theorem parenthesize (h : PrintsNeatly n p s) :
    PrintsNeatly (n + 1) True ('(' :: s ++ [')']) := by
  obtain ⟨ls, hls, hspells⟩ := h.spells
  refine ⟨⟨_, _, rfl, by decide⟩, .opening :: ls ++ [.closing], by simp [hls],
    fun {r ms} _ _ hms ↦ ?_⟩
  have hclosing : SpellsNeatly (')' :: r) (.closing :: ms) := .lexeme rfl (fun _ ↦ rfl) hms
  have hinner := hspells (by simp [Text.Stops, isNameChar]) (by simp) hclosing
  have hopening := SpellsNeatly.lexeme (l := .opening) (s := '(' :: _) rfl
    (fun hdot ↦ absurd hdot (h.head?_ne _).2.1) hinner
  simpa using hopening

theorem string (v : Text) : PrintsNeatly 0 True (quote v) :=
  ⟨⟨_, _, rfl, by decide⟩, [.string v], rfl, fun _ _ hms ↦
    .lexeme (first?_quote v _) (fun _ ↦ rfl) hms⟩

theorem ne_of_isNameChar {x : Char} (hx : isNameChar x = true) :
    x ≠ '=' ∧ x ≠ '.' ∧ x ≠ ')' := by
  refine ⟨?_, ?_, ?_⟩ <;> rintro rfl <;> cases hx

theorem number {d : Text} (hd : d.isNumeral = true) : PrintsNeatly 0 False d := by
  obtain ⟨x, t, hcons, hx, -⟩ := Text.exists_cons_of_isNumeral hd
  refine ⟨⟨x, t, hcons, ne_of_isNameChar (Text.isNameChar_of_isDigit hx)⟩, [.digits d], rfl,
    fun hr hdot hms ↦ ?_⟩
  exact .lexeme (Script.first?_digits hd (hr.mono fun _ ↦ Text.isNameChar_of_isDigit))
    (fun h ↦ (hdot h).elim) hms

theorem word {w : Text} (hw : w.isName = true) : PrintsNeatly 0 True w := by
  obtain ⟨x, t, hcons, hx, -⟩ := Text.exists_cons_of_isName hw
  refine ⟨⟨x, t, hcons, ne_of_isNameChar (Text.isNameChar_of_isAlpha hx)⟩, [.word w], rfl,
    fun hr _ hms ↦ ?_⟩
  exact .lexeme (Script.first?_word hw hr) (fun _ ↦ rfl) hms

theorem property (h : PrintsNeatly n True s) {w : Text} (hw : w.isName = true) :
    PrintsNeatly n True (s ++ '.' :: w) := by
  obtain ⟨⟨x, t, rfl, hx⟩, ls, hls, hspells⟩ := h
  refine ⟨⟨x, _, rfl, hx⟩, ls ++ [.dot, .word w], by simp [hls], fun {r ms} hr _ hms ↦ ?_⟩
  have hname : SpellsNeatly (w ++ r) (.word w :: ms) :=
    .lexeme (Script.first?_word hw hr) (fun _ ↦ rfl) hms
  have hdot : SpellsNeatly ('.' :: (w ++ r)) (.dot :: .word w :: ms) :=
    .lexeme rfl (fun _ ↦ rfl) hname
  simpa using hspells (by simp [Text.Stops, isNameChar]) (fun _ ↦ trivial) hdot

theorem not (h : PrintsNeatly n p s) : PrintsNeatly n p ('!' :: s) := by
  obtain ⟨ls, hls, hspells⟩ := h.spells
  refine ⟨⟨'!', _, rfl, by decide⟩, .bang :: ls, by simp [hls], fun {r ms} hr hdot hms ↦ ?_⟩
  exact .lexeme (Script.first?_bang (h.head?_ne r).1) (fun _ ↦ rfl) (hspells hr hdot hms)

theorem sign {l : Lexeme} {w : Text} (hl : ∀ r, first? (w ++ ' ' :: r) = some (l, ' ' :: r))
    (hw : ∀ r : Text, (w ++ r).head? ≠ some '.' ∧ (w ++ r).head? ≠ some ')')
    (ht : PrintsNeatly n p t) {r : Text} {ls : List Lexeme} (hls : SpellsNeatly (t ++ r) ls) :
    SpellsNeatly (' ' :: w ++ ' ' :: (t ++ r)) (l :: ls) :=
  .blank rfl (hw _) (.lexeme (hl _) (by simp) (.blank rfl (ht.head?_ne r).2 hls))

theorem binary (hs : PrintsNeatly m p s) (ht : PrintsNeatly n q t) (op : Op) :
    PrintsNeatly (m + n) q (s ++ (' ' :: op.symbol.toList ++ [' ']) ++ t) := by
  obtain ⟨⟨x, s, rfl, hx⟩, ls, hls, hleft⟩ := hs
  obtain ⟨ms, hms, hright⟩ := ht.spells
  refine ⟨⟨x, _, rfl, hx⟩, ls ++ .op op :: ms, by simp [hls, hms], fun {r ns} hr hdot hns ↦ ?_⟩
  have hop := sign (Script.first?_op op) (by cases op <;> simp [Op.symbol]) ht (hright hr hdot hns)
  simpa using hleft (by simp [Text.Stops, isNameChar]) (by simp) hop

theorem conditional (hs : PrintsNeatly k p s) (ht : PrintsNeatly m p t) (hu : PrintsNeatly n q u) :
    PrintsNeatly (k + m + n) q (s ++ " ? ".toList ++ t ++ " : ".toList ++ u) := by
  obtain ⟨⟨x, s, rfl, hx⟩, ls, hls, htest⟩ := hs
  obtain ⟨ms, hms, hconsequent⟩ := ht.spells
  obtain ⟨ns, hns, halternate⟩ := hu.spells
  refine ⟨⟨x, _, rfl, hx⟩, ls ++ .question :: ms ++ .colon :: ns,
    by simp [hls, hms, hns, Nat.add_assoc], fun {r os} hr hdot hos ↦ ?_⟩
  have hcolon := sign (w := [':']) (fun _ ↦ rfl) (by simp) hu (halternate hr hdot hos)
  have hquestion := sign (w := ['?']) (fun _ ↦ rfl) (by simp) ht
    (hconsequent (by simp [Text.Stops, isNameChar]) (by simp) hcolon)
  simpa using htest (by simp [Text.Stops, isNameChar]) (by simp) hquestion

theorem dottedName {w : Text} {ws : List Text} (hws : ∀ v ∈ w :: ws, v.isName = true) {r : Text}
    {ls : List Lexeme} (hr : r.Stops isNameChar) (hls : SpellsNeatly r ls) :
    SpellsNeatly (Script.dottedName w ws ++ r) (.word w :: Script.dottedLexemes ws ++ ls) := by
  induction ws generalizing w with
  | nil =>
    have hhead := SpellsNeatly.lexeme (Script.first?_word (hws w (by simp)) hr) (fun _ ↦ rfl) hls
    simpa [Script.dottedName, Script.dottedLexemes] using hhead
  | cons v ws ih =>
    have htail := ih fun x hx ↦ hws x (List.mem_cons_of_mem _ hx)
    have hdot : SpellsNeatly ('.' :: (Script.dottedName v ws ++ r))
        (.dot :: .word v :: Script.dottedLexemes ws ++ ls) :=
      .lexeme rfl (fun _ ↦ rfl) htail
    have hstops : Text.Stops isNameChar ('.' :: (Script.dottedName v ws ++ r)) := by
      simp [Text.Stops, isNameChar]
    have hhead := SpellsNeatly.lexeme (Script.first?_word (hws w (by simp)) hstops)
      (fun _ ↦ rfl) hdot
    simpa [Script.dottedName, Script.dottedLexemes] using hhead

theorem arguments {cs : List Code} {f : Code → Text}
    (hcs : ∀ c ∈ cs, PrintsNeatly (c.openings + c.wraps Level.conditional) False (f c)) :
    ∃ ls, List.count Lexeme.opening ls = openingsIn cs ∧
      ∀ {r ms}, r.Stops isNameChar → r.head? ≠ some '.' → SpellsNeatly r ms →
        (", ".toList.intercalate (cs.map f) ++ r).head? ≠ some '.' ∧
          SpellsNeatly (", ".toList.intercalate (cs.map f) ++ r) (ls ++ ms) := by
  induction cs with
  | nil => exact ⟨[], rfl, fun _ hdot hms ↦ ⟨hdot, hms⟩⟩
  | cons c cs ih =>
    obtain ⟨hc, hcs⟩ := List.forall_mem_cons.mp hcs
    obtain ⟨ls, hls, hfirst⟩ := hc.spells
    obtain ⟨ms, hms, hothers⟩ := ih hcs
    cases cs with
    | nil =>
      refine ⟨ls, by rw [hls]; rfl, fun {r os} hr hdot hos ↦ ?_⟩
      have hcut : ", ".toList.intercalate ([c].map f) ++ r = f c ++ r := by simp
      rw [hcut]
      exact ⟨(hc.head?_ne r).2.1, hfirst hr (fun h ↦ absurd h hdot) hos⟩
    | cons d ds =>
      refine ⟨ls ++ .comma :: ms, ?_, fun {r os} hr hdot hos ↦ ?_⟩
      · rw [List.count_append, List.count_cons_of_ne (by simp), hls, hms]
        rfl
      · have hcut : ", ".toList.intercalate ((c :: d :: ds).map f) ++ r =
            f c ++ ',' :: ' ' :: (", ".toList.intercalate ((d :: ds).map f) ++ r) := by simp
        rw [hcut, List.append_assoc, List.cons_append]
        refine ⟨(hc.head?_ne _).2.1, hfirst (by simp [Text.Stops, isNameChar]) (by simp) ?_⟩
        obtain ⟨tail, htail⟩ : ∃ tail, ", ".toList.intercalate ((d :: ds).map f) = f d ++ tail := by
          cases ds <;> simp
        have hhead := ((hcs d List.mem_cons_self).head?_ne (tail ++ r)).2
        rw [← List.append_assoc, ← htail] at hhead
        exact .lexeme rfl (by simp) (.blank rfl hhead (hothers hr hdot hos).2)

theorem call {w : Text} {ws : List Text} {cs : List Code} {f : Code → Text}
    (hws : ∀ v ∈ w :: ws, v.isName = true)
    (hcs : ∀ c ∈ cs, PrintsNeatly (c.openings + c.wraps Level.conditional) False (f c)) :
    PrintsNeatly (1 + openingsIn cs) True
      (Script.dottedName w ws ++ '(' :: ", ".toList.intercalate (cs.map f) ++ [')']) := by
  obtain ⟨x, t, rfl, hx, -⟩ := Text.exists_cons_of_isName (hws w (by simp))
  obtain ⟨ls, hls, harguments⟩ := arguments hcs
  refine ⟨⟨x, _, rfl, ne_of_isNameChar (Text.isNameChar_of_isAlpha hx)⟩,
    .word (x :: t) :: Script.dottedLexemes ws ++ .opening :: ls ++ [.closing], ?_,
    fun {r ms} _ _ hms ↦ ?_⟩
  · have hname : List.count Lexeme.opening (Script.dottedLexemes ws) = 0 :=
      List.count_eq_zero_of_not_mem (by simp [Script.dottedLexemes])
    simp [hname, hls, Nat.add_comm]
  · have hclosing : SpellsNeatly (')' :: r) (.closing :: ms) := .lexeme rfl (fun _ ↦ rfl) hms
    obtain ⟨hhead, hinner⟩ := harguments (by simp [Text.Stops, isNameChar]) (by simp) hclosing
    have hopening := SpellsNeatly.lexeme (l := .opening) (s := '(' :: _) rfl
      (fun hdot ↦ absurd hdot hhead) hinner
    simpa using dottedName hws (by simp [Text.Stops, isNameChar]) hopening

end PrintsNeatly

/-! ## Printed code -/

theorem printsNeatly_atLeast {p : Prop} {c : Code} (floor : Nat)
    (h : PrintsNeatly c.openings p c.source) :
    PrintsNeatly (c.openings + c.wraps floor) False (atLeast floor c c.write).toText := by
  unfold atLeast wraps
  split
  · rw [toText_parenthesize]
    exact h.parenthesize.mono False.elim
  · exact h.mono False.elim

theorem printsNeatly_beforeDot {c : Code}
    (h : PrintsNeatly c.openings (c.wrapsBeforeDot = false) c.source) :
    PrintsNeatly (c.openings + if c.wrapsBeforeDot then 1 else 0) True
      (beforeDot (m := Id) c c.write).run.toText := by
  have hplace : (beforeDot (m := Id) c c.write).run =
      if c.wrapsBeforeDot then Code.parenthesize c.write else c.write := by
    cases c <;> simp only [wrapsBeforeDot, if_true, decide_eq_true_eq] <;> rfl
  rw [hplace]
  split
  · rw [toText_parenthesize]
    exact h.parenthesize
  · rename_i hdot
    exact h.mono fun _ ↦ Bool.eq_false_iff.mpr hdot

/-- **Printed code has the parentheses that it needs, and no more.** -/
theorem printsNeatly_source {c : Code} (hc : c.Printable) :
    PrintsNeatly c.openings (c.wrapsBeforeDot = false) c.source := by
  induction hc with
  | string =>
    rw [source_string]
    exact (PrintsNeatly.string _).mono fun _ ↦ trivial
  | number hd =>
    rw [source_number]
    exact (PrintsNeatly.number hd).mono nofun
  | @boolean b =>
    rw [source_boolean]
    cases b
    · exact (PrintsNeatly.word rfl).mono fun _ ↦ trivial
    · exact (PrintsNeatly.word rfl).mono fun _ ↦ trivial
  | name hn =>
    rw [source_name]
    exact (PrintsNeatly.word hn).mono fun _ ↦ trivial
  | property _ hn ih =>
    rw [source_property]
    exact ((printsNeatly_beforeDot ih).property hn).mono fun _ ↦ trivial
  | @binary op c d _ _ ihc ihd =>
    rw [source_binary]
    refine ((printsNeatly_atLeast _ ihc).binary (printsNeatly_atLeast _ ihd) op).mono ?_
    cases op <;> nofun
  | not _ ih =>
    rw [source_not]
    exact (printsNeatly_atLeast _ ih).not.mono nofun
  | conditional _ _ _ ihc ihd ihe =>
    rw [source_conditional]
    exact ((printsNeatly_atLeast _ ihc).conditional (printsNeatly_atLeast _ ihd)
      (printsNeatly_atLeast _ ihe)).mono nofun
  | call hns _ _ ih =>
    rw [source_call]
    exact (PrintsNeatly.call hns fun c hc ↦ printsNeatly_atLeast _ (ih c hc)).mono fun _ ↦ trivial

/-- Source text is read strictly, and its outline shows the parentheses that the code needs. -/
theorem exists_outline_source {c : Code} (hc : c.Printable) :
    ReadsStrictly c.source c ∧
      ∃ t, Outline c.source t ∧ t.IsChain Neighbours ∧ t.count '(' = c.openings := by
  obtain ⟨ls, hls, hspells⟩ := (printsNeatly_source hc).spells
  have hsource : SpellsNeatly c.source ls := by
    simpa using hspells (r := []) (by simp [Text.Stops]) (by simp) .nil
  obtain ⟨t, ht, hchain⟩ := hsource.exists_outline
  obtain ⟨ms, hms, hder⟩ := reads_source hc
  obtain rfl := hms.unique hsource.strictly.spells
  exact ⟨⟨ms, hsource.strictly, hder⟩, t, ht, hchain, (ht.count_opening hms).symm.trans hls⟩

/-- Without a pair of parentheses there is still no white space before a dot. -/
theorem isChain_without_pair {t u v : Text} (hu : u ≠ [])
    (h : (t ++ '(' :: (u ++ ')' :: v)).IsChain Neighbours) :
    (t ++ (u ++ v)).IsChain Script.DotBehindInk := by
  obtain ⟨ht, hrest, -⟩ := List.isChain_append.mp h
  obtain ⟨hopening, hrest⟩ := List.isChain_cons.mp hrest
  obtain ⟨huchain, hrest, hclosing⟩ := List.isChain_append.mp hrest
  have hv := (List.isChain_cons.mp hrest).2
  have hink : ∀ ⦃x y⦄, Neighbours x y → Script.DotBehindInk x y := fun x y hxy hx ↦ (hxy.1 hx).1
  refine List.isChain_append.mpr ⟨ht.imp hink, List.isChain_append.mpr
    ⟨huchain.imp hink, hv.imp hink, fun x hx y _ hwhite ↦ ?_⟩, fun x _ y hy _ ↦ ?_⟩
  · -- no white space stands before the parenthesis that closes
    exact absurd rfl ((hclosing x hx ')' rfl).1 hwhite).2
  · -- and no dot behind the one that opens
    rw [List.head?_append_of_ne_nil _ hu] at hy
    have hhead : y ∈ (u ++ ')' :: v).head? := by rwa [List.head?_append_of_ne_nil _ hu]
    exact (hopening y hhead).2 rfl

end Code

/-- **No parentheses can be spared.** Source text is read as its code. Take any pair of parentheses
in it that are not part of a string, with something between them, those around the arguments of a
call among them: without the pair the text cannot be read, or it is read as other code. -/
theorem parentheses_needed {c : Code} (hc : c.Printable) :
    ReadsStrictly c.source c ∧
      ∀ before inside behind : Text, c.source = before ++ '(' :: inside ++ ')' :: behind →
        Whole before → Whole inside → inside ≠ [] →
          ∀ d, ReadsStrictly (before ++ inside ++ behind) d → d ≠ c := by
  obtain ⟨hreads, t, ht, hchain, hcount⟩ := Code.exists_outline_source hc
  refine ⟨hreads, ?_⟩
  rintro before inside behind hsource ⟨u, hu⟩ ⟨v, hv⟩ hne d ⟨ls, hls, hder⟩ rfl
  -- the outline of the source text, cut at the two parentheses
  rw [hsource, List.append_assoc, List.cons_append] at ht
  obtain ⟨t₁, rfl, ht₁⟩ := ht.exists_of_append hu
  obtain ⟨t₂, rfl, ht₂⟩ := ht₁.exists_of_append (s := ['(']) (.of_notMem (by simp))
  obtain ⟨t₃, rfl, ht₃⟩ := ht₂.exists_of_append hv
  obtain ⟨w, rfl, hw⟩ := ht₃.exists_of_append (s := [')']) (.of_notMem (by simp))
  have hshort : Outline (before ++ inside ++ behind) (u ++ (v ++ w)) := by
    rw [List.append_assoc]
    exact hu.append (hv.append hw)
  have hvne : v ≠ [] := by
    rintro rfl
    cases hv
    exact hne rfl
  have hapart := hls.apart hshort (Code.isChain_without_pair hvne hchain)
  have hneeded := Code.openings_le_count hder trivial hapart
  rw [hshort.count_opening hls.spells, ← hcount] at hneeded
  simp only [List.count_append, List.count_cons_self, List.singleton_append] at hneeded
  rw [List.count_cons_of_ne (by simp)] at hneeded
  omega

/-- A negation, and a number with a property, beside a string that holds parentheses of its own:
`!("(x)" === (1).b)`. -/
theorem parentheses_needed_number :
    let c := Code.not (.binary .equal (.string "(x)".toList) (.property (.number ['1']) ['b']))
    c.Printable ∧ c.source = "!(\"(x)\" === (1).b)".toList ∧ ReadsStrictly c.source c ∧
      (∀ d, ReadsStrictly "!\"(x)\" === (1).b".toList d → d ≠ c) ∧
      ∀ d, ReadsStrictly "!(\"(x)\" === 1.b)".toList d → d ≠ c := by
  intro c
  have hc : c.Printable := .not (.binary .string (.property (.number rfl) rfl))
  have hsource : c.source = "!(\"(x)\" === (1).b)".toList := by decide +kernel
  have hstring : Outline "\"(x)\" === ".toList "\" === ".toList :=
    .string (v := "(x)".toList) (r := " === ".toList) rfl (.of_notMem (by decide))
  obtain ⟨hreads, hneeded⟩ := parentheses_needed hc
  refine ⟨hc, hsource, hreads, fun d hd ↦ ?_, fun d hd ↦ ?_⟩
  · exact hneeded "!".toList "\"(x)\" === (1).b".toList [] hsource ⟨_, .of_notMem (by decide)⟩
      ⟨_, hstring.append (r := "(1).b".toList) (.of_notMem (by decide))⟩ (by decide) d hd
  · exact hneeded "!(\"(x)\" === ".toList ['1'] ".b)".toList hsource
      ⟨_, Outline.append (s := "!(".toList) (.of_notMem (by decide)) hstring⟩
      ⟨_, .of_notMem (by decide)⟩ (by decide) d hd

end Interpolation
