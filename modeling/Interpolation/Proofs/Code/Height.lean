import Interpolation.Code.Node
import Interpolation.Code.Source
import Interpolation.Proofs.Stages
import Interpolation.Proofs.Template.Spelling
import Interpolation.Proofs.Token.Calls

/-!
# The height of compiled code

How high the tree of a template can get depends on three things. The depth limit bounds the levels
of every expression, but it does not count first operands and conditions, which are paths, nor the
properties of a path. A path adds its length to the levels once, since no operator stands below it.
And every item after the first puts one concatenation on top of the items before it.

Without a bound on the length of paths there is none on the height. That matters because the
functions that print code call themselves once for every part of a tree. `Framed` runs them with a
bound on the number of calls that are open at the same time: with fewer frames than the tree is high
the JSON value is not returned, and neither is the source text, but for a number before a dot, which
is written without a call.
-/

namespace Interpolation

/-! ## Height -/

namespace Code

mutual

/-- The height of a tree. A leaf has height one. -/
def height : Code → Nat
  | .string _ | .number _ | .boolean _ | .name _ => 1
  | .property object _ => height object + 1
  | .binary _ left right => max (height left) (height right) + 1
  | .not operand => height operand + 1
  | .conditional test consequent alternate =>
    max (height test) (max (height consequent) (height alternate)) + 1
  | .call _ arguments => heightIn arguments + 1

/-- The height of the highest of several trees. -/
def heightIn : List Code → Nat
  | [] => 0
  | c :: cs => max (height c) (heightIn cs)

end

theorem height_foldl_property (object : Code) (names : List Text) :
    (names.foldl property object).height = object.height + names.length := by
  induction names generalizing object with
  | nil => rfl
  | cons n names ih =>
    rw [List.foldl_cons, ih, height, List.length_cons, Nat.add_assoc, Nat.add_comm 1]

end Code

/-! ## Calls that are open at the same time -/

/-- A computation that is told how many calls it may have open at the same time, and returns nothing
if it needs more. -/
abbrev Framed (α : Type) : Type := ReaderT Nat Option α

namespace Framed

variable {α β : Type} {n k : Nat} {a : α} {b : β}

/-- A call takes a frame. -/
def call (x : Framed α) : Framed α := fun
  | 0 => none
  | frames + 1 => x frames

/-- The computation returns `a` with `n` frames and with more, and not with fewer. -/
def Needs (x : Framed α) (n : Nat) (a : α) : Prop :=
  ∀ frames, x.run frames = if n ≤ frames then some a else none

namespace Needs

theorem pure (a : α) : Needs (pure a) 0 a := fun _ ↦ rfl

theorem call {x : Framed α} (h : Needs x n a) : Needs x.call (n + 1) a := by
  intro frames
  cases frames with
  | zero => rfl
  | succ frames =>
    refine (h frames).trans ?_
    simp only [Nat.succ_le_succ_iff]

/-- The second computation starts when the calls of the first are over, so it can use their frames.
-/
theorem bind {x : Framed α} {f : α → Framed β} (hx : Needs x n a) (hf : Needs (f a) k b) :
    Needs (x >>= f) (max n k) b := by
  intro frames
  rw [ReaderT.run_bind, hx]
  split
  · rename_i hn
    refine (hf frames).trans ?_
    simp only [Nat.max_le, hn, true_and]
  · rename_i hn
    exact (if_neg fun h ↦ hn (Nat.max_le.mp h).1).symm

theorem map {x : Framed α} (f : α → β) (h : Needs x n a) :
    Needs (x >>= fun y ↦ Pure.pure (f y)) n (f a) := by
  have hbind := h.bind (f := fun y ↦ Pure.pure (f y)) (.pure (f a))
  rwa [Nat.max_zero] at hbind

end Needs

end Framed

/-! ## The functions that print code -/

namespace Code

open Framed (Needs)

/-- The source text, if no more than the given number of calls may be open. -/
def writeWithin (frames : Nat) (c : Code) : Option Text.Builder :=
  (c.writeBy Framed.call).call.run frames

/-- The JSON value, if no more than the given number of calls may be open. -/
def toJsonWithin (frames : Nat) (c : Code) : Option Json :=
  (c.toJsonBy Framed.call).call.run frames

mutual

/-- The number of calls that are open at the same time while code is written. Only a number before a
dot makes it differ from the height. -/
def writeDepth : Code → Nat
  | .string _ | .number _ | .boolean _ | .name _ | .property (.number _) _ => 1
  | .property object _ => writeDepth object + 1
  | .binary _ left right => max (writeDepth left) (writeDepth right) + 1
  | .not operand => writeDepth operand + 1
  | .conditional test consequent alternate =>
    max (writeDepth test) (max (writeDepth consequent) (writeDepth alternate)) + 1
  | .call _ arguments => writeDepthIn arguments + 1

def writeDepthIn : List Code → Nat
  | [] => 0
  | c :: cs => max (writeDepth c) (writeDepthIn cs)

end

mutual

theorem writeDepth_le_height : ∀ c : Code, c.writeDepth ≤ c.height ∧ c.height ≤ c.writeDepth + 1
  | .string _ | .number _ | .boolean _ | .name _ => ⟨Nat.le_refl 1, Nat.le_succ 1⟩
  | .property object _ => by
    have hobject := writeDepth_le_height object
    cases object with
    | number digits => exact ⟨Nat.le_succ 1, Nat.le_refl 2⟩
    | _ => exact ⟨Nat.succ_le_succ hobject.1, Nat.succ_le_succ hobject.2⟩
  | .binary _ left right => by
    have hleft := writeDepth_le_height left
    have hright := writeDepth_le_height right
    rw [height, writeDepth]
    omega
  | .not operand => by
    have hoperand := writeDepth_le_height operand
    exact ⟨Nat.succ_le_succ hoperand.1, Nat.succ_le_succ hoperand.2⟩
  | .conditional test consequent alternate => by
    have htest := writeDepth_le_height test
    have hconsequent := writeDepth_le_height consequent
    have halternate := writeDepth_le_height alternate
    rw [height, writeDepth]
    omega
  | .call _ arguments => by
    have harguments := writeDepthIn_le_heightIn arguments
    exact ⟨Nat.succ_le_succ harguments.1, Nat.succ_le_succ harguments.2⟩

theorem writeDepthIn_le_heightIn : ∀ cs : List Code,
    writeDepthIn cs ≤ heightIn cs ∧ heightIn cs ≤ writeDepthIn cs + 1
  | [] => ⟨Nat.le_refl 0, Nat.le_succ 0⟩
  | c :: cs => by
    have hc := writeDepth_le_height c
    have hcs := writeDepthIn_le_heightIn cs
    rw [heightIn, writeDepthIn]
    omega

end

-- In the proofs below, every bind of the printer is answered by `bind` or `map`, and every call by
-- `call`.

mutual

theorem needs_writeBy : ∀ c : Code, Needs (c.writeBy Framed.call).call c.writeDepth c.write
  | .string _ | .number _ | .boolean true | .boolean false | .name _ => (Needs.pure _).call
  | .property object _ => by
    have hobject := needs_writeBy object
    cases object with
    | number digits => exact (Needs.pure _).call
    | _ => exact ((hobject.map _).map _).call
  | .binary _ left right => ((needs_writeBy left).bind ((needs_writeBy right).map _)).call
  | .not operand => ((needs_writeBy operand).map _).call
  | .conditional test consequent alternate =>
    ((needs_writeBy test).bind ((needs_writeBy consequent).bind
      ((needs_writeBy alternate).map _))).call
  | .call _ arguments => ((needs_writeArgumentsBy arguments).map _).call

theorem needs_writeArgumentsBy : ∀ cs : List Code,
    Needs (writeArgumentsBy Framed.call cs) (writeDepthIn cs) (writeArgumentsBy (m := Id) id cs).run
  | [] => .pure _
  | c :: cs => (needs_writeBy c).bind ((needs_writeArgumentsBy cs).map _)

end

mutual

theorem needs_toJsonBy : ∀ c : Code, Needs (c.toJsonBy Framed.call).call c.height c.toJson
  | .string _ | .number _ | .boolean _ | .name _ => (Needs.pure _).call
  | .property object _ => ((needs_toJsonBy object).map _).call
  | .binary _ left right => ((needs_toJsonBy left).bind ((needs_toJsonBy right).map _)).call
  | .not operand => ((needs_toJsonBy operand).map _).call
  | .conditional test consequent alternate =>
    ((needs_toJsonBy test).bind ((needs_toJsonBy consequent).bind
      ((needs_toJsonBy alternate).map _))).call
  | .call _ arguments => ((needs_argumentsToJsonBy arguments).map _).call

theorem needs_argumentsToJsonBy : ∀ cs : List Code,
    Needs (argumentsToJsonBy Framed.call cs) (heightIn cs) (argumentsToJsonBy (m := Id) id cs).run
  | [] => .pure _
  | c :: cs => (needs_toJsonBy c).bind ((needs_argumentsToJsonBy cs).map _)

end

/-- With fewer frames than the tree is high, less the one that a number before a dot can save,
nothing is printed. -/
theorem within_eq_none {c : Code} {frames : Nat} (h : frames + 1 < c.height) :
    c.writeWithin frames = none ∧ c.toJsonWithin frames = none := by
  have hdepth := (writeDepth_le_height c).2
  constructor
  · exact (needs_writeBy c frames).trans (if_neg (by omega))
  · exact (needs_toJsonBy c frames).trans (if_neg (by omega))

end Code

/-! ## The height of the code of a template -/

/-- The number of properties of the longest path. -/
def Expr.longestPath : Expr → Nat
  | .path p => p.properties.length
  | .unary _ operand => operand.longestPath
  | .binary _ lhs rhs => max lhs.longestPath rhs.longestPath
  | .ternary condition consequent alternate =>
    max condition.longestPath (max consequent.longestPath alternate.longestPath)

def Item.longestPath : Item → Nat
  | .literal _ => 0
  | .embedded _ e => e.longestPath

def Template.longestPath (x : Template) : Nat := x.foldr (fun i n ↦ max i.longestPath n) 0

theorem Template.longestPath_le_iff {x : Template} {n : Nat} :
    Template.longestPath x ≤ n ↔ ∀ i ∈ x, i.longestPath ≤ n := by
  induction x with
  | nil => simp [longestPath]
  | cons i x ih =>
    rw [List.forall_mem_cons, ← ih]
    exact Nat.max_le

theorem Path.height_lower (p : Path) : p.lower.height = p.properties.length + 1 := by
  have hatom : p.atom.lower.height = 1 := by cases p.atom <;> rfl
  rw [lower, Code.height_foldl_property, hatom, Nat.add_comm]

theorem UnaryOp.height_lower {helper : Text} {op : UnaryOp} {operand c : Code}
    (h : op.lower helper operand = .ok c) : c.height = operand.height + 1 := by
  cases op with
  | minus => cases h
  | not =>
    cases h
    rfl
  | empty =>
    cases h
    rw [Code.height, Code.heightIn, Code.heightIn, Nat.max_zero]

/-- A path adds its properties once, as it stands below all operators. -/
theorem Expr.height_lower_le {helper : Text} {e : Expr} {c : Code} (h : e.lower helper = .ok c)
    (he : e.RightNested) : c.height ≤ e.nesting + e.longestPath := by
  induction e generalizing c with
  | path p =>
    cases h
    rw [p.height_lower, nesting, longestPath, Nat.add_comm]
  | unary op operand ih =>
    obtain ⟨d, hd, hc⟩ := lower_unary_eq_ok_iff.mp h
    have hoperand := ih hd he
    rw [UnaryOp.height_lower hc, nesting, longestPath]
    omega
  | binary op lhs rhs _ ih =>
    obtain ⟨p, rfl⟩ := isPath_iff.mp he.1
    obtain ⟨a, b, ha, hb, rfl⟩ := lower_binary_eq_ok_iff.mp h
    cases ha
    have hright := ih hb he.2
    -- the path is one higher than it is long, and the operand behind it has a level to pay for that
    have hpos := rhs.nesting_pos
    rw [Code.height, p.height_lower, nesting, longestPath, longestPath]
    omega
  | ternary condition consequent alternate _ ih₁ ih₂ =>
    obtain ⟨p, rfl⟩ := isPath_iff.mp he.1
    obtain ⟨a, b, d, ha, hb, hd, rfl⟩ := lower_ternary_eq_ok_iff.mp h
    cases ha
    have hconsequent := ih₁ hb he.2.1
    have halternate := ih₂ hd he.2.2
    have hpos := consequent.nesting_pos
    rw [Code.height, p.height_lower, nesting, longestPath, longestPath]
    omega

theorem Item.height_lower_le {helper : Text} {i : Item} {c : Code} (h : i.lower helper = .ok c)
    (hi : i.RightNested) : c.height ≤ max 1 i.nesting + i.longestPath := by
  cases i with
  | literal text =>
    cases h
    exact Nat.le_refl 1
  | embedded d e =>
    have hle := Expr.height_lower_le (e := e) h hi
    exact Nat.le_trans hle (Nat.add_le_add_right (Nat.le_max_right 1 _) _)

namespace Template

variable {helper : Text} {x : Template} {bound : Nat}

/-- Every item that is added to code makes it one higher at most, as long as the item is not higher
than the code may be. -/
theorem height_lowerFrom_le {before c : Code}
    (hx : ∀ i ∈ x, ∀ d, i.lower helper = .ok d → d.height ≤ bound) (hbefore : before.height ≤ bound)
    (h : lowerFrom helper before x = .ok c) : c.height ≤ bound + x.length := by
  induction x generalizing before bound with
  | nil =>
    cases h
    exact hbefore
  | cons i x ih =>
    obtain ⟨hi, hx⟩ := List.forall_mem_cons.mp hx
    obtain ⟨d, hd, h⟩ := lowerFrom_cons_eq_ok_iff.mp h
    -- the bound grows with the code, so the items that follow stay below it
    have hconcat : (before.concat d).height ≤ bound + 1 :=
      Nat.succ_le_succ (Nat.max_le.mpr ⟨hbefore, hi d hd⟩)
    have hle := ih (fun j hj d hd ↦ Nat.le_succ_of_le (hx j hj d hd)) hconcat h
    rw [List.length_cons]
    omega

theorem height_lower_le {c : Code} (hbound : 0 < bound)
    (hx : ∀ i ∈ x, ∀ d, i.lower helper = .ok d → d.height ≤ bound) (h : lower helper x = .ok c) :
    c.height ≤ bound + (x.length - 1) := by
  cases x with
  | nil =>
    cases h
    exact hbound
  | cons i x =>
    obtain ⟨hi, hx⟩ := List.forall_mem_cons.mp hx
    obtain ⟨d, hd, h⟩ := lower_cons_eq_ok_iff.mp h
    exact height_lowerFrom_le hx (hi d hd) h

end Template

theorem height_le_of_readTemplate {limit : Nat} {input helper : Text} {x : Template} {c : Code}
    (hx : readTemplate limit input = .ok x) (hc : Template.lower helper x = .ok c) :
    c.height ≤ max 1 limit + Template.longestPath x + (x.length - 1) := by
  obtain ⟨ts, -, hparse⟩ := readTemplate_eq_ok_iff.mp hx
  obtain ⟨-, hnested, hlimit⟩ := parse_eq_ok_iff.mp hparse
  have hpaths := Template.longestPath_le_iff.mp (Nat.le_refl (Template.longestPath x))
  refine Template.height_lower_le (by omega) (fun i hi d hd ↦ ?_) hc
  have hle := Item.height_lower_le hd (hnested i hi)
  have hnesting := hlimit i hi
  have hpath := hpaths i hi
  omega

/-! ## Long paths -/

/-- A name with as many properties as wanted. -/
def Path.long (n : Nat) : Path := ⟨.name ['a'], List.replicate n ['a']⟩

theorem Path.mem_signs_long {n : Nat} {sign : Sign} (h : sign ∈ (Path.long n).signs) :
    sign = .atom (.name ['a']) ∨ sign = .bare .dot := by
  rcases List.mem_cons.mp h with rfl | h
  · exact .inl rfl
  · obtain ⟨name, hname, hsign⟩ := List.mem_flatMap.mp h
    obtain rfl := List.eq_of_mem_replicate hname
    simpa [propertySigns, or_comm] using hsign

theorem exists_words {signs : List Sign} (h : ∀ sign ∈ signs, ∃ w, w ∈ sign.spellings) :
    ∃ words, List.Forall₂ (fun sign w ↦ w ∈ Sign.spellings sign) signs words := by
  induction signs with
  | nil => exact ⟨[], .nil⟩
  | cons sign signs ih =>
    obtain ⟨⟨w, hw⟩, hsigns⟩ := List.forall_mem_cons.mp h
    obtain ⟨words, hwords⟩ := ih hsigns
    exact ⟨w :: words, .cons hw hwords⟩

/-- A long path is read as one item that nests one level deep. -/
theorem exists_readTemplate_long (n : Nat) :
    ∃ input, ∀ limit, 1 ≤ limit →
      readTemplate limit input = .ok [.embedded .deferred (.path (.long n))] := by
  have hwritten : ∀ sign ∈ (Path.long n).signs, ∃ w, w ∈ sign.spellings := by
    intro sign hsign
    rcases Path.mem_signs_long hsign with rfl | rfl
    · exact ⟨['a'], List.mem_singleton_self _⟩
    · exact ⟨['.'], List.mem_singleton_self _⟩
  have hformed : ∀ sign ∈ (Path.long n).signs, sign.WellFormed := by
    intro sign hsign
    rcases Path.mem_signs_long hsign with rfl | rfl <;> decide
  obtain ⟨words, hwords⟩ := exists_words hwritten
  obtain ⟨ts, m, hrun, hsigns⟩ := run_embedded (e := .path (.long n)) ⟨words, hwords, rfl⟩ hformed
    .deferred [] 0 []
  refine ⟨_, fun limit hlimit ↦ readTemplate_eq_ok_iff.mpr
    ⟨_, Scanner.tokenize_of_run hrun rfl, parse_eq_ok_iff.mpr ⟨?_, ?_, ?_⟩⟩⟩
  · rw [hsigns, Template.signs_cons, Template.signs_nil, List.append_nil]
  · exact List.forall_mem_singleton.mpr trivial
  · exact List.forall_mem_singleton.mpr hlimit

/-- **What bounds the height of compiled code, and what does not.** The depth limit, the longest
path and the number of items bound it together, but the depth limit alone does not: a single item
that nests one level deep can be compiled to a tree as high as wanted. To make the JSON value of a
tree takes as many frames as it is high. To write it takes as many, or one fewer if nothing but a
number before a dot stands that deep. -/
theorem height_of_compile :
    (∀ o input c, compile o input = .ok c → ∃ x, readTemplate o.maxDepth input = .ok x ∧
      c.height ≤ max 1 o.maxDepth + Template.longestPath x + (x.length - 1)) ∧
    (∀ n, ∃ input, ∀ o : Options, 1 ≤ o.maxDepth → Text.byteSize input ≤ o.maxInputLen →
      ∃ i c, readTemplate o.maxDepth input = .ok [i] ∧ compile o input = .ok c ∧ n ≤ c.height ∧
        ∀ frames < n, c.writeWithin frames = none ∧ c.toJsonWithin frames = none) ∧
    ∀ (c : Code) (frames : Nat),
      c.writeWithin frames = (if c.writeDepth ≤ frames then some c.write else none) ∧
        c.toJsonWithin frames = (if c.height ≤ frames then some c.toJson else none) ∧
        c.writeDepth ≤ c.height ∧ c.height ≤ c.writeDepth + 1 := by
  refine ⟨fun o input c h ↦ ?_, fun n ↦ ?_, fun c frames ↦
    ⟨c.needs_writeBy frames, c.needs_toJsonBy frames, c.writeDepth_le_height⟩⟩
  · obtain ⟨-, x, hx, hc⟩ := compile_eq_ok_iff.mp h
    exact ⟨x, hx, height_le_of_readTemplate hx hc⟩
  · obtain ⟨input, hread⟩ := exists_readTemplate_long n
    have hheight : (Path.long n).lower.height = n + 1 := by
      rw [Path.height_lower, Path.long, List.length_replicate]
    refine ⟨input, fun o hdepth hsize ↦ ⟨_, (Path.long n).lower, hread _ hdepth,
      compile_eq_ok_iff.mpr ⟨hsize, _, hread _ hdepth, rfl⟩, by omega, fun frames hlt ↦ ?_⟩⟩
    exact Code.within_eq_none (by omega)

/-- The bound is met by a path below an operator behind a literal, `a#{!b.c}`, and a path of a
thousand properties is no deeper than one of none. -/
theorem height_of_compile_met :
    let input := "a#\x7b!b.c\x7d".toList
    (∃ x c, compile ⟨2, 8, []⟩ input = .ok c ∧ readTemplate 2 input = .ok x ∧
      c.height = 4 ∧ c.height ≤ 2 + Template.longestPath x + (x.length - 1) ∧
        Template.longestPath x = 1 ∧ x.length = 2) ∧
    ∃ input i c, readTemplate 1 input = .ok [i] ∧
      compile ⟨1, Text.byteSize input, []⟩ input = .ok c ∧ 1000 ≤ c.height ∧
        c.writeWithin 999 = none ∧ c.toJsonWithin 999 = none := by
  intro input
  have hts := Scanner.tokenize_of_returned input 7 (by decide) rfl
  have hx : readTemplate 2 input = .ok [.literal ['a'],
      .embedded .deferred (.unary .not (.path ⟨.name ['b'], [['c']]⟩))] :=
    readTemplate_eq_ok_iff.mpr ⟨_, hts, parse_eq_ok_iff.mpr (by decide)⟩
  have hc := (compile_of_read (o := ⟨2, 8, []⟩) (by decide) hx).trans rfl
  obtain ⟨hbound, hdeep, -⟩ := height_of_compile
  constructor
  · obtain ⟨x, hx', hle⟩ := hbound _ _ _ hc
    obtain rfl := Except.ok.inj (hx.symm.trans hx')
    exact ⟨_, _, hc, hx, rfl, hle, rfl, rfl⟩
  · obtain ⟨input, h⟩ := hdeep 1000
    obtain ⟨i, c, hread, hc, hheight, hframes⟩ :=
      h ⟨1, Text.byteSize input, []⟩ (Nat.le_refl 1) (Nat.le_refl _)
    exact ⟨input, i, c, hread, hc, hheight, hframes 999 (by decide)⟩

end Interpolation
