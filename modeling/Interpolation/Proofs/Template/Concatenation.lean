import Interpolation.Proofs.Stages
import Interpolation.Proofs.Template.Pieces
import Interpolation.Proofs.Template.Seams

/-!
# Templates in a row

Two templates that compile also compile as one, to the code of the first with the code of each item
of the second concatenated to it. The text between them must not be literal on both sides, or it
would become one item, and the second must not end a string of the first: these are the conditions
of `tokenize_append`, which gives the tokens of the joint text.

One of its conditions is not asked for here. The first template must not end inside an expression,
and since it can be read, it does not (`Passes.eq_outer_of_parse`).
-/

namespace Interpolation

/-! ## Reading -/

theorem Passes.eq_outer_of_parse {limit : Nat} {ts : List Token} {m : Mode} {x : Template}
    (h : Passes .outer ts m) (hparse : parse limit ts = .ok x) : m = .outer := by
  have herrors : (Parse.ofTokens limit ts).errors = [] := (Parse.result_eq_ok_iff.mp hparse).1
  revert herrors
  refine h.pieces_induction
    (motive := fun ts m ↦ (Parse.ofTokens limit ts).errors = [] → m = .outer) ?_ ?_ ?_ ?_
  · exact fun _ ↦ rfl
  · intro t ts m ht ih herrors
    rw [Parse.ofTokens_literal ht] at herrors
    exact ih herrors
  · intro t d body c ts m ht hbody hc ih herrors
    rw [Parse.ofTokens_closed ht hbody hc, Parse.errors_append, List.append_eq_nil_iff] at herrors
    exact ih herrors.2
  · intro t d body ht hbody herrors
    obtain ⟨e, he⟩ := Parse.ofTokens_unclosed limit ht hbody
    rw [he] at herrors
    cases herrors

theorem parse_append {limit : Nat} {ts us : List Token} {x y : Template}
    (hx : parse limit ts = .ok x) (hy : parse limit us = .ok y) :
    parse limit (ts ++ us) = .ok (x ++ y) := by
  obtain ⟨hsigns, hnested, hdepth⟩ := parse_eq_ok_iff.mp hx
  obtain ⟨hsigns', hnested', hdepth'⟩ := parse_eq_ok_iff.mp hy
  refine parse_eq_ok_iff.mpr ⟨?_, ?_, ?_⟩
  · rw [List.map_append, hsigns, hsigns', Template.signs, Template.signs, Template.signs,
      List.flatMap_append]
  · exact List.forall_mem_append.mpr ⟨hnested, hnested'⟩
  · exact List.forall_mem_append.mpr ⟨hdepth, hdepth'⟩

theorem parse_move {limit : Nat} {ts : List Token} {x : Template} (h : parse limit ts = .ok x)
    (n : Nat) : parse limit (ts.map (Token.move n)) = .ok x := by
  refine parse_of_signs ?_ h
  rw [List.map_map]
  rfl

/-! ## Lowering -/

namespace Template

theorem lowerFrom_eq (helper : Text) (before : Code) (x : Template) :
    lowerFrom helper before x =
      (x.mapM (Item.lower helper)).map fun codes ↦ codes.foldl Code.concat before := by
  induction x generalizing before with
  | nil => rfl
  | cons i x ih =>
    rw [lowerFrom, List.mapM_cons]
    cases i.lower helper with
    | error e => rfl
    | ok code =>
      simp only [bind, Except.bind, ih]
      cases x.mapM (Item.lower helper) <;> rfl

theorem lowerFrom_append {helper : Text} {before code : Code} {x : Template}
    (h : lowerFrom helper before x = .ok code) (y : Template) :
    lowerFrom helper before (x ++ y) = lowerFrom helper code y := by
  induction x generalizing before with
  | nil =>
    cases h
    rfl
  | cons i x ih =>
    obtain ⟨c, hc, hx⟩ := lowerFrom_cons_eq_ok_iff.mp h
    rw [List.cons_append, lowerFrom, hc]
    exact ih hx

theorem lower_append {helper : Text} {x : Template} {code : Code} (hne : x ≠ [])
    (h : lower helper x = .ok code) (y : Template) :
    lower helper (x ++ y) = lowerFrom helper code y := by
  obtain ⟨i, x, rfl⟩ := List.exists_cons_of_ne_nil hne
  obtain ⟨c, hc, hx⟩ := lower_cons_eq_ok_iff.mp h
  rw [List.cons_append, lower, hc]
  exact lowerFrom_append hx y

theorem exists_mapM_of_lower {helper : Text} {x : Template} {code : Code}
    (h : lower helper x = .ok code) : ∃ codes, x.mapM (Item.lower helper) = .ok codes := by
  cases x with
  | nil => exact ⟨[], rfl⟩
  | cons i x =>
    obtain ⟨c, hc, hx⟩ := lower_cons_eq_ok_iff.mp h
    rw [lowerFrom_eq] at hx
    cases hcodes : x.mapM (Item.lower helper) with
    | error e =>
      rw [hcodes] at hx
      cases hx
    | ok codes =>
      refine ⟨c :: codes, ?_⟩
      rw [List.mapM_cons, hc, hcodes]
      rfl

end Template

/-! ## Compiling -/

/-- **Templates compose by concatenation.** Two templates that compile, one behind the other, are
read as the items of the first and then those of the second, and compile to the code of the first
with the code of every item of the second concatenated to it, from left to right. Literal text must
not stand on both sides of the seam. And if a quotation mark occurs in the second template, then no
string of the first that has this mark may end with one that is paired with a backslash. -/
theorem compile_append (o : Options) {front back : Text} {a b : Code} {ts us : List Token}
    (hne : front ≠ []) (ha : compile o front = .ok a) (hb : compile o back = .ok b)
    (hsize : Text.byteSize (front ++ back) ≤ o.maxInputLen) (hts : tokenize front = .ok ts)
    (hus : tokenize back = .ok us)
    (hseam : ∀ t u, ts.getLast? = some t → us.head? = some u → t.kind = .literal →
      u.kind ≠ .literal)
    (hquote : ∀ q : Quote, q.char ∈ back → ∀ t ∈ ts, t.kind = .string q →
      endsInPair t.text.tail = false) :
    ∃ x y codes, readTemplate o.maxDepth front = .ok x ∧ readTemplate o.maxDepth back = .ok y ∧
      readTemplate o.maxDepth (front ++ back) = .ok (x ++ y) ∧
        y.mapM (Item.lower o.emptyHelper) = .ok codes ∧
          compile o (front ++ back) = .ok (codes.foldl Code.concat a) := by
  obtain ⟨-, x, hx, hxa⟩ := compile_eq_ok_iff.mp ha
  obtain ⟨-, y, hy, hyb⟩ := compile_eq_ok_iff.mp hb
  obtain ⟨codes, hcodes⟩ := Template.exists_mapM_of_lower hyb
  obtain ⟨_, hts', hpx⟩ := readTemplate_eq_ok_iff.mp hx
  obtain ⟨_, hus', hpy⟩ := readTemplate_eq_ok_iff.mp hy
  obtain rfl := Except.ok.inj (hts.symm.trans hts')
  obtain rfl := Except.ok.inj (hus.symm.trans hus')
  have hmode : ∀ m, Passes .outer ts m → m = .outer := fun m hm ↦ hm.eq_outer_of_parse hpx
  have hxy : readTemplate o.maxDepth (front ++ back) = .ok (x ++ y) :=
    readTemplate_eq_ok_iff.mpr
      ⟨_, tokenize_append hts hus hmode hseam hquote, parse_append hpx (parse_move hpy _)⟩
  -- without an item there would be no code to start from but the empty string
  have hxne : x ≠ [] := by
    rintro rfl
    obtain rfl : ts = [] := List.map_eq_nil_iff.mp (parse_eq_ok_iff.mp hpx).1
    exact hne (Scanner.eq_nil_of_tokenize hts)
  refine ⟨x, y, codes, hx, hy, hxy, hcodes, compile_eq_ok_iff.mpr ⟨hsize, _, hxy, ?_⟩⟩
  rw [Template.lower_append hxne hxa, Template.lowerFrom_eq, hcodes]
  rfl

/-- The string of the first template ends with a paired mark, but the second template has the other
kind of marks only; and the first one ends with the mark of a delimiter, but as text. -/
theorem compile_append_paired_mark :
    let front := "a#\x7b'x\\'\x7d#".toList
    let back := "$\x7b\"b\"\x7dc".toList
    let a := Code.concat (.concat (.string ['a']) (.string ['x', '\\'])) (.string ['#'])
    endsInPair "x\\'".toList ∧ compile {} front = .ok a ∧
      compile {} (front ++ back) = .ok (.concat (.concat a (.string ['b'])) (.string ['c'])) := by
  intro front back a
  have hts := Scanner.tokenize_of_returned front 5 (by decide) rfl
  have hus := Scanner.tokenize_of_returned back 4 (by decide) rfl
  generalize hts' : List.filter _ (Scanner.returned 5 _) = ts at hts
  generalize hus' : List.filter _ (Scanner.returned 4 _) = us at hus
  have hx : readTemplate 256 front = .ok [.literal ['a'],
      .embedded .deferred (.path ⟨.string ['\'', 'x', '\\', '\''], []⟩), .literal ['#']] := by
    subst hts'
    exact readTemplate_eq_ok_iff.mpr ⟨_, hts, parse_eq_ok_iff.mpr (by decide)⟩
  have hy : readTemplate 256 back = .ok [.embedded .dynamic (.path ⟨.string ['"', 'b', '"'], []⟩),
      .literal ['c']] := by
    subst hus'
    exact readTemplate_eq_ok_iff.mpr ⟨_, hus, parse_eq_ok_iff.mpr (by decide)⟩
  have ha : compile {} front = .ok a := compile_eq_ok_iff.mpr ⟨by decide, _, hx, rfl⟩
  have hb : compile {} back = .ok (.concat (.string ['b']) (.string ['c'])) :=
    compile_eq_ok_iff.mpr ⟨by decide, _, hy, rfl⟩
  have hseam : us.head?.map Token.kind = some (.opening .dynamic) := by
    subst hus'
    decide
  have hquote : (∀ t ∈ ts, t.kind ≠ .string .double) ∧ Quote.single.char ∉ back := by
    subst hts'
    decide
  obtain ⟨x, y, codes, -, hy', -, hcodes, hcompile⟩ :=
    compile_append {} (by decide) ha hb (by decide) hts hus
      (fun t u _ hu _ hk ↦ by simp [hu, hk] at hseam)
      (fun q hq t ht hk ↦ by
        cases q with
        | double => exact absurd hk (hquote.1 t ht)
        | single => exact absurd hq hquote.2)
  obtain rfl := Except.ok.inj (hy.symm.trans hy')
  obtain rfl : [.string ['b'], .string ['c']] = codes := Except.ok.inj hcodes
  exact ⟨by decide, ha, hcompile⟩

end Interpolation
