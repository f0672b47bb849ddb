import Interpolation.Proofs.Stages
import Interpolation.Proofs.Template.Pieces
import Interpolation.Proofs.Token.Marks

/-!
# The choice of delimiters

The two delimiters mean the same. A template with some of them exchanged compiles to the same code,
and if it cannot be compiled, then for the same reason: an error never quotes a delimiter, because
an expression that cannot be read is given up between its delimiters, and what stands outside
expressions is always text.

Here the tokens and the items of a template are compared after their delimiters have been made the
same (`Token.plain`, `Item.plain`). That commutes with reading (`Parse.ofTokens_plain`), and the
code does not depend on it (`Template.lower_plain`).
-/

namespace Interpolation

/-! ## Reading -/

/-- The item, whichever delimiter it has. -/
def Item.plain : Item → Item
  | .literal text => .literal text
  | .embedded _ e => .embedded .deferred e

def Parse.plain (p : Parse) : Parse := ⟨p.items.map Item.plain, p.errors⟩

theorem Token.plain_of_ne_opening {t : Token} (h : ∀ d, t.kind ≠ .opening d) :
    t.plain = { t with mode := t.mode.plain } := by
  obtain ⟨kind, text, mode, offset⟩ := t
  cases kind <;> first | rfl | exact absurd rfl (h _)

theorem Token.kind_plain_of_opening {t : Token} {d : Delimiter} (h : t.kind = .opening d) :
    t.plain.kind = .opening .deferred := by
  rw [Token.plain, h]

theorem Token.kind_plain_of_ne_opening {t : Token} (h : ∀ d, t.kind ≠ .opening d) :
    t.plain.kind = t.kind := by
  rw [Token.plain_of_ne_opening h]

theorem Token.alike_plain {t : Token} (h : ∀ d, t.kind ≠ .opening d) : t.Alike t.plain := by
  rw [Token.plain_of_ne_opening h]
  exact ⟨rfl, rfl, rfl⟩

theorem Token.Kind.ne_opening_of_isInner {k : Token.Kind} (h : k.isInner) (d : Delimiter) :
    k ≠ .opening d := by
  rintro rfl
  cases h

section

variable {body : List Token}

theorem alike_plain_of_inner (hbody : ∀ u ∈ body, u.kind.isInner) :
    ∀ u ∈ body, u.Alike u.plain :=
  fun u hu ↦ Token.alike_plain (Token.Kind.ne_opening_of_isInner (hbody u hu))

theorem isInner_map_plain (hbody : ∀ u ∈ body, u.kind.isInner) :
    ∀ u ∈ body.map Token.plain, u.kind.isInner := by
  intro u hu
  obtain ⟨v, hv, rfl⟩ := List.mem_map.mp hu
  rw [Token.kind_plain_of_ne_opening (Token.Kind.ne_opening_of_isInner (hbody v hv))]
  exact hbody v hv

end

namespace Parse

theorem plain_append (p q : Parse) : (p ++ q).plain = p.plain ++ q.plain := by
  rw [plain, items_append, errors_append, List.map_append]
  rfl

theorem plain_ofEmbedded (d : Delimiter) (r : Except ParseError Expr) :
    (ofEmbedded d r).plain = ofEmbedded .deferred r := by
  cases r <;> rfl

/-- **Reading does not tell the delimiters apart.** -/
theorem ofTokens_plain (limit : Nat) {ts : List Token} {m : Mode} (h : Passes .outer ts m) :
    ofTokens limit (ts.map Token.plain) = (ofTokens limit ts).plain := by
  refine h.pieces_induction (motive := fun ts _ ↦
    ofTokens limit (ts.map Token.plain) = (ofTokens limit ts).plain) ?_ ?_ ?_ ?_
  · rw [List.map_nil, ofTokens_nil]
    rfl
  · intro t ts m ht ih
    have hne : ∀ d, t.kind ≠ .opening d := by simp [ht]
    have ht' : t.plain.kind = .literal := (Token.kind_plain_of_ne_opening hne).trans ht
    rw [List.map_cons, ofTokens_literal ht', ofTokens_literal ht, ih, plain_append,
      Token.plain_of_ne_opening hne]
    rfl
  · intro t d body c ts m ht hbody hc ih
    have hne : ∀ d, c.kind ≠ .opening d := by simp [hc]
    have hc' : c.plain.kind = .closing := (Token.kind_plain_of_ne_opening hne).trans hc
    have hagree : Agree (body ++ c :: ts) (body.map Token.plain ++ c.plain :: ts.map Token.plain) :=
      .append_map hbody (alike_plain_of_inner hbody) (.stop hc (Token.alike_plain hne))
    rw [List.map_cons, List.map_append, List.map_cons,
      ofTokens_opening (Token.kind_plain_of_opening ht), ofTokens_opening ht, plain_append,
      plain_ofEmbedded, recover_append hbody, recover_closing hc,
      recover_append (isInner_map_plain hbody), recover_closing hc', ih,
      Parser.enclosed_result_eq hagree]
  · intro t d body ht hbody
    have hagree : Agree body (body.map Token.plain) := by
      simpa using Agree.append_map hbody (alike_plain_of_inner hbody) .nil
    rw [List.map_cons, ofTokens_opening (Token.kind_plain_of_opening ht), ofTokens_opening ht,
      plain_append, plain_ofEmbedded, recover_of_inner hbody,
      recover_of_inner (isInner_map_plain hbody), Parser.enclosed_result_eq hagree, ofTokens_nil]
    rfl

theorem result_plain (p : Parse) : p.plain.result = p.result.map (·.map Item.plain) := by
  obtain ⟨items, _ | ⟨e, errors⟩⟩ := p <;> rfl

end Parse

theorem parse_plain (limit : Nat) {ts : List Token} {m : Mode} (h : Passes .outer ts m) :
    parse limit (ts.map Token.plain) = (parse limit ts).map (·.map Item.plain) := by
  rw [parse, parse, Parse.ofTokens_plain limit h, Parse.result_plain]

/-! ## Compiling -/

theorem Item.lower_plain (helper : Text) (x : Item) : x.plain.lower helper = x.lower helper := by
  cases x <;> rfl

namespace Template

theorem lowerFrom_plain (helper : Text) (before : Code) (x : Template) :
    lowerFrom helper before (x.map Item.plain) = lowerFrom helper before x := by
  induction x generalizing before with
  | nil => rfl
  | cons i x ih =>
    rw [List.map_cons, lowerFrom, lowerFrom, Item.lower_plain]
    simp only [ih]

theorem lower_plain (helper : Text) (x : Template) :
    lower helper (x.map Item.plain) = lower helper x := by
  cases x with
  | nil => rfl
  | cons i x =>
    rw [List.map_cons, lower, lower, Item.lower_plain]
    simp only [lowerFrom_plain]

end Template

/-- Results that a function makes equal: both are the same failure, or both are values that the
function makes equal. -/
theorem eq_error_or_ok_of_map_eq {ε α β : Type} {f : α → β} {x y : Except ε α}
    (h : x.map f = y.map f) :
    (∃ e, x = .error e ∧ y = .error e) ∨ ∃ a b, x = .ok a ∧ y = .ok b ∧ f a = f b := by
  match x, y with
  | .error e, .error e' =>
    cases h
    exact .inl ⟨e, rfl, rfl⟩
  | .ok a, .ok b => exact .inr ⟨a, b, rfl, rfl, Except.ok.inj h⟩
  | .error _, .ok _ => cases h
  | .ok _, .error _ => cases h

/-- The template is the same but for its delimiters, and the error is the same if there is one. -/
theorem readTemplate_swapMarks (limit : Nat) {input : Text} {chosen : Nat → Bool}
    (h : ∀ n, chosen n → (Scanner.ofText input).OpensAt n) :
    (readTemplate limit (Text.swapMarks chosen 0 input)).map (·.map Item.plain) =
      (readTemplate limit input).map (·.map Item.plain) := by
  rw [readTemplate, readTemplate]
  rcases eq_error_or_ok_of_map_eq (tokenize_swapMarks h) with
    ⟨e, hus, hts⟩ | ⟨us, ts, hus, hts, hplain⟩
  · rw [hus, hts]
  · obtain ⟨m, hm⟩ := Scanner.passes_of_tokenize hts
    obtain ⟨n, hn⟩ := Scanner.passes_of_tokenize hus
    have hparse : (parse limit us).map (·.map Item.plain) =
        (parse limit ts).map (·.map Item.plain) := by
      rw [← parse_plain limit hm, ← parse_plain limit hn, hplain]
    rw [hus, hts]
    change ((parse limit us).mapError CompileError.parse).map (·.map Item.plain) =
      ((parse limit ts).mapError CompileError.parse).map (·.map Item.plain)
    rcases eq_error_or_ok_of_map_eq hparse with ⟨e, hus, hts⟩ | ⟨y, x, hus, hts, hyx⟩
    · rw [hus, hts]
    · rw [hus, hts]
      exact congrArg Except.ok hyx

/-- **The choice of delimiters is a matter of spelling.** Exchange the marks at any of the places
where the scanner, on its way through the template, stands outside every expression and before a
delimiter: the template compiles to the same code, or it fails with the same error. -/
theorem compile_swapMarks (o : Options) (input : Text) (chosen : Nat → Bool)
    (h : ∀ n, chosen n → (Scanner.ofText input).OpensAt n) :
    compile o (Text.swapMarks chosen 0 input) = compile o input := by
  rw [compile, compile, Text.byteSize_swapMarks]
  rcases eq_error_or_ok_of_map_eq (readTemplate_swapMarks o.maxDepth h) with
    ⟨e, hy, hx⟩ | ⟨y, x, hy, hx, hplain⟩
  · rw [hy, hx]
  · rw [hy, hx]
    simp only [bind, Except.bind]
    rw [← Template.lower_plain o.emptyHelper y, hplain, Template.lower_plain]

/-- Both delimiters of a template are exchanged. The mark in its text and the one in its string
stay, and the second expression is still the one that cannot be read, at the same place. -/
theorem compile_swapMarks_unreadable :
    let input := "$#\x7b'$\x7b'\x7d.$\x7ba b\x7d".toList
    let chosen := fun n ↦ n == 1 || n == 9
    let error : ParseError := .unexpected (.token .closing) .identifier ['b'] 13
    (∀ n, chosen n → (Scanner.ofText input).OpensAt n) ∧
      Text.swapMarks chosen 0 input = "$$\x7b'$\x7b'\x7d.#\x7ba b\x7d".toList ∧
        compile {} input = .error (.parse error) ∧
          compile {} (Text.swapMarks chosen 0 input) = .error (.parse error) := by
  intro input chosen error
  have hopens : ∀ n, chosen n → (Scanner.ofText input).OpensAt n := by
    intro n hn
    rcases Bool.or_eq_true_iff.mp hn with hn | hn <;> obtain rfl := eq_of_beq hn
    · exact ⟨1, by decide⟩
    · exact ⟨5, by decide⟩
  let ts : List Token :=
    [⟨.literal, ['$'], .outer, 0⟩, ⟨.opening .deferred, ['#', '{'], .outer, 1⟩,
      ⟨.string .single, "'$\x7b'".toList, .inside .deferred, 3⟩,
      ⟨.closing, ['}'], .inside .deferred, 7⟩, ⟨.literal, ['.'], .outer, 8⟩,
      ⟨.opening .dynamic, ['$', '{'], .outer, 9⟩, ⟨.identifier, ['a'], .inside .dynamic, 11⟩,
      ⟨.identifier, ['b'], .inside .dynamic, 13⟩, ⟨.closing, ['}'], .inside .dynamic, 14⟩]
  have htokens : tokenize input = .ok ts :=
    Scanner.tokenize_of_returned input 10 (by decide) (by decide)
  have hruns : Parse.State.Runs 256 4 ⟨[], [], ts⟩ ⟨[.literal ['.'],
      .embedded .deferred (.path ⟨.string "'$\x7b'".toList, []⟩), .literal ['$']], [error], []⟩ :=
    .next (by decide) (.next (by decide) (.next (by decide) (.next (by decide) (.stop rfl))))
  have hparse : parse 256 ts = .error error := by
    rw [parse, Parse.ofTokens_of_runs hruns]
    rfl
  have houtcome : compile {} input = .error (.parse error) :=
    compile_of_readError (by decide) (readTemplate_of_parseError htokens hparse)
  exact ⟨hopens, by decide, houtcome, (compile_swapMarks {} input chosen hopens).trans houtcome⟩

end Interpolation
