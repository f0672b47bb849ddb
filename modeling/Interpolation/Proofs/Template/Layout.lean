import Interpolation.Proofs.Stages
import Interpolation.Proofs.Template.Edits

/-!
# Layout and spelling do not matter

A template may be laid out differently inside its expressions, and its operators may be written in
another way, without any effect: it compiles to the same code, or fails in the same stage. That its
tokens have the same signs is the work of `Proofs.Template.Edits`; what is read from tokens depends
on their signs only (`parse_of_signs`). The failures themselves are not the same, since they tell
offsets.
-/

namespace Interpolation

/-- The edited template is read as the same items, or neither is, for reasons of the same stage. -/
theorem readTemplate_edited (limit : Nat) {input edited : Text}
    (h : Edited (.ofText input) 0 input edited) :
    (∃ x, readTemplate limit input = .ok x ∧ readTemplate limit edited = .ok x) ∨
      ∃ e e' stage, readTemplate limit input = .error e ∧ readTemplate limit edited = .error e' ∧
        e.stage? = some stage ∧ e'.stage? = some stage := by
  rcases tokenize_edited h with ⟨ts, us, hts, hus, hsigns⟩ | ⟨e, e', he, he'⟩
  · cases hx : parse limit ts with
    | ok x =>
      exact .inl ⟨x, readTemplate_eq_ok_iff.mpr ⟨ts, hts, hx⟩,
        readTemplate_eq_ok_iff.mpr ⟨us, hus, parse_of_signs hsigns hx⟩⟩
    | error e =>
      cases hy : parse limit us with
      | ok y =>
        rw [parse_of_signs hsigns.symm hy] at hx
        cases hx
      | error e' =>
        exact .inr ⟨_, _, .parsing, readTemplate_of_parseError hts hx,
          readTemplate_of_parseError hus hy, rfl, rfl⟩
  · exact .inr ⟨_, _, .lexing, readTemplate_of_lexError he, readTemplate_of_lexError he', rfl, rfl⟩

/-- **Layout and operator spelling do not matter.** White space is put in at places where the
scanner stands inside an expression, and operators are written in another way, with a space on both
sides. If neither text is too long, both compile to the same code, or both fail in the same
stage. -/
theorem compile_edited (o : Options) {input edited : Text}
    (h : Edited (.ofText input) 0 input edited) (hsize : Text.byteSize input ≤ o.maxInputLen)
    (hsize' : Text.byteSize edited ≤ o.maxInputLen) :
    (∃ c, compile o input = .ok c ∧ compile o edited = .ok c) ∨
      ∃ e e' stage, compile o input = .error e ∧ compile o edited = .error e' ∧
        e.stage? = some stage ∧ e'.stage? = some stage := by
  rcases readTemplate_edited o.maxDepth h with ⟨x, hx, hx'⟩ | ⟨e, e', stage, he, he', hstage⟩
  · rw [compile_of_read hsize hx, compile_of_read hsize' hx']
    cases Template.lower o.emptyHelper x with
    | ok c => exact .inl ⟨c, rfl, rfl⟩
    | error e => exact .inr ⟨_, _, .lowering, rfl, rfl, rfl, rfl⟩
  · exact .inr ⟨e, e', stage, compile_of_readError hsize he, compile_of_readError hsize' he',
      hstage⟩

/-- A negation and a comparison in their other spellings, a no-break space in front of a property,
and a line feed in front of the closing brace: `#{!a.b=='&&'}` and what it becomes. The operator in
the string is none. -/
theorem compile_edited_no_break_space :
    let input := "#\x7b!a.b=='&&'\x7d".toList
    let edited := "#\x7b not a\u00a0.b eq '&&'\n\x7d".toList
    let code := Code.not (.binary .equal (.property (.name ['a']) ['b']) (.string ['&', '&']))
    Edited (.ofText input) 0 input edited ∧ compile {} input = .ok code ∧
      compile {} edited = .ok code := by
  intro input edited code
  have hnot : (Scanner.ofText input).Returns ⟨.unary .not, ['!'], .inside .deferred, 2⟩ :=
    ⟨1, by decide⟩
  have hequal : (Scanner.ofText input).Returns ⟨.binary .eq, ['=', '='], .inside .deferred, 6⟩ :=
    ⟨5, by decide⟩
  have hdot : (Scanner.ofText input).StandsInside 4 := ⟨3, .deferred, by decide⟩
  have hbrace : (Scanner.ofText input).StandsInside 12 := ⟨7, .deferred, by decide⟩
  have hedited : Edited (.ofText input) 0 input edited := by
    refine .keep (.keep (.respell (w := "not".toList) hnot rfl (by decide) (.keep ?_)))
    refine .insert (w := ['\u00a0']) hdot (by decide) (List.forall_mem_singleton.mpr rfl) ?_
    refine .keep (.keep (.respell (w := "eq".toList) hequal rfl (by decide) ?_))
    refine .keep (.keep (.keep (.keep ?_)))
    exact .insert (w := ['\n']) hbrace (by decide) (List.forall_mem_singleton.mpr rfl) (.keep .nil)
  have hcompile : compile {} input = .ok code := by
    have hts := Scanner.tokenize_of_returned input 8 (by decide) rfl
    have hx : readTemplate 256 input = .ok [.embedded .deferred (.unary .not
        (.binary .eq (.path ⟨.name ['a'], [['b']]⟩) (.path ⟨.string "'&&'".toList, []⟩)))] :=
      readTemplate_eq_ok_iff.mpr ⟨_, hts, parse_eq_ok_iff.mpr (by decide)⟩
    exact compile_eq_ok_iff.mpr ⟨by decide, _, hx, rfl⟩
  refine ⟨hedited, hcompile, ?_⟩
  rcases compile_edited {} hedited (by decide) (by decide) with ⟨c, hc, hc'⟩ | ⟨e, e', stage, he, -⟩
  · rw [hcompile] at hc
    cases hc
    exact hc'
  · rw [hcompile] at he
    cases he

end Interpolation
