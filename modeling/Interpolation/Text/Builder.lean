import Interpolation.Text.Basic

/-!
# Texts in the making

A `Builder` holds a text as the act of putting it in front of what follows. Joining two builders
copies neither, so a text that is put together along a tree takes time in proportion to its length
and not to its length times the depth of the tree.

That a builder does nothing but put one text in front is part of the type. So a builder is as good
as its text, and `toText` sends every operation here to the one on lists that it stands for.
-/

namespace Interpolation.Text

/-- A text, as the act of putting it in front of what follows. -/
structure Builder where
  /-- Puts the text in front of another one. -/
  prepend : Text → Text
  /-- What is put in front does not depend on what follows. -/
  prepend_eq_append : ∀ rest, prepend rest = prepend [] ++ rest

namespace Builder

def toText (b : Builder) : Text := b.prepend []

theorem prepend_eq (b : Builder) (rest : Text) : b.prepend rest = b.toText ++ rest :=
  b.prepend_eq_append rest

def ofText (s : Text) : Builder := ⟨(s ++ ·), by simp⟩

@[simp] theorem toText_ofText (s : Text) : (ofText s).toText = s := List.append_nil s

def append (a b : Builder) : Builder where
  prepend rest := a.prepend (b.prepend rest)
  prepend_eq_append rest := by
    rw [a.prepend_eq (b.prepend rest), a.prepend_eq (b.prepend []), b.prepend_eq_append rest,
      List.append_assoc]

instance : Append Builder := ⟨append⟩

@[simp] theorem toText_append (a b : Builder) : (a ++ b).toText = a.toText ++ b.toText :=
  a.prepend_eq b.toText

/-- The texts one after the other, with a separator between neighbours. -/
def separated (separator : Text) : List Builder → Builder
  | [] => ofText []
  | [b] => b
  | b :: bs => b ++ ofText separator ++ separated separator bs

@[simp] theorem toText_separated (separator : Text) (bs : List Builder) :
    (separated separator bs).toText = separator.intercalate (bs.map toText) := by
  fun_induction separated with
  | case1 => simp
  | case2 b => simp
  | case3 b bs hne ih =>
    obtain ⟨c, cs, rfl⟩ := List.exists_cons_of_ne_nil fun h ↦ hne h
    simp_all

end Builder

end Interpolation.Text
