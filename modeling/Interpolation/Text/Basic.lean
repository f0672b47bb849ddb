/-!
# Text

Everything the library reads or prints is a `Text`, a list of characters. A list is what the scanner
walks along, what the printers append to, and what proofs do induction on; strings are converted
once, where they enter and leave the library.

Positions in a text are counted in bytes of its UTF-8 form, so that an offset in a diagnostic can be
used on the bytes of the file it came from. `Text.byteSize` is the only place where that encoding is
looked at.
-/

namespace Interpolation

/-- A text, character by character. -/
abbrev Text := List Char

namespace Text

/-! ## Size in bytes -/

/-- The number of bytes that the text takes in UTF-8. -/
def byteSize (s : Text) : Nat := s.foldr (fun c n ↦ c.utf8Size + n) 0

@[simp] theorem byteSize_nil : byteSize [] = 0 := rfl

@[simp] theorem byteSize_cons (c : Char) (s : Text) :
    byteSize (c :: s) = c.utf8Size + byteSize s := rfl

@[simp] theorem byteSize_append (s t : Text) : byteSize (s ++ t) = byteSize s + byteSize t := by
  induction s with
  | nil => simp
  | cons c s ih => simp [ih, Nat.add_assoc]

theorem length_le_byteSize (s : Text) : s.length ≤ byteSize s := by
  induction s with
  | nil => simp
  | cons c s ih =>
    have := c.utf8Size_pos
    simp only [List.length_cons, byteSize_cons]
    omega

/-! ## Columns -/

/-- The text moved to the right edge of a column of `width` characters. A longer text is left as it
is. -/
def alignRight (width : Nat) (s : Text) : Text := List.replicate (width - s.length) ' ' ++ s

/-- The text at the left edge of a column of `width` characters. A longer text is left as it is. -/
def alignLeft (width : Nat) (s : Text) : Text := s ++ List.replicate (width - s.length) ' '

/-! ## Numerals -/

/-- The decimal numeral of a number, without leading zeros. -/
def decimal (n : Nat) : Text := Nat.toDigits 10 n

/-- The hexadecimal numeral of a number in lower case, without leading zeros. -/
def hex (n : Nat) : Text := Nat.toDigits 16 n

/-- The hexadecimal numeral of a number, with zeros in front up to four digits. -/
def hex4 (n : Nat) : Text := (hex n).leftpad 4 '0'

end Text

end Interpolation
