import Interpolation.Text.Basic

/-!
# White space and control characters

Two classes of characters that come from the Unicode character database, each as the list of its
ranges. The lists are in ascending order, which lets the look-up stop at the first range above the
character.
-/

namespace Interpolation.Text

/-- Whether the number lies in one of the ranges, given by their first and last members in ascending
order. -/
def inRanges (n : Nat) : List (Nat × Nat) → Bool
  | [] => false
  | (first, last) :: ranges => if n < first then false else n ≤ last || inRanges n ranges

/-- The characters with the property `White_Space`. -/
def whiteRanges : List (Nat × Nat) :=
  [(0x09, 0x0D), (0x20, 0x20), (0x85, 0x85), (0xA0, 0xA0), (0x1680, 0x1680), (0x2000, 0x200A),
    (0x2028, 0x2029), (0x202F, 0x202F), (0x205F, 0x205F), (0x3000, 0x3000)]

def isWhite (c : Char) : Bool := inRanges c.toNat whiteRanges

/-- Whether the character is a control character, one of the general category `Cc`. -/
def isControl (c : Char) : Bool := c.toNat < 0x20 || (0x7F ≤ c.toNat && c.toNat < 0xA0)

end Interpolation.Text
