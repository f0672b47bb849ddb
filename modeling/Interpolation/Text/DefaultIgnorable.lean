import Interpolation.Text.White

/-!
# Characters that are ignored by default

The property `Default_Ignorable_Code_Point` of Unicode 17.0: characters that are drawn as nothing
where they are not understood. Most of them are format characters, marks or unassigned, but the
fillers of Korean syllables are letters by their general category, and no less invisible.
-/

namespace Interpolation.Text

/-- The characters with the property `Default_Ignorable_Code_Point`. -/
def defaultIgnorableRanges : List (Nat × Nat) :=
  [(0xAD, 0xAD), (0x34F, 0x34F), (0x61C, 0x61C), (0x115F, 0x1160), (0x17B4, 0x17B5),
    (0x180B, 0x180F), (0x200B, 0x200F), (0x202A, 0x202E), (0x2060, 0x206F), (0x3164, 0x3164),
    (0xFE00, 0xFE0F), (0xFEFF, 0xFEFF), (0xFFA0, 0xFFA0), (0xFFF0, 0xFFF8), (0x1BCA0, 0x1BCA3),
    (0x1D173, 0x1D17A), (0xE0000, 0xE0FFF)]

def isDefaultIgnorable (c : Char) : Bool := inRanges c.toNat defaultIgnorableRanges

end Interpolation.Text
