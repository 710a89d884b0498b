import FrontEnd.Text.Ranges

/-!
# Blanks

The characters that separate tokens: those of Unicode with bidirectional class WS, B or S or of
category Zs.
-/

set_option autoImplicit false

namespace FrontEnd.Text

/-- The ranges of blank characters. -/
def blankRanges : List (Nat × Nat) :=
  [(0x9, 0xd), (0x1c, 0x20), (0x85, 0x85), (0xa0, 0xa0), (0x1680, 0x1680), (0x2000, 0x200a),
   (0x2028, 0x2029), (0x202f, 0x202f), (0x205f, 0x205f), (0x3000, 0x3000)]

/-- A blank separates tokens and belongs to none. -/
def isBlank (c : Char) : Bool :=
  inRanges blankRanges c.toNat

end FrontEnd.Text
