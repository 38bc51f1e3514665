/-!
# Blank texts

The characters that Unicode counts as white space, and the texts made of nothing
else.
-/

namespace Aggregation.Text

/-- The property `White_Space`. -/
def isWhiteSpace (c : Char) : Bool :=
  let n := c.toNat
  (0x09 ≤ n && n ≤ 0x0D) || n = 0x20 || n = 0x85 || n = 0xA0 || n = 0x1680
    || (0x2000 ≤ n && n ≤ 0x200A) || n = 0x2028 || n = 0x2029 || n =
      0x202F || n = 0x205F
    || n = 0x3000

def isBlank (s : String) : Bool :=
  s.toList.all isWhiteSpace

end Aggregation.Text
