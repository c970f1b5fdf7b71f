/-!
# Blanks

The characters that count as white space, and texts without those at their ends.
-/

namespace VirtualComputer.Text

/-- Whether a character is a space of some width. -/
def isSpace (c : Char) : Bool :=
  let n := c.toNat
  n = 0x20 || n = 0xA0 || n = 0x1680 || (0x2000 ≤ n && n ≤ 0x200A) || n = 0x202F || n = 0x205F ||
    n = 0x3000

/-- Whether a character is white space. -/
def isBlank (c : Char) : Bool :=
  let n := c.toNat
  isSpace c || (9 ≤ n && n ≤ 13) || n = 0x85 || n = 0x2028 || n = 0x2029

/-- The text without white space at its end. -/
def trimEnd (cs : List Char) : List Char :=
  (cs.reverse.dropWhile isBlank).reverse

/-- The text without white space at its ends. -/
def trim (cs : List Char) : List Char :=
  trimEnd (cs.dropWhile isBlank)

end VirtualComputer.Text
