/-!
# Blank characters

The 25 characters of Unicode's property `White_Space`, and cutting them off both
ends of a text.
-/

namespace Corelink.Text

/-- Unicode's property `White_Space`. -/
def isBlank (c : Char) : Bool :=
  let n := c.toNat
  (0x09 ≤ n && n ≤ 0x0D) || n == 0x20 || n == 0x85 || n == 0xA0 || n == 0x1680 ||
    (0x2000 ≤ n && n ≤ 0x200A) || n == 0x2028 || n == 0x2029 || n == 0x202F ||
    n == 0x205F || n == 0x3000

/-- Without the blanks at both ends. -/
def trim (cs : List Char) : List Char :=
  ((cs.dropWhile isBlank).reverse.dropWhile isBlank).reverse

example : trim [' ', '\u3000', '7', ' ', '7', '\u0085', '\n'] = ['7', ' ', '7'] := by decide

end Corelink.Text
