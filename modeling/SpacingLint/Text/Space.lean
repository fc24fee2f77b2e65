/-! # Space around a text

The characters that separate words, in every script.  Among the first 128 characters
they are the blank, the tab and the characters that end a line or a page.
-/
namespace SpacingLint
namespace Text

/-- Whether a character is space. -/
def isSpace (c : Char) : Bool :=
  let code := c.toNat
  (0x9 ≤ code && code ≤ 0xd) || (0x2000 ≤ code && code ≤ 0x200a) ||
    [0x20, 0x85, 0xa0, 0x1680, 0x2028, 0x2029, 0x202f, 0x205f, 0x3000].contains code

/-- A text without the space before and after it. -/
def trim (cs : List Char) : List Char :=
  ((cs.dropWhile isSpace).reverse.dropWhile isSpace).reverse

end Text
end SpacingLint
