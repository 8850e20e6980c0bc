/-!
# White space

`isBlank` is the `White_Space` property of Unicode. `trim` drops such characters at both ends
of a text and `trimStart` at its beginning.
-/

namespace Outbox.Text

/-- The code points with the `White_Space` property. -/
def blanks : List Nat :=
  [0x9, 0xA, 0xB, 0xC, 0xD, 0x20, 0x85, 0xA0, 0x1680,
    0x2000, 0x2001, 0x2002, 0x2003, 0x2004, 0x2005, 0x2006, 0x2007, 0x2008, 0x2009, 0x200A,
    0x2028, 0x2029, 0x202F, 0x205F, 0x3000]

/-- A character with the `White_Space` property. -/
def isBlank (c : Char) : Bool := blanks.contains c.toNat

/-- Drops white space at the beginning. -/
def trimStart (cs : List Char) : List Char := cs.dropWhile isBlank

/-- Drops white space at both ends. -/
def trim (cs : List Char) : List Char := (trimStart (trimStart cs).reverse).reverse

end Outbox.Text
