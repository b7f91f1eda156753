import KeywordSwitch.Text.Basic
import KeywordSwitch.Text.Ranges

/-!
# Blank characters and trimming

The blank characters are those with the Unicode property `White_Space`. The
information separators U+001C to U+001F, the zero width space U+200B and the byte
order mark U+FEFF do not have it, so they survive trimming.
-/

namespace KeywordSwitch.Text

/-- The code points with the property `White_Space`. -/
def blankRanges : List (Nat × Nat) :=
  [(0x09, 0x0D), (0x20, 0x20), (0x85, 0x85), (0xA0, 0xA0), (0x1680, 0x1680),
    (0x2000, 0x200A), (0x2028, 0x2029), (0x202F, 0x202F), (0x205F, 0x205F), (0x3000, 0x3000)]

/-- Whether the character is white space. -/
def isBlank (c : Char) : Bool :=
  inRanges blankRanges c.toNat

/-- Drops the blank characters at the start. -/
def trimLeft (t : Text) : Text :=
  t.dropWhile isBlank

/-- Drops the characters at the end for which `p` holds. -/
def dropEndWhile (p : Char → Bool) (t : Text) : Text :=
  (t.reverse.dropWhile p).reverse

/-- Drops the blank characters at both ends. -/
def trim (t : Text) : Text :=
  dropEndWhile isBlank (trimLeft t)

end KeywordSwitch.Text
