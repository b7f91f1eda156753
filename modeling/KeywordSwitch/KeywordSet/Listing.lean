import KeywordSwitch.KeywordSet.Basic
import KeywordSwitch.Text.Blank
import KeywordSwitch.Text.Order

/-!
# Keyword lists as text

A keyword list is a text of entries separated by commas and line breaks. Two
hyphens start a comment that runs to the next line feed; a carriage return before
that line feed belongs to the comment. Blank characters around an entry do not
count, and neither do entries without characters.

The set read from a list is in ascending order of code points, so two lists with
the same entries give the same set.
-/

namespace KeywordSwitch.KeywordSet

/-- The text without its comments; `inside` tells whether a comment is open at the start. -/
def stripComments (inside : Bool) : Text → Text
  | [] => []
  | c :: t =>
      if c = '\n' then c :: stripComments false t
      else if inside then stripComments true t
      else if c = '-' ∧ t.head? = some '-' then stripComments true t
      else c :: stripComments false t

/-- Commas and both line break characters separate entries. -/
def isSeparator (c : Char) : Bool :=
  c = ',' || c = '\r' || c = '\n'

/-- The entries of a keyword list in the order of the text. -/
def entries (text : Text) : List Text :=
  (((stripComments false text).splitOnP isSeparator).map Text.trim).filter (· ≠ [])

/-- The entries of a keyword list as a set, in ascending order. -/
def parse (text : Text) : Except KeywordError KeywordSet :=
  ofList ((entries text).mergeSort Text.le)

example : entries "b, a-- x\r\n\n a\r-".toList = ["b".toList, "a".toList, "a".toList, "-".toList] := by
  decide +kernel

end KeywordSwitch.KeywordSet
