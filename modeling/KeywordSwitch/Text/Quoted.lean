import KeywordSwitch.Text.Basic
import KeywordSwitch.Text.Unprintable

/-!
# Quoted texts and characters

The quoted form shows a text or a character between quotes so that every
character of it can be seen. NUL, tab, carriage return, line feed and backslash
have a short escape, the surrounding quote is escaped with a backslash, and any
other unprintable character is written as its code point in lower-case
hexadecimal digits.
-/

namespace KeywordSwitch.Text

/-- The characters that stand for `c` between two quotes `quote`. -/
def escape (quote c : Char) : Text :=
  if c = '\x00' then ['\\', '0']
  else if c = '\t' then ['\\', 't']
  else if c = '\r' then ['\\', 'r']
  else if c = '\n' then ['\\', 'n']
  else if c = '\\' ∨ c = quote then ['\\', c]
  else if isUnprintable c then ['\\', 'u', '{'] ++ Nat.toDigits 16 c.toNat ++ ['}']
  else [c]

/-- The text in double quotes; an apostrophe in it stands for itself. -/
def quoted (t : Text) : Text :=
  '"' :: t.flatMap (escape '"') ++ ['"']

/-- The character in single quotes; a double quote stands for itself. -/
def quotedChar (c : Char) : Text :=
  '\'' :: escape '\'' c ++ ['\'']

example : quoted "a\"b\tc'".toList = "\"a\\\"b\\tc'\"".toList := by decide

example : quotedChar '\u00AD' = "'\\u\x7bad\x7d'".toList := by decide

end KeywordSwitch.Text
