import KeywordSwitch.KeywordSet.Basic
import KeywordSwitch.Style

/-!
# Declaration lists

A declaration names a keyword and spells it: the style's macro is applied to the
keyword and to each of its characters. As a file of its own the list defines the
macro away unless the including file has defined it, and undefines it at the end.
-/

namespace KeywordSwitch.Style

/-- The declaration of one word. -/
def declaration (s : Style) (w : Text) : Text :=
  s.macroName ++ " (".toList ++ w ++ ", ".toList ++
    ", ".toList.intercalate (w.map fun c => [c]) ++ [')']

/-- The declarations of the words, a line each. -/
def declarations (s : Style) (ws : List Text) : List Text :=
  ws.map s.declaration

/-- The lines before the declarations of a declaration file. -/
def declarationHeader (s : Style) : List Text :=
  s.banner ++
    [[],
      "#ifndef ".toList ++ s.macroName,
      "#define ".toList ++ s.macroName ++ "(kw, ...)".toList,
      "#endif\t// ifndef ".toList ++ s.macroName,
      []]

/-- The lines after the declarations of a declaration file. -/
def declarationTrailer (s : Style) : List Text :=
  [[], "#undef ".toList ++ s.macroName]

/-- The lines of a declaration file. -/
def declarationFile (s : Style) (k : KeywordSet) : List Text :=
  s.declarationHeader ++ s.declarations k.words ++ s.declarationTrailer

end KeywordSwitch.Style
