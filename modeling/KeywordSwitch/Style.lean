import KeywordSwitch.Text.Basic

/-!
# Styles of generated code

A style holds every word of the generated code that the host lexer chooses: the
name of the declaration macro, the variable that receives a token, the three
operations on the lexer's cursor and the comment at the top of each file.
-/

namespace KeywordSwitch

namespace Style

/-- The first and the last line of a comment box. -/
def boxEdge : Text :=
  "// $$***************************************************************$$ //".toList

/-- The empty line of a comment box. -/
def boxGap : Text :=
  "//                                                                     //".toList

/-- A comment box around one line. -/
def boxed (title : Text) : List Text :=
  [boxEdge, boxGap, title, boxGap, boxEdge]

/-- The banner of a style that does not choose one. -/
def defaultBanner : List Text :=
  boxed "//        Keyword matcher produced by the PPKW trie generator.         //".toList

end Style

/-- The words of the generated code. -/
structure Style where
  /-- The macro invoked once for each keyword of the declaration list. -/
  macroName : Text := "PPKEYWORD".toList
  /-- The variable that receives the recognised token. -/
  tokenTarget : Text := "tokenInfo.Type".toList
  /-- What stands before a keyword in the name of its token. -/
  tokenPrefix : Text := "ASyntaxLexeme::Type::Kw_".toList
  /-- Reads the current character and forgets all characters peeked. -/
  peekChar : Text := "PeekChar()".toList
  /-- Peeks one character further. -/
  peekNextChar : Text := "PeekNextChar()".toList
  /-- The statement that consumes the current character and all characters peeked. -/
  advance : Text := "AdvanceChars();".toList
  /-- The comment lines at the top of every generated file. -/
  banner : List Text := Style.defaultBanner
deriving DecidableEq

instance : Inhabited Style := ⟨{}⟩

end KeywordSwitch
