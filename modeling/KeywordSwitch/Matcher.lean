import KeywordSwitch.Log
import KeywordSwitch.Switch.OfTrie
import KeywordSwitch.Switch.Printer

/-!
# Matchers

A matcher is the text of the switch of a trie, under the banner of the style and a
warning that the file is generated.
-/

namespace KeywordSwitch

/-- The comment box that marks a matcher as generated. -/
def generatedWarning : List Text :=
  Style.boxed
    "//   THIS FILE IS AUTOMATICALLY GENERATED. ANY CHANGES WOULD BE DISCARDED //".toList

/-- The lines of the matcher of a trie. -/
def Style.matcher (s : Style) (t : Trie) : List Text :=
  s.banner ++ [] :: generatedWarning ++ s.switchLines (.ofTrie t)

/-- The events of writing the matcher of a trie: one for each case, in order. -/
def Trie.matcherEvents (t : Trie) : List Event :=
  t.children.map fun p => .rendered p.1 p.2.nodeCount p.2.wordCount

end KeywordSwitch
