import KeywordSwitch.Text.Quoted

/-!
# The log

Generation reports what it does as a list of events, from which the texts of a log
are derived.
-/

namespace KeywordSwitch

/-- How much detail a log record gives, or a log asks for. -/
inductive Level where
  /-- Main steps. -/
  | debug
  /-- Main steps and the parts they consist of. -/
  | trace
deriving DecidableEq, Repr

/-- The name of a level in a log. -/
def Level.name : Level → Text
  | .debug => "DEBUG".toList
  | .trace => "TRACE".toList

/-- What generation reports. -/
inductive Event where
  /-- A trie has been built from a keyword set. -/
  | built (keywords nodes firsts : Nat)
  /-- The outline of the trie. -/
  | outlined (outline : Text)
  /-- The case for `label` has been written, from a subtree with so many nodes and words. -/
  | rendered (label : Char) (nodes words : Nat)
  /-- A file has been written. -/
  | wrote (path : Text)
deriving DecidableEq, Repr

namespace Event

/-- Single cases are details, all else is a main step. -/
def level : Event → Level
  | rendered .. => .trace
  | _ => .debug

/-- The text of the log record. -/
def text : Event → Text
  | built keywords nodes firsts =>
      Text.decimal keywords ++ " keywords, ".toList ++ Text.decimal nodes ++
        " trie nodes, ".toList ++ Text.decimal firsts ++ " first characters".toList
  | outlined outline => "keyword trie:\n".toList ++ outline
  | rendered label nodes words =>
      "case ".toList ++ Text.quotedChar label ++ ": ".toList ++ Text.decimal nodes ++
        " nodes, ".toList ++ Text.decimal words ++ " keywords".toList
  | wrote path => "wrote ".toList ++ path

/-- Whether a log with this level of detail keeps the record. -/
def isKept (max : Level) (e : Event) : Bool :=
  match max, e.level with
  | .debug, .trace => false
  | _, _ => true

end Event

end KeywordSwitch
