import KeywordSwitch.Switch.Code
import KeywordSwitch.Text.Blank

/-!
# The grammar of switches

Which kept lines spell which switch, without regard to how they are read. A line is
one symbol of the grammar; only tests, assignments and labels carry data.

## Implementation notes

A phrase is spelled together with the statements after it, as `Code` has them. What
may follow the block of a branch is a phrase of its own: its first line tells
whether the branch goes on, and a line that starts with `else if (` always does so.
-/

namespace KeywordSwitch

namespace Cond

/-- What a line says before the character that it tests for. -/
def opening : Cond → Text
  | peek _ => "if (PeekChar() == '".toList
  | peekNext _ => "&& PeekNextChar() == '".toList

/-- The line of a test. The last test of a condition closes its parenthesis. -/
def line (test : Cond) (last : Bool) : Text :=
  test.opening ++ test.char :: if last then "')".toList else "'".toList

/-- The lines of a condition. -/
def lines : List Cond → List Text
  | [] => []
  | test :: tests => test.line tests.isEmpty :: lines tests

end Cond

namespace Switch

/-- The line assigns `token`: that is what follows its first ` = `, without the semicolons at its
end. -/
structure Assigns (line token : Text) : Prop where
  notIf : ¬ "if (".toList <+: line
  split : ∃ left right, line = left ++ (" = ".toList ++ right) ∧
    (∀ left' right', line = left' ++ (" = ".toList ++ right') → left.length ≤ left'.length) ∧
    token = Text.dropEndWhile (· = ';') right

/-- What some lines in a row may be. -/
inductive Phrase where
  /-- Statements. -/
  | statements (code : Code)
  /-- What follows the block of a branch: the code that runs in its stead, then the statements
  after the branch. -/
  | afterBlock (otherwise next : Code)
deriving DecidableEq, Repr

/-- The lines spell the phrase. -/
inductive Spells : List Text → Phrase → Prop
  | done : Spells [] (.statements .done)
  | advance {next : Code} {lines : List Text} (rest : Spells lines (.statements next)) :
      Spells ("AdvanceChars();".toList :: lines) (.statements (.advance next))
  | assign {line token : Text} {next : Code} {lines : List Text} (assigns : Assigns line token)
      (rest : Spells lines (.statements next)) :
      Spells (line :: lines) (.statements (.assign token next))
  | block {body next : Code} {inner lines : List Text} (within : Spells inner (.statements body))
      (rest : Spells lines (.statements next)) :
      Spells (['{'] :: (inner ++ ['}'] :: lines)) (.statements (.block body next))
  | branch {c : Char} {tests : List Cond} {matched otherwise next : Code} {inner lines : List Text}
      (within : Spells inner (.statements matched))
      (rest : Spells lines (.afterBlock otherwise next)) :
      Spells (Cond.lines (.peek c :: tests) ++ ['{'] :: (inner ++ ['}'] :: lines))
        (.statements (.branch (.peek c :: tests) matched otherwise next))
  | noElse {next : Code} {lines : List Text}
      (first : ∀ line ∈ lines.head?, ¬ "else if (".toList <+: line)
      (rest : Spells lines (.statements next)) : Spells lines (.afterBlock .done next)
  | elseBlock {otherwise next : Code} {inner lines : List Text}
      (within : Spells inner (.statements otherwise)) (rest : Spells lines (.statements next)) :
      Spells ("else".toList :: ['{'] :: (inner ++ ['}'] :: lines)) (.afterBlock otherwise next)
  | elseIf {c : Char} {tests : List Cond} {matched otherwise next : Code} {head : Text}
      {more inner lines : List Text} (condition : Cond.lines (.peek c :: tests) = head :: more)
      (within : Spells inner (.statements matched))
      (rest : Spells lines (.afterBlock otherwise next)) :
      Spells (("else ".toList ++ head) :: (more ++ ['{'] :: (inner ++ ['}'] :: lines)))
        (.afterBlock (.branch (.peek c :: tests) matched otherwise .done) next)

/-- The lines spell the cases of the switch in turn. The label of a case is the first character of
the text between its quotes. -/
inductive SpellsSwitch : List Text → Switch → Prop
  | nil : SpellsSwitch [] []
  | case {label : Char} {more : Text} {code : Code} {inner lines : List Text} {w : Switch}
      (within : Spells inner (.statements code)) (rest : SpellsSwitch lines w) :
      SpellsSwitch
        (("case '".toList ++ label :: (more ++ "':".toList)) :: (inner ++ "break;".toList :: lines))
        (⟨label, code⟩ :: w)

end Switch

end KeywordSwitch
