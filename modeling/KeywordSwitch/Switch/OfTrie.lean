import KeywordSwitch.Switch.Code
import KeywordSwitch.Trie.Basic

/-!
# The switch of a trie

The switch recognises the words of a trie one character at a time. A run of nodes
with a single unmarked child becomes one branch that tests all its characters
before anything is consumed. At a marked node with further entries the longer
words are tried first, and the word of the node is assigned if none of them fits.

## Implementation notes

An arm is a way on from a node: the characters that it asks for and the code that
follows them. The collapse of single entries is the only place where an arm gets
more than one character.
-/

namespace KeywordSwitch

/-- A way on from a node of a trie. -/
structure Arm where
  /-- The characters that have to follow. -/
  path : Text
  /-- The statements to run once they have followed. -/
  code : Code
deriving DecidableEq, Repr

/-- Branches for the arms in turn, the last one falling through to `final`. -/
def Code.select : List Arm → Code → Code
  | [], final => final
  | arm :: arms, final => .branch (Cond.ofPath arm.path) arm.code (select arms final) .done

/-- Consumes the last character of `word`, takes one of the arms, and assigns the word if it ends
here and no arm fits. -/
def Code.ofArms (word : Text) (terminal : Bool) (arms : List Arm) : Code :=
  .advance (.select arms (if terminal then .assign word .done else .done))

/-- The arm of the entry for `c`: an unmarked entry with one way on is joined with it. -/
def Arm.extend (c : Char) (word : Text) : Bool → List Arm → Arm
  | false, [arm] => ⟨c :: arm.path, arm.code⟩
  | terminal, arms => ⟨[c], .ofArms word terminal arms⟩

/-- The arms of all entries below the node that `word` leads to. -/
def Branches.arms (word : Text) : Branches → List Arm
  | .nil => []
  | .cons c terminal below rest =>
      .extend c (word ++ [c]) terminal (below.arms (word ++ [c])) :: rest.arms word

/-- The case of the entry for `c` at the top of a trie. -/
def Case.ofChild (c : Char) (t : Trie) : Case where
  label := c
  code := .ofArms [c] t.terminal (t.branches.arms [c])

/-- One case for each first character, in ascending order. The tokens are the bare words. -/
def Switch.ofTrie (t : Trie) : Switch :=
  t.children.map fun p => .ofChild p.1 p.2

/-- There is one arm for each entry, whether collapsed or not. -/
theorem Branches.length_arms (word : Text) (b : Branches) :
    (b.arms word).length = b.toList.length := by
  induction b generalizing word with
  | nil => rfl
  | cons c terminal below rest _ ih => simp [arms, toList, ih]

end KeywordSwitch
