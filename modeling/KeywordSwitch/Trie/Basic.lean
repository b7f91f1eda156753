import KeywordSwitch.KeywordSet.Basic

/-!
# Tries

A trie spells words from its top node downwards, one character a step, and marks
the nodes at which a word ends. Below each node the characters are distinct and in
ascending order, so a trie depends only on the set of words put into it.

## Implementation notes

The nodes below a node are one inductive type: an entry holds its character, its
mark, what lies below it and the entries after it. Every operation is then a plain
structural recursion, with one hypothesis for the level below and one for the rest
of the level.
-/

namespace KeywordSwitch

/-- The entries below a node of a trie. -/
inductive Branches where
  /-- No entries. -/
  | nil
  /-- The entry of the character `c`, then the entries after it. -/
  | cons (c : Char) (terminal : Bool) (below rest : Branches)
deriving DecidableEq, Repr

/-- A node of a trie with all that lies below it. -/
structure Trie where
  /-- Whether a word ends at this node. -/
  terminal : Bool := false
  /-- The entries of the next characters. -/
  branches : Branches := .nil
deriving DecidableEq, Repr

namespace Branches

/-- The entries that spell one word and nothing else. -/
def ofWord : Text → Branches
  | [] => nil
  | c :: w => cons c w.isEmpty (ofWord w) nil

/-- Adds the entries that spell a word, each in its place. -/
def insert : Branches → Text → Branches
  | b, [] => b
  | nil, c :: w => ofWord (c :: w)
  | cons d terminal below rest, c :: w =>
      if c < d then cons c w.isEmpty (ofWord w) (cons d terminal below rest)
      else if c = d then cons d (terminal || w.isEmpty) (below.insert w) rest
      else cons d terminal below (rest.insert (c :: w))

/-- The characters of the entries with the nodes they lead to, in order. -/
def toList : Branches → List (Char × Trie)
  | nil => []
  | cons c terminal below rest => (c, ⟨terminal, below⟩) :: rest.toList

/-- The node that the entry of `c` leads to. -/
def child? : Branches → Char → Option Trie
  | nil, _ => none
  | cons d terminal below rest, c => if c = d then some ⟨terminal, below⟩ else rest.child? c

/-- The number of entries at this level and at all levels below. -/
def size : Branches → Nat
  | nil => 0
  | cons _ _ below rest => 1 + below.size + rest.size

/-- The number of entries at which a word ends, at this level and below. -/
def wordCount : Branches → Nat
  | nil => 0
  | cons _ terminal below rest => terminal.toNat + below.wordCount + rest.wordCount

/-- One line for each entry: its character, indented by its level, and a star if a word ends there.
The entries below an entry follow it directly. -/
def outline (level : Nat) : Branches → List Text
  | nil => []
  | cons c terminal below rest =>
      (List.replicate (2 * level) ' ' ++ c :: if terminal then [' ', '*'] else []) ::
        (below.outline (level + 1) ++ rest.outline level)

end Branches

namespace Trie

instance : EmptyCollection Trie := ⟨{}⟩

instance : Inhabited Trie := ⟨∅⟩

/-- Adds a word below this node; the empty word ends at the node itself. -/
def insert (t : Trie) (w : Text) : Trie where
  terminal := t.terminal || w.isEmpty
  branches := t.branches.insert w

/-- The trie of the words of a list. -/
def ofList (ws : List Text) : Trie :=
  ws.foldl insert ∅

/-- The next characters with the nodes they lead to, in ascending order. -/
def children (t : Trie) : List (Char × Trie) :=
  t.branches.toList

/-- The node at the end of a path from this node. -/
def descend? (t : Trie) : Text → Option Trie
  | [] => some t
  | c :: path => (t.branches.child? c).bind (·.descend? path)

/-- Whether a word leads from this node to a marked node. -/
def contains (t : Trie) (w : Text) : Bool :=
  (t.descend? w).any (·.terminal)

/-- The number of nodes below this node. -/
def size (t : Trie) : Nat :=
  t.branches.size

/-- The number of nodes, this node included. -/
def nodeCount (t : Trie) : Nat :=
  t.size + 1

/-- The number of marked nodes, this node included. -/
def wordCount (t : Trie) : Nat :=
  t.terminal.toNat + t.branches.wordCount

/-- The nodes below this node as an indented text, one line a node. -/
def outline (t : Trie) : Text :=
  Text.unlines (t.branches.outline 0)

/-- One step of a walk through a growing trie. -/
inductive Step where
  /-- Adds a word below the current node. -/
  | insert (w : Text)
  /-- Makes the node at the end of a path the current node, if there is one. -/
  | enter (path : Text)
deriving DecidableEq, Repr

/-- The current node after a step. -/
def step (t : Trie) : Step → Trie
  | .insert w => t.insert w
  | .enter path => (t.descend? path).getD t

/-- The current node after a walk that starts at the empty trie. -/
def walk (steps : List Step) : Trie :=
  steps.foldl step ∅

@[simp] theorem ofList_nil : ofList [] = ∅ := rfl

@[simp] theorem ofList_concat (ws : List Text) (w : Text) :
    ofList (ws ++ [w]) = (ofList ws).insert w := by
  simp [ofList]

@[simp] theorem descend?_nil (t : Trie) : t.descend? [] = some t := rfl

@[simp] theorem descend?_cons (t : Trie) (c : Char) (path : Text) :
    t.descend? (c :: path) = (t.branches.child? c).bind (·.descend? path) := rfl

end Trie

/-- The trie of the keywords of a set. -/
def KeywordSet.trie (s : KeywordSet) : Trie :=
  Trie.ofList s.words

example : (Trie.ofList ["on".toList, "ifx".toList, "if".toList]).outline =
    "i\n  f *\n    x *\no\n  n *\n".toList := by decide

end KeywordSwitch
