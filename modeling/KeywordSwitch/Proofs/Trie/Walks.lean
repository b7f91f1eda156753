import KeywordSwitch.Proofs.Trie.Words
import Mathlib.Data.Set.Basic

/-!
# Walks through a growing trie

A walk starts at the empty trie, adds words below the current node and enters nodes
below it. Whatever it has done before, the current node spells a set of words that can
be told from the steps alone: an insertion adds a word to the set, and entering a path
keeps what the words have after that path.

## Implementation notes

A path that does not exist is not entered, and the current node stays as it is. The set
of words says by itself which paths exist, so the steps on sets refer to no trie.
-/

namespace KeywordSwitch

/-- In a canonical level each listed node is the one that its character leads to. -/
theorem Branches.child?_of_mem_toList {b : Branches} (canonical : b.Canonical) {c : Char} {n : Trie}
    (mem : (c, n) ∈ b.toList) : b.child? c = some n := by
  induction b with
  | nil => cases mem
  | cons d terminal below rest _ ih =>
      obtain ⟨-, hRest, above, -⟩ := canonical
      rw [toList, List.mem_cons] at mem
      rcases mem with first | later
      · cases first
        rw [child?, if_pos rfl]
      · have after : d < c := lt_of_above above (List.mem_map_of_mem later)
        rw [child?, if_neg (Char.ne_of_lt after).symm]
        exact ih hRest later

namespace Trie

/-- The trie has the paths, the marks and the entries that a set of words asks for. -/
structure Represents (t : Trie) (words : Set Text) : Prop where
  /-- The paths are the empty one and the beginnings of words. -/
  isSome_descend?_iff (p : Text) : (t.descend? p).isSome = true ↔ p = [] ∨ ∃ w ∈ words, p <+: w
  /-- The marked nodes are those at which a word ends. -/
  terminal_iff {p : Text} {n : Trie} (h : t.descend? p = some n) : n.terminal = true ↔ p ∈ words
  /-- A node contains what words have after the path to it. -/
  contains_iff {p : Text} {n : Trie} (h : t.descend? p = some n) (w : Text) :
    n.contains w = true ↔ p ++ w ∈ words
  /-- The entries of a node are the characters with which words go on after the path to it. -/
  mem_chars_iff {p : Text} {n : Trie} (h : t.descend? p = some n) (c : Char) :
    c ∈ n.children.map Prod.fst ↔ ∃ w ∈ words, p ++ [c] <+: w
  /-- Each entry leads to the node at its character. -/
  descend?_of_mem_children {p : Text} {n : Trie} (h : t.descend? p = some n) {c : Char} {m : Trie}
    (mem : (c, m) ∈ n.children) : t.descend? (p ++ [c]) = some m
  /-- The characters of the entries ascend strictly. -/
  ascending {p : Text} {n : Trie} (h : t.descend? p = some n) :
    (n.children.map Prod.fst).Pairwise (· < ·)
  /-- If there is a word at all, a word ends at or below each node. -/
  live (filled : words.Nonempty) {p : Text} {n : Trie} (h : t.descend? p = some n) :
    ∃ q m, n.descend? q = some m ∧ m.terminal = true

open Classical in
/-- The words of the current node after a step: one word more, or what the words have after a path.
A path with which no word begins is not entered. -/
noncomputable def wordsAfter (words : Set Text) : Step → Set Text
  | .insert w => {v | v = w ∨ v ∈ words}
  | .enter path => if path = [] ∨ ∃ w ∈ words, path <+: w then {w | path ++ w ∈ words} else words

/-- The words of the current node after a walk that starts at the empty trie. -/
noncomputable def wordsOf (steps : List Step) : Set Text :=
  steps.foldl wordsAfter ∅

/-- The trie is canonical and contains the words of the set and no other. -/
structure Spells (t : Trie) (words : Set Text) : Prop where
  canonical : t.Canonical
  contains_iff (w : Text) : t.contains w = true ↔ w ∈ words

variable {t : Trie} {words : Set Text} {p : Text}

theorem exists_mem_prefix_iff : (∃ w ∈ words, p <+: w) ↔ ∃ v, p ++ v ∈ words := by
  constructor
  · rintro ⟨_, mem, v, rfl⟩
    exact ⟨v, mem⟩
  · rintro ⟨v, mem⟩
    exact ⟨p ++ v, mem, List.prefix_append p v⟩

theorem contains_eq_true_iff {w : Text} :
    t.contains w = true ↔ ∃ m, t.descend? w = some m ∧ m.terminal = true := by
  rw [contains, Option.any_eq_true]

namespace Spells

theorem contains_append_iff (spells : t.Spells words) {n : Trie} (h : t.descend? p = some n)
    (w : Text) : n.contains w = true ↔ p ++ w ∈ words := by
  rw [← Trie.contains_append h, spells.contains_iff]

theorem isSome_descend?_iff (spells : t.Spells words) (p : Text) :
    (t.descend? p).isSome = true ↔ p = [] ∨ ∃ w ∈ words, p <+: w := by
  by_cases empty : p = []
  · subst empty
    simp
  · rw [Trie.isSome_descend?_iff spells.canonical empty, exists_mem_prefix_iff,
      or_iff_right empty]
    simp only [spells.contains_iff]

/-- Every node has a word at or below it, unless there is no word at all. -/
theorem exists_contains_below (spells : t.Spells words) (filled : words.Nonempty) {n : Trie}
    (h : t.descend? p = some n) : ∃ w, n.contains w = true := by
  cases p with
  | nil =>
      cases h
      obtain ⟨w, mem⟩ := filled
      exact ⟨w, (spells.contains_iff w).mpr mem⟩
  | cons c p =>
      apply exists_contains (canonical_of_descend? spells.canonical h)
      exact live_of_descend? spells.canonical (List.cons_ne_nil c p) h

theorem represents (spells : t.Spells words) : t.Represents words where
  isSome_descend?_iff := spells.isSome_descend?_iff
  terminal_iff := by
    intro p n h
    have ends := spells.contains_append_iff h []
    rwa [contains_nil, List.append_nil] at ends
  contains_iff := by
    intro p n h
    exact spells.contains_append_iff h
  mem_chars_iff := by
    intro p n h c
    rw [exists_mem_prefix_iff]
    calc
      c ∈ n.children.map Prod.fst ↔ (n.branches.child? c).isSome = true := Branches.mem_chars_iff
      _ ↔ ∃ v, t.contains (p ++ c :: v) = true := isSome_child?_iff spells.canonical h c
      _ ↔ ∃ v, p ++ [c] ++ v ∈ words := by
        simp only [spells.contains_iff, List.append_assoc, List.singleton_append]
  descend?_of_mem_children := by
    intro p n h c m mem
    have canonical := canonical_of_descend? spells.canonical h
    rw [descend?_append, h, Option.bind_some, descend?_cons,
      Branches.child?_of_mem_toList canonical mem]
    rfl
  ascending := by
    intro p n h
    exact Branches.pairwise_chars (canonical_of_descend? spells.canonical h)
  live := by
    intro filled p n h
    obtain ⟨q, hq⟩ := spells.exists_contains_below filled h
    exact ⟨q, contains_eq_true_iff.mp hq⟩

/-- A step keeps the trie canonical and takes its words to those after the step. -/
theorem step (spells : t.Spells words) (s : Step) : (t.step s).Spells (wordsAfter words s) := by
  cases s with
  | insert w =>
      refine ⟨spells.canonical.insert w, fun v => ?_⟩
      change (t.insert w).contains v = true ↔ v = w ∨ v ∈ words
      rw [contains_insert spells.canonical, spells.contains_iff]
  | enter path =>
      have exists_iff := spells.isSome_descend?_iff path
      cases h : t.descend? path with
      | some n =>
          have enters : path = [] ∨ ∃ w ∈ words, path <+: w := exists_iff.mp (by rw [h]; rfl)
          rw [wordsAfter, if_pos enters, Trie.step, h]
          exact ⟨canonical_of_descend? spells.canonical h, spells.contains_append_iff h⟩
      | none =>
          have stays : ¬ (path = [] ∨ ∃ w ∈ words, path <+: w) := by
            rw [← exists_iff, h]
            exact Bool.false_ne_true
          rw [wordsAfter, if_neg stays, Trie.step, h]
          exact spells

theorem foldl_step (spells : t.Spells words) (steps : List Step) :
    (steps.foldl Trie.step t).Spells (steps.foldl wordsAfter words) := by
  induction steps generalizing t words with
  | nil => exact spells
  | cons s steps ih => exact ih (spells.step s)

end Spells

theorem spells_empty : (∅ : Trie).Spells ∅ where
  canonical := canonical_empty
  contains_iff w := by simp

/-- After any walk the current node represents the words that the steps leave. -/
theorem walk_represents (steps : List Step) : (walk steps).Represents (wordsOf steps) :=
  (spells_empty.foldl_step steps).represents

example : (walk [.insert "if".toList, .enter ['i'], .insert "n".toList, .enter ['x']]).contains ['f'] =
    true := by decide

end Trie

end KeywordSwitch
