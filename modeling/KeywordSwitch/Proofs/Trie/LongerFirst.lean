import KeywordSwitch.Proofs.Trie.Words
import Mathlib.Data.List.Lex

/-!
# The words of a trie, longer ones first

Walking through a trie in order and naming each word when its node is left lists every
word once. A word stands after all words that go on from it, and words of which neither
begins the other stand in ascending order.
-/

namespace KeywordSwitch

/-- The order in which the words of a trie are left: a word comes before its beginnings, and of two
words that begin differently the smaller one comes first. -/
def Text.LongerFirst (v w : Text) : Prop :=
  (w <+: v ∧ w ≠ v) ∨ (¬ v <+: w ∧ ¬ w <+: v ∧ List.Lex (· < ·) v w)

namespace Text

variable {u v w : Text} {c d : Char}

theorem longerFirst_append (hv : v ≠ []) (w : Text) : LongerFirst (w ++ v) w :=
  Or.inl ⟨List.prefix_append w v, by simpa using hv⟩

/-- Words that differ in a character stand in the order of that character. -/
theorem longerFirst_of_lt (before : c < d) (u v w : Text) :
    LongerFirst (u ++ c :: v) (u ++ d :: w) := by
  have different : c ≠ d := Char.ne_of_lt before
  refine Or.inr ⟨?_, ?_, ?_⟩
  · rw [List.prefix_append_right_inj, List.cons_prefix_cons]
    exact fun h => different h.1
  · rw [List.prefix_append_right_inj, List.cons_prefix_cons]
    exact fun h => different h.1.symm
  · exact List.Lex.append_left (· < ·) (.rel before) u

theorem LongerFirst.asymm (first : LongerFirst v w) : ¬ LongerFirst w v := by
  rintro (⟨shorter, different⟩ | ⟨apart, -, smaller⟩)
  · obtain ⟨longer, -⟩ | ⟨apart, -, -⟩ := first
    · exact different (shorter.eq_of_length_le longer.length_le)
    · exact apart shorter
  · obtain ⟨longer, -⟩ | ⟨-, -, greater⟩ := first
    · exact apart longer
    · exact List.lt_asymm smaller greater

end Text

namespace Branches

/-- The words below the node of `word`, each one when its node is left. -/
def wordsLeft (word : Text) : Branches → List Text
  | .nil => []
  | .cons c terminal below rest =>
      below.wordsLeft (word ++ [c]) ++ (if terminal then [word ++ [c]] else []) ++
        rest.wordsLeft word

variable {b below rest : Branches} {terminal : Bool} {c : Char} {word v : Text}

/-- A word goes through the first entry or through a later one. -/
theorem contains_cons_iff (above : rest.Above c) (d : Char) (p : Text) :
    (⟨false, cons c terminal below rest⟩ : Trie).contains (d :: p) = true ↔
      d = c ∧ (⟨terminal, below⟩ : Trie).contains p = true ∨
        (⟨false, rest⟩ : Trie).contains (d :: p) = true := by
  rw [Trie.contains_cons, Trie.contains_cons, child?]
  by_cases same : d = c
  · subst same
    simp [child?_eq_none_of_above above]
  · simp [same]

/-- A word ends at the node itself or goes on below it. -/
theorem contains_node_iff (p : Text) :
    (⟨terminal, below⟩ : Trie).contains p = true ↔
      p = [] ∧ terminal = true ∨ p ≠ [] ∧ (⟨false, below⟩ : Trie).contains p = true := by
  cases p with
  | nil => simp
  | cons d p => simp

/-- The words listed are those that the level contains, behind the word of the node. -/
theorem mem_wordsLeft_iff (canonical : b.Canonical) :
    v ∈ b.wordsLeft word ↔
      ∃ p, p ≠ [] ∧ (⟨false, b⟩ : Trie).contains p = true ∧ v = word ++ p := by
  induction b generalizing word with
  | nil =>
      simp only [wordsLeft, List.not_mem_nil, false_iff]
      rintro ⟨p, filled, mem, -⟩
      obtain ⟨d, p, rfl⟩ := List.exists_cons_of_ne_nil filled
      simp [child?] at mem
  | cons c terminal below rest ihBelow ihRest =>
      obtain ⟨hBelow, hRest, above, -⟩ := canonical
      simp only [wordsLeft, List.mem_append, ihBelow hBelow, ihRest hRest]
      constructor
      · rintro ((⟨p, filled, mem, rfl⟩ | ends) | ⟨p, filled, mem, rfl⟩)
        · refine ⟨c :: p, List.cons_ne_nil c p, ?_, by simp⟩
          exact (contains_cons_iff above c p).mpr
            (Or.inl ⟨rfl, (contains_node_iff p).mpr (Or.inr ⟨filled, mem⟩)⟩)
        · cases terminal with
          | false => simp at ends
          | true =>
              refine ⟨[c], List.cons_ne_nil c [], ?_, by simpa using ends⟩
              exact (contains_cons_iff above c []).mpr (Or.inl ⟨rfl, rfl⟩)
        · obtain ⟨d, p, rfl⟩ := List.exists_cons_of_ne_nil filled
          exact ⟨d :: p, filled, (contains_cons_iff above d p).mpr (Or.inr mem), rfl⟩
      · rintro ⟨p, filled, mem, rfl⟩
        obtain ⟨d, p, rfl⟩ := List.exists_cons_of_ne_nil filled
        obtain ⟨rfl, node⟩ | later := (contains_cons_iff above d p).mp mem
        · obtain ⟨rfl, rfl⟩ | ⟨filled, mem⟩ := (contains_node_iff p).mp node
          · exact Or.inl (Or.inr (by simp))
          · exact Or.inl (Or.inl ⟨p, filled, mem, by simp⟩)
        · exact Or.inr ⟨d :: p, filled, later, rfl⟩

/-- The words of later entries go on from the node with later characters. -/
theorem exists_of_mem_wordsLeft_of_above (canonical : rest.Canonical) (above : rest.Above c)
    (mem : v ∈ rest.wordsLeft word) : ∃ d p, c < d ∧ v = word ++ d :: p := by
  obtain ⟨p, filled, inside, rfl⟩ := (mem_wordsLeft_iff canonical).mp mem
  obtain ⟨d, p, rfl⟩ := List.exists_cons_of_ne_nil filled
  rw [Trie.contains_cons, Option.any_eq_true] at inside
  obtain ⟨n, entry, -⟩ := inside
  exact ⟨d, p, lt_of_above above (mem_chars_iff.mpr (by rw [entry]; rfl)), rfl⟩

/-- Each word stands after all words that go on from it, and else the smaller one stands first. -/
theorem pairwise_wordsLeft (canonical : b.Canonical) (word : Text) :
    (b.wordsLeft word).Pairwise Text.LongerFirst := by
  induction b generalizing word with
  | nil => exact List.Pairwise.nil
  | cons c terminal below rest ihBelow ihRest =>
      obtain ⟨hBelow, hRest, above, -⟩ := canonical
      have through : ∀ v ∈ below.wordsLeft (word ++ [c]) ++ (if terminal then [word ++ [c]] else []),
          ∃ p, v = word ++ c :: p := by
        intro v mem
        rcases List.mem_append.mp mem with mem | mem
        · obtain ⟨p, -, -, rfl⟩ := (mem_wordsLeft_iff hBelow).mp mem
          exact ⟨p, by simp⟩
        · cases terminal with
          | false => simp at mem
          | true => exact ⟨[], by simpa using mem⟩
      rw [wordsLeft, List.pairwise_append, List.pairwise_append]
      refine ⟨⟨ihBelow hBelow (word ++ [c]), ?_, ?_⟩, ihRest hRest word, ?_⟩
      · cases terminal <;> simp
      · intro v mem w own
        cases terminal with
        | false => simp at own
        | true =>
            obtain ⟨p, filled, -, rfl⟩ := (mem_wordsLeft_iff hBelow).mp mem
            obtain rfl : w = word ++ [c] := by simpa using own
            exact Text.longerFirst_append filled (word ++ [c])
      · intro v mem w later
        obtain ⟨p, rfl⟩ := through v mem
        obtain ⟨d, q, before, rfl⟩ := exists_of_mem_wordsLeft_of_above hRest above later
        exact Text.longerFirst_of_lt before word p q

end Branches

end KeywordSwitch
