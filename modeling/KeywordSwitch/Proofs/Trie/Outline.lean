import KeywordSwitch.Proofs.Text.Ascending
import KeywordSwitch.Proofs.Trie.Equality
import KeywordSwitch.Proofs.Trie.Nodes
import Mathlib.Data.List.Infix
import Mathlib.Data.List.Sort

/-!
# The outline of a trie

The outline of a trie has one line for each non-empty beginning of its words, in ascending
order: the last character of the beginning, two spaces in front of it for each character
before, and a star behind it if the beginning is a word itself.

Characters that are neither spaces nor line feeds can be told from the lines, and the
levels from the indentation. So the outline of a keyword set tells its keywords.

## Implementation notes

What an entry has below it ends at the first line that is indented no further than the
line of the entry. The comparison of two outlines therefore goes along with the lines
that follow them, of which only the first matters.
-/

namespace KeywordSwitch

namespace Text

/-- The non-empty beginnings of the words of a list in ascending order, each once. -/
def ascendingBeginnings (ws : List Text) : List Text :=
  (((ws.flatMap List.inits).filter (· ≠ [])).mergeSort le).eraseDups

/-- The line for a beginning of words; `isWord` tells whether it is a word itself. -/
def outlineLine (p : Text) (isWord : Bool) : Text :=
  List.replicate (2 * (p.length - 1)) ' ' ++ p.getLast?.toList ++
    if isWord then " *".toList else []

/-- The number of spaces at the start of a line. -/
def indentation (line : Text) : Nat :=
  (line.takeWhile (· = ' ')).length

variable {ws lines lines' : List Text} {p t : Text} {c : Char}

theorem pairwise_ascendingBeginnings (ws : List Text) :
    (ascendingBeginnings ws).Pairwise (List.Lex (· < ·)) :=
  pairwise_lex_eraseDups (pairwise_mergeSort_le _)

theorem mem_ascendingBeginnings : p ∈ ascendingBeginnings ws ↔ p ≠ [] ∧ ∃ w ∈ ws, p <+: w := by
  simp only [ascendingBeginnings, List.mem_eraseDups, List.mem_mergeSort, List.mem_filter,
    List.mem_flatMap, List.mem_inits, decide_eq_true_eq]
  exact and_comm

theorem indentation_replicate_append (other : c ≠ ' ') (n : Nat) (t : Text) :
    indentation (List.replicate n ' ' ++ c :: t) = n := by
  have spaces : ∀ d ∈ List.replicate n ' ', decide (d = ' ') = true := by
    intro d mem
    exact decide_eq_true (List.eq_of_mem_replicate mem)
  rw [indentation, List.takeWhile_append_of_pos spaces,
    List.takeWhile_cons_of_neg (by simpa using other), List.append_nil, List.length_replicate]

/-- Splitting at the line feeds gives the lines back, and an empty text after the last one. -/
theorem splitOn_unlines (single : ∀ line ∈ lines, '\n' ∉ line) :
    (unlines lines).splitOn '\n' = lines ++ [[]] := by
  induction lines with
  | nil => rfl
  | cons line lines ih =>
      obtain ⟨here, later⟩ := List.forall_mem_cons.mp single
      rw [unlines_cons, List.splitOn_append_cons_self_of_not_mem here, ih later, List.cons_append]

theorem eq_of_unlines_eq (single : ∀ line ∈ lines, '\n' ∉ line)
    (single' : ∀ line ∈ lines', '\n' ∉ line) (same : unlines lines = unlines lines') :
    lines = lines' := by
  have split := congrArg (List.splitOn '\n') same
  rw [splitOn_unlines single, splitOn_unlines single'] at split
  exact List.append_cancel_right split

end Text

namespace Branches

/-- No entry, at this level or below, is that of the space. -/
def Solid : Branches → Prop
  | nil => True
  | cons c _ below rest => c ≠ ' ' ∧ below.Solid ∧ rest.Solid

variable {a b : Branches} {c : Char} {terminal : Bool} {word : Text} {level : Nat}
  {after after' : List Text}

/-- The lines of an outline are those for the paths to the nodes. -/
theorem outline_eq_map_nodes (b : Branches) (word : Text) :
    b.outline word.length = (b.nodes word).map fun q => Text.outlineLine q.1 q.2.terminal := by
  induction b generalizing word with
  | nil => rfl
  | cons c terminal below rest ihBelow ihRest =>
      have level : (word ++ [c]).length = word.length + 1 := by simp
      have deeper := ihBelow (word ++ [c])
      rw [level] at deeper
      rw [outline, nodes, deeper, ihRest, List.map_cons, List.map_append]
      simp [Text.outlineLine]

theorem solid_of_nodes (visible : ∀ q ∈ b.nodes word, ' ' ∉ q.1) : b.Solid := by
  induction b generalizing word with
  | nil => trivial
  | cons c terminal below rest ihBelow ihRest =>
      simp only [nodes, List.forall_mem_cons, List.forall_mem_append] at visible
      obtain ⟨here, below, later⟩ := visible
      refine ⟨?_, ihBelow below, ihRest later⟩
      rintro rfl
      exact here (List.mem_append_right word List.mem_cons_self)

/-- After the lines of a level the indentation falls below that of the next level. -/
theorem indentation_head_outline (solid : b.Solid)
    (shallow : ∀ line ∈ after.head?, Text.indentation line < 2 * level) :
    ∀ line ∈ (b.outline level ++ after).head?, Text.indentation line < 2 * (level + 1) := by
  cases b with
  | nil =>
      intro line mem
      have less := shallow line mem
      omega
  | cons c terminal below rest =>
      intro line mem
      obtain rfl := Option.mem_some.mp mem
      rw [Text.indentation_replicate_append solid.1]
      omega

/-- Outlines tell the levels, whatever less indented lines follow them. -/
theorem eq_of_outline_append (ha : a.Solid) (hb : b.Solid)
    (shallow : ∀ line ∈ after.head?, Text.indentation line < 2 * level)
    (shallow' : ∀ line ∈ after'.head?, Text.indentation line < 2 * level)
    (same : a.outline level ++ after = b.outline level ++ after') : a = b ∧ after = after' := by
  induction a generalizing b level after after' with
  | nil =>
      cases b with
      | nil => exact ⟨rfl, same⟩
      | cons d terminal below rest =>
          have less := shallow _ (by rw [show after = _ from same]; rfl)
          rw [Text.indentation_replicate_append hb.1] at less
          exact absurd less (Nat.lt_irrefl _)
  | cons c terminal below rest ihBelow ihRest =>
      cases b with
      | nil =>
          have less := shallow' _ (by rw [show after' = _ from same.symm]; rfl)
          rw [Text.indentation_replicate_append ha.1] at less
          exact absurd less (Nat.lt_irrefl _)
      | cons d terminal' below' rest' =>
          obtain ⟨-, solidBelow, solidRest⟩ := ha
          obtain ⟨-, solidBelow', solidRest'⟩ := hb
          simp only [outline, List.cons_append, List.append_assoc, List.cons.injEq,
            List.append_cancel_left_eq] at same
          obtain ⟨⟨sameChar, star⟩, others⟩ := same
          have sameMark : terminal = terminal' := by
            cases terminal <;> cases terminal' <;> simp at star ⊢
          obtain ⟨sameBelow, others⟩ := ihBelow solidBelow solidBelow'
            (indentation_head_outline solidRest shallow)
            (indentation_head_outline solidRest' shallow') others
          obtain ⟨sameRest, ends⟩ := ihRest solidRest solidRest' shallow shallow' others
          rw [sameChar, sameMark, sameBelow, sameRest]
          exact ⟨rfl, ends⟩

end Branches

namespace Trie

variable {ws : List Text} {p : Text} {n : Trie}

/-- The paths to the nodes are the beginnings of the words, in the same order. -/
theorem map_fst_nodes_ofList (ws : List Text) :
    (ofList ws).nodes.map Prod.fst = Text.ascendingBeginnings ws := by
  refine (Branches.pairwise_nodes (canonical_ofList ws) []).eq_of_mem_iff
    (Text.pairwise_ascendingBeginnings ws) fun p => ?_
  have paths : p ∈ (ofList ws).nodes.map Prod.fst ↔ p ≠ [] ∧ ∃ w, p ++ w ∈ ws :=
    mem_map_fst_nodes_ofList_iff
  rw [nodes] at paths
  rw [paths, Text.mem_ascendingBeginnings]
  apply and_congr_right
  intro _
  constructor
  · rintro ⟨w, mem⟩
    exact ⟨p ++ w, mem, List.prefix_append p w⟩
  · rintro ⟨_, mem, w, rfl⟩
    exact ⟨w, mem⟩

/-- A node is marked if the path to it is a word. -/
theorem terminal_of_mem_nodes_ofList (mem : (p, n) ∈ (ofList ws).nodes) :
    n.terminal = decide (p ∈ ws) := by
  obtain ⟨-, path⟩ := (mem_nodes_iff (canonical_ofList ws)).mp mem
  have ends := contains_ofList ws p
  rw [contains, path, Option.any_some] at ends
  rw [Bool.eq_iff_iff, ends, decide_eq_true_eq]

theorem outline_ofList (ws : List Text) :
    (ofList ws).outline =
      Text.unlines ((Text.ascendingBeginnings ws).map fun p => Text.outlineLine p (p ∈ ws)) := by
  rw [outline, ← map_fst_nodes_ofList, List.map_map]
  apply congrArg Text.unlines
  have lines := (ofList ws).branches.outline_eq_map_nodes []
  rw [List.length_nil] at lines
  rw [lines]
  apply List.map_congr_left
  rintro ⟨p, n⟩ mem
  rw [Function.comp_apply, terminal_of_mem_nodes_ofList mem]

end Trie

namespace KeywordSet

variable {K J : KeywordSet}

/-- The characters on the paths through the trie of a keyword set are word characters. -/
theorem isWordChar_of_mem_nodes {q : Text × Trie} (mem : q ∈ K.trie.nodes) :
    ∀ c ∈ q.1, isWordChar c = true := by
  intro c inside
  obtain ⟨-, w, word⟩ := Trie.mem_map_fst_nodes_ofList_iff.mp (List.mem_map_of_mem mem)
  exact (K.isKeyword _ word).2 c (List.mem_append_left w inside)

theorem solid_trie (K : KeywordSet) : K.trie.branches.Solid := by
  apply Branches.solid_of_nodes
  intro q mem space
  exact absurd (isWordChar_of_mem_nodes mem ' ' space) (by decide)

theorem newline_not_mem_outline (K : KeywordSet) :
    ∀ line ∈ K.trie.branches.outline 0, '\n' ∉ line := by
  have lines := K.trie.branches.outline_eq_map_nodes []
  rw [List.length_nil] at lines
  rw [lines]
  intro line mem feed
  obtain ⟨q, listed, rfl⟩ := List.mem_map.mp mem
  simp only [Text.outlineLine, List.mem_append] at feed
  rcases feed with (space | last) | star
  · exact absurd (List.eq_of_mem_replicate space) (by decide)
  · have inside := List.mem_of_getLast? (Option.mem_toList.mp last)
    exact absurd (isWordChar_of_mem_nodes listed '\n' inside) (by decide)
  · split at star
    · exact absurd star (by decide)
    · cases star

/-- No keyword ends at the top node. -/
theorem terminal_trie (K : KeywordSet) : K.trie.terminal = false := by
  rw [← Trie.contains_nil, Bool.eq_false_iff, Ne, KeywordSet.trie, Trie.contains_ofList]
  intro mem
  exact (K.isKeyword [] mem).1 rfl

theorem trie_eq_of_outline_eq (same : K.trie.outline = J.trie.outline) : K.trie = J.trie := by
  have lines := Text.eq_of_unlines_eq K.newline_not_mem_outline J.newline_not_mem_outline same
  have whole : K.trie.branches.outline 0 ++ [] = J.trie.branches.outline 0 ++ [] := by
    rw [List.append_nil, List.append_nil]
    exact lines
  obtain ⟨branches, -⟩ := Branches.eq_of_outline_append K.solid_trie J.solid_trie (by simp)
    (by simp) whole
  have mark : K.trie.terminal = J.trie.terminal := by rw [terminal_trie, terminal_trie]
  exact Trie.eq_of_terminal_of_branches mark branches

end KeywordSet

/-- The outline of the trie of a list has a line for each non-empty beginning of a word, in
ascending order. Keyword sets have equal outlines exactly if they have the same keywords. -/
theorem outline_lists_beginnings :
    (∀ ws : List Text,
      (Text.ascendingBeginnings ws).Pairwise (List.Lex (· < ·)) ∧
      (∀ p, p ∈ Text.ascendingBeginnings ws ↔ p ≠ [] ∧ ∃ w ∈ ws, p <+: w) ∧
      (Trie.ofList ws).outline =
        Text.unlines ((Text.ascendingBeginnings ws).map fun p => Text.outlineLine p (p ∈ ws))) ∧
    ∀ K J : KeywordSet, K.trie.outline = J.trie.outline ↔ ∀ w, w ∈ K ↔ w ∈ J := by
  constructor
  · intro ws
    exact ⟨Text.pairwise_ascendingBeginnings ws, fun p => Text.mem_ascendingBeginnings,
      Trie.outline_ofList ws⟩
  · intro K J
    have members : K.trie = J.trie ↔ ∀ w, w ∈ K ↔ w ∈ J := Trie.ofList_eq_ofList_iff
    rw [← members]
    constructor
    · exact KeywordSet.trie_eq_of_outline_eq
    · intro same
      rw [same]

end KeywordSwitch
