import KeywordSwitch.Proofs.Trie.Words
import Mathlib.Data.List.Lex

/-!
# The nodes of a trie

A walk through a trie that names each node before those below it lists every node but
the top one once, and the paths to them in ascending order. So a number that is told by
a recursion over the trie is told by this list as well.
-/

namespace KeywordSwitch

namespace Branches

/-- The nodes of this level and of the levels below it, each with the path to it, where `word` is
the path to the node above. A node stands before the nodes below it. -/
def nodes (word : Text) : Branches → List (Text × Trie)
  | nil => []
  | cons c terminal below rest =>
      (word ++ [c], ⟨terminal, below⟩) :: (below.nodes (word ++ [c]) ++ rest.nodes word)

variable {b below rest : Branches} {terminal : Bool} {c : Char} {word v : Text} {n : Trie}

theorem length_nodes (b : Branches) (word : Text) : (b.nodes word).length = b.size := by
  induction b generalizing word with
  | nil => rfl
  | cons c terminal below rest ihBelow ihRest =>
      simp only [nodes, size, List.length_cons, List.length_append, ihBelow, ihRest]
      omega

theorem length_lt_of_mem_nodes {q : Text × Trie} (mem : q ∈ b.nodes word) :
    word.length < q.1.length := by
  induction b generalizing word with
  | nil => cases mem
  | cons c terminal below rest ihBelow ihRest =>
      simp only [nodes, List.mem_cons, List.mem_append] at mem
      rcases mem with rfl | mem | mem
      · rw [List.length_append, List.length_singleton]
        omega
      · have longer := ihBelow mem
        rw [List.length_append, List.length_singleton] at longer
        omega
      · exact ihRest mem

/-- The paths with one character more than `word` are those to the entries of this level. -/
theorem countP_length_nodes (b : Branches) (word : Text) :
    (b.nodes word).countP (fun q => q.1.length < word.length + 2) = b.toList.length := by
  induction b generalizing word with
  | nil => rfl
  | cons c terminal below rest _ ihRest =>
      have deeper : (below.nodes (word ++ [c])).countP
          (fun q => q.1.length < word.length + 2) = 0 := by
        apply List.countP_eq_zero.mpr
        intro q mem
        have longer := length_lt_of_mem_nodes mem
        rw [List.length_append, List.length_singleton] at longer
        simp only [decide_eq_true_eq]
        omega
      simp only [nodes, toList, List.countP_cons, List.countP_append, List.length_cons,
        List.length_append, List.length_nil, deeper, ihRest]
      simp

/-- A path goes through the first entry or through a later one. -/
theorem descend?_cons_eq_some_iff (above : rest.Above c) (d : Char) (p : Text) :
    (⟨false, cons c terminal below rest⟩ : Trie).descend? (d :: p) = some n ↔
      d = c ∧ (⟨terminal, below⟩ : Trie).descend? p = some n ∨
        (⟨false, rest⟩ : Trie).descend? (d :: p) = some n := by
  simp only [Trie.descend?_cons, child?]
  by_cases same : d = c
  · subst same
    simp [child?_eq_none_of_above above]
  · simp [same]

/-- A path ends at the node itself or goes on below it. -/
theorem descend?_node_eq_some_iff (p : Text) :
    (⟨terminal, below⟩ : Trie).descend? p = some n ↔
      p = [] ∧ n = ⟨terminal, below⟩ ∨ p ≠ [] ∧ (⟨false, below⟩ : Trie).descend? p = some n := by
  cases p with
  | nil => simp [eq_comm]
  | cons d p => simp

/-- The nodes listed are those at the ends of the paths from the node above. -/
theorem mem_nodes_iff (canonical : b.Canonical) :
    (v, n) ∈ b.nodes word ↔
      ∃ p, p ≠ [] ∧ (⟨false, b⟩ : Trie).descend? p = some n ∧ v = word ++ p := by
  induction b generalizing word with
  | nil =>
      simp only [nodes, List.not_mem_nil, false_iff]
      rintro ⟨p, filled, path, -⟩
      obtain ⟨d, p, rfl⟩ := List.exists_cons_of_ne_nil filled
      simp [child?] at path
  | cons c terminal below rest ihBelow ihRest =>
      obtain ⟨hBelow, hRest, above, -⟩ := canonical
      simp only [nodes, List.mem_cons, List.mem_append, ihBelow hBelow, ihRest hRest,
        Prod.mk.injEq]
      constructor
      · rintro (⟨rfl, rfl⟩ | ⟨p, filled, path, rfl⟩ | ⟨p, filled, path, rfl⟩)
        · refine ⟨[c], List.cons_ne_nil c [], ?_, rfl⟩
          exact (descend?_cons_eq_some_iff above c []).mpr (Or.inl ⟨rfl, rfl⟩)
        · refine ⟨c :: p, List.cons_ne_nil c p, ?_, by simp⟩
          apply (descend?_cons_eq_some_iff above c p).mpr
          exact Or.inl ⟨rfl, (descend?_node_eq_some_iff p).mpr (Or.inr ⟨filled, path⟩)⟩
        · obtain ⟨d, p, rfl⟩ := List.exists_cons_of_ne_nil filled
          refine ⟨d :: p, filled, ?_, rfl⟩
          exact (descend?_cons_eq_some_iff above d p).mpr (Or.inr path)
      · rintro ⟨p, filled, path, rfl⟩
        obtain ⟨d, p, rfl⟩ := List.exists_cons_of_ne_nil filled
        obtain ⟨rfl, node⟩ | later := (descend?_cons_eq_some_iff above d p).mp path
        · obtain ⟨rfl, rfl⟩ | ⟨filled, path⟩ := (descend?_node_eq_some_iff p).mp node
          · exact Or.inl ⟨rfl, rfl⟩
          · exact Or.inr (Or.inl ⟨p, filled, path, by simp⟩)
        · exact Or.inr (Or.inr ⟨d :: p, filled, later, rfl⟩)

/-- The paths through an entry go on from the node above with the character of the entry. -/
theorem exists_of_mem_nodes_cons (canonical : below.Canonical)
    (mem : v ∈ ((word ++ [c], (⟨terminal, below⟩ : Trie)) ::
      below.nodes (word ++ [c])).map Prod.fst) : ∃ p, v = word ++ c :: p := by
  simp only [List.map_cons, List.mem_cons, List.mem_map, Prod.exists, exists_and_right,
    exists_eq_right] at mem
  rcases mem with rfl | ⟨n, mem⟩
  · exact ⟨[], rfl⟩
  · obtain ⟨p, -, -, rfl⟩ := (mem_nodes_iff canonical).mp mem
    exact ⟨p, by simp⟩

/-- The paths to later entries and below them go on with later characters. -/
theorem exists_of_mem_nodes_of_above (canonical : rest.Canonical) (above : rest.Above c)
    (mem : v ∈ (rest.nodes word).map Prod.fst) : ∃ d p, c < d ∧ v = word ++ d :: p := by
  obtain ⟨⟨w, n⟩, listed, rfl⟩ := List.mem_map.mp mem
  obtain ⟨p, filled, path, rfl⟩ := (mem_nodes_iff canonical).mp listed
  obtain ⟨d, p, rfl⟩ := List.exists_cons_of_ne_nil filled
  rw [Trie.descend?_cons, Option.bind_eq_some_iff] at path
  obtain ⟨m, entry, -⟩ := path
  exact ⟨d, p, lt_of_above above (mem_chars_iff.mpr (by rw [entry]; rfl)), rfl⟩

/-- The paths are listed in ascending order. -/
theorem pairwise_nodes (canonical : b.Canonical) (word : Text) :
    ((b.nodes word).map Prod.fst).Pairwise (List.Lex (· < ·)) := by
  induction b generalizing word with
  | nil => exact List.Pairwise.nil
  | cons c terminal below rest ihBelow ihRest =>
      obtain ⟨hBelow, hRest, above, -⟩ := canonical
      rw [nodes, ← List.cons_append, List.map_append, List.pairwise_append]
      refine ⟨?_, ihRest hRest word, ?_⟩
      · rw [List.map_cons, List.pairwise_cons]
        refine ⟨fun v mem => ?_, ihBelow hBelow (word ++ [c])⟩
        obtain ⟨⟨w, n⟩, listed, rfl⟩ := List.mem_map.mp mem
        obtain ⟨p, filled, -, rfl⟩ := (mem_nodes_iff hBelow).mp listed
        obtain ⟨d, p, rfl⟩ := List.exists_cons_of_ne_nil filled
        have longer : List.Lex (· < ·) (word ++ [c] ++ []) (word ++ [c] ++ d :: p) :=
          List.Lex.append_left (· < ·) .nil (word ++ [c])
        rwa [List.append_nil] at longer
      · intro v mem w later
        obtain ⟨p, rfl⟩ := exists_of_mem_nodes_cons hBelow mem
        obtain ⟨d, q, before, rfl⟩ := exists_of_mem_nodes_of_above hRest above later
        exact List.Lex.append_left (· < ·) (.rel before) word

end Branches

namespace Trie

/-- The nodes below the top node, each with the path to it. -/
def nodes (t : Trie) : List (Text × Trie) :=
  t.branches.nodes []

variable {t n : Trie} {p : Text}

theorem length_nodes (t : Trie) : t.nodes.length = t.size :=
  t.branches.length_nodes []

theorem countP_length_nodes (t : Trie) :
    t.nodes.countP (fun q => q.1.length < 2) = t.children.length :=
  t.branches.countP_length_nodes []

theorem mem_nodes_iff (canonical : t.Canonical) :
    (p, n) ∈ t.nodes ↔ p ≠ [] ∧ t.descend? p = some n := by
  simp only [nodes, Branches.mem_nodes_iff canonical, List.nil_append]
  constructor
  · rintro ⟨q, filled, path, rfl⟩
    exact ⟨filled, (Branches.descend?_node_eq_some_iff p).mpr (Or.inr ⟨filled, path⟩)⟩
  · rintro ⟨filled, path⟩
    obtain ⟨empty, -⟩ | ⟨-, path⟩ := (Branches.descend?_node_eq_some_iff p).mp path
    · exact absurd empty filled
    · exact ⟨p, filled, path, rfl⟩

/-- The paths to the nodes of a list's trie are the non-empty beginnings of the words. -/
theorem mem_map_fst_nodes_ofList_iff {ws : List Text} :
    p ∈ (ofList ws).nodes.map Prod.fst ↔ p ≠ [] ∧ ∃ w, p ++ w ∈ ws := by
  have canonical := canonical_ofList ws
  simp only [List.mem_map, Prod.exists, exists_and_right, exists_eq_right,
    mem_nodes_iff canonical, exists_and_left, ← contains_ofList]
  apply and_congr_right
  intro filled
  rw [← Option.isSome_iff_exists, isSome_descend?_iff canonical filled]

/-- No node is listed twice. -/
theorem nodup_nodes (canonical : t.Canonical) : (t.nodes.map Prod.fst).Nodup := by
  apply (Branches.pairwise_nodes canonical []).imp
  rintro v _ before rfl
  exact List.lt_irrefl v before

end Trie

end KeywordSwitch
