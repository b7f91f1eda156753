import KeywordSwitch.Proofs.Trie.Nodes
import Mathlib.Data.Finset.Card
import Mathlib.Data.List.Infix

/-!
# Counting nodes and words

An insertion changes the count of one entry of a level and leaves the others as they are. So the
size of a trie grows by the part of the word past its longest known beginning, and the number of
marks by one unless the word is known. Summed up over a list, the size counts the distinct
non-empty beginnings of the words, and the marks count the distinct words.

## Implementation notes

What an entry counted before and what it counts after stand on opposite sides of the laws for one
insertion, so no law subtracts and an absent entry counts nothing.
-/

namespace KeywordSwitch

namespace Branches

variable {b : Branches}

/-- The sum of a number over the nodes that the entries of this level lead to. -/
def total (f : Trie → Nat) : Branches → Nat
  | nil => 0
  | cons _ terminal below rest => f ⟨terminal, below⟩ + rest.total f

/-- The size is told by the node counts at the entries. -/
theorem size_eq_total (b : Branches) : b.size = b.total Trie.nodeCount := by
  induction b with
  | nil => rfl
  | cons c terminal below rest _ ih =>
      simp only [size, total, Trie.nodeCount, Trie.size, ih]
      omega

/-- The number of words is told by the word counts at the entries. -/
theorem wordCount_eq_total (b : Branches) : b.wordCount = b.total Trie.wordCount := by
  induction b with
  | nil => rfl
  | cons c terminal below rest _ ih => simp only [wordCount, total, Trie.wordCount, ih]

/-- Insertion replaces what the entry of the first character counts and nothing else. -/
theorem total_insert (f : Trie → Nat) (canonical : b.Canonical) (c : Char) (w : Text) :
    (b.insert (c :: w)).total f + (b.child? c).elim 0 f =
      b.total f + f (((b.child? c).getD ∅).insert w) := by
  induction b with
  | nil =>
      change (ofWord (c :: w)).total f + 0 = 0 + f ((∅ : Trie).insert w)
      simp only [ofWord, total, empty_insert]
      omega
  | cons d terminal below rest _ ih =>
      obtain ⟨-, hRest, above, -⟩ := canonical
      rw [insert]
      split
      case isTrue before =>
        have absent : (cons d terminal below rest).child? c = none :=
          child?_eq_none_of_above ⟨before, above.trans before⟩
        simp only [absent, Option.elim_none, Option.getD_none, total, empty_insert]
        omega
      case isFalse =>
        split
        case isTrue same =>
          have present : (cons d terminal below rest).child? c = some ⟨terminal, below⟩ :=
            if_pos same
          simp only [present, Option.elim_some, Option.getD_some, total, Trie.insert]
          omega
        case isFalse different =>
          have later : (cons d terminal below rest).child? c = rest.child? c := if_neg different
          have step := ih hRest
          simp only [later, total]
          omega

end Branches

namespace Trie

variable {t : Trie} {q w : Text}

/-- A word put below a node adds to the size what it adds at the entry of its first character. -/
theorem size_insert_cons (canonical : t.Canonical) (c : Char) (w : Text) :
    (t.insert (c :: w)).size + (t.branches.child? c).elim 0 nodeCount =
      t.size + (((t.branches.child? c).getD ∅).insert w).nodeCount := by
  simp only [size, insert, Branches.size_eq_total]
  exact Branches.total_insert nodeCount canonical c w

/-- A word put below a node adds to the marks what it adds at the entry of its first character. -/
theorem wordCount_insert_cons (canonical : t.Canonical) (c : Char) (w : Text) :
    (t.insert (c :: w)).wordCount + (t.branches.child? c).elim 0 wordCount =
      t.wordCount + (((t.branches.child? c).getD ∅).insert w).wordCount := by
  have step := Branches.total_insert wordCount canonical c w
  simp only [← Branches.wordCount_eq_total] at step
  simp only [wordCount, insert, List.isEmpty_cons, Bool.or_false] at step ⊢
  omega

/-- The longest beginning of a word that is a path of the trie. -/
def known (t : Trie) : Text → Text
  | [] => []
  | c :: w => (t.branches.child? c).elim [] fun n => c :: n.known w

@[simp] theorem known_empty (w : Text) : (∅ : Trie).known w = [] := by
  cases w <;> rfl

/-- The beginnings of a word that are paths are those of its longest one. -/
theorem prefix_known_iff :
    q <+: t.known w ↔ (t.descend? q).isSome = true ∧ q <+: w := by
  induction w generalizing t q with
  | nil =>
      simp only [known, List.prefix_nil]
      constructor
      · rintro rfl
        exact ⟨rfl, rfl⟩
      · exact And.right
  | cons c w ih =>
      cases q with
      | nil => simp
      | cons d q =>
          rw [known, descend?_cons, List.cons_prefix_cons]
          constructor
          · intro begins
            cases entry : t.branches.child? c with
            | none => simp [entry] at begins
            | some n =>
                rw [entry, Option.elim_some, List.cons_prefix_cons] at begins
                obtain ⟨rfl, begins⟩ := begins
                obtain ⟨path, begins⟩ := ih.mp begins
                exact ⟨by rw [entry]; exact path, rfl, begins⟩
          · rintro ⟨path, rfl, begins⟩
            cases entry : t.branches.child? d with
            | none => simp [entry] at path
            | some n =>
                rw [entry, Option.bind_some] at path
                rw [Option.elim_some, List.cons_prefix_cons]
                exact ⟨rfl, ih.mpr ⟨path, begins⟩⟩

/-- The path is a beginning of the word, and no longer beginning of the word is a path. -/
structure IsLongestPath (t : Trie) (w p : Text) : Prop where
  isPath : (t.descend? p).isSome = true
  begins : p <+: w
  longest : ∀ q, (t.descend? q).isSome = true → q <+: w → q.length ≤ p.length

theorem isLongestPath_known (t : Trie) (w : Text) : t.IsLongestPath w (t.known w) where
  isPath := (prefix_known_iff.mp (List.prefix_refl (t.known w))).1
  begins := (prefix_known_iff.mp (List.prefix_refl (t.known w))).2
  longest _ path begins := (prefix_known_iff.mpr ⟨path, begins⟩).length_le

/-- Insertion adds one node for each character past the longest known beginning. -/
theorem size_insert (canonical : t.Canonical) (w : Text) :
    (t.insert w).size + (t.known w).length = t.size + w.length := by
  induction w generalizing t with
  | nil => simp only [insert, size, known, Branches.insert_nil]
  | cons c w ih =>
      have step := size_insert_cons canonical c w
      cases entry : t.branches.child? c with
      | none =>
          have below := ih canonical_empty
          simp only [entry, Option.elim_none, Option.getD_none, nodeCount] at step
          simp only [known_empty, List.length_nil] at below
          have empty : (∅ : Trie).size = 0 := rfl
          simp only [known, entry, Option.elim_none, List.length_nil, List.length_cons]
          omega
      | some n =>
          have below := ih (Branches.canonical_of_child? canonical entry).1
          simp only [entry, Option.elim_some, Option.getD_some, nodeCount] at step
          simp only [known, entry, Option.elim_some, List.length_cons]
          omega

/-- Insertion adds one mark, unless the word is known. -/
theorem wordCount_insert (canonical : t.Canonical) (w : Text) :
    (t.insert w).wordCount = t.wordCount + if t.contains w then 0 else 1 := by
  induction w generalizing t with
  | nil =>
      have mark : true.toNat = t.terminal.toNat + if t.terminal then 0 else 1 := by
        cases t.terminal <;> rfl
      rw [contains_nil]
      simp only [insert, wordCount, Branches.insert_nil, List.isEmpty_nil, Bool.or_true, mark]
      omega
  | cons c w ih =>
      have step := wordCount_insert_cons canonical c w
      rw [contains_cons]
      cases entry : t.branches.child? c with
      | none =>
          have below := ih canonical_empty
          have empty : (∅ : Trie).wordCount = 0 := rfl
          simp only [entry, Option.elim_none, Option.getD_none] at step
          simp only [not_contains_empty] at below
          simp only [Option.any_none]
          omega
      | some n =>
          have below := ih (Branches.canonical_of_child? canonical entry).1
          simp only [entry, Option.elim_some, Option.getD_some] at step
          simp only [Option.any_some]
          omega

end Trie

/-- The distinct non-empty beginnings of the words of a list. -/
def Text.beginnings (ws : List Text) : Finset Text :=
  (ws.flatMap List.inits).toFinset.erase []

theorem Text.mem_beginnings {ws : List Text} {p : Text} :
    p ∈ Text.beginnings ws ↔ p ≠ [] ∧ ∃ w, p ++ w ∈ ws := by
  simp only [beginnings, Finset.mem_erase, List.mem_toFinset, List.mem_flatMap, List.mem_inits]
  apply and_congr_right
  intro _
  constructor
  · rintro ⟨_, mem, w, rfl⟩
    exact ⟨w, mem⟩
  · rintro ⟨w, mem⟩
    exact ⟨p ++ w, mem, List.prefix_append p w⟩

namespace Trie

/-- The size is the number of distinct non-empty beginnings of words. -/
theorem size_ofList (ws : List Text) : (ofList ws).size = (Text.beginnings ws).card := by
  have canonical := canonical_ofList ws
  have paths : ((ofList ws).nodes.map Prod.fst).toFinset = Text.beginnings ws := by
    ext p
    rw [List.mem_toFinset, mem_map_fst_nodes_ofList_iff, Text.mem_beginnings]
  calc
    (ofList ws).size = ((ofList ws).nodes.map Prod.fst).length := by
      rw [List.length_map, length_nodes]
    _ = ((ofList ws).nodes.map Prod.fst).toFinset.card :=
      (List.toFinset_card_of_nodup (nodup_nodes canonical)).symm
    _ = (Text.beginnings ws).card := by rw [paths]

/-- The number of marks is the number of distinct words. -/
theorem wordCount_ofList (ws : List Text) : (ofList ws).wordCount = ws.toFinset.card := by
  induction ws using List.reverseRecOn with
  | nil => rfl
  | append_singleton ws w ih =>
      have words : (ws ++ [w]).toFinset = Insert.insert w ws.toFinset := by
        ext v
        simp
      rw [ofList_concat, wordCount_insert (canonical_ofList ws), ih, words,
        Finset.card_insert_eq_ite]
      simp only [contains_ofList, List.mem_toFinset]
      split
      case isTrue => rfl
      case isFalse => rfl

/-- An insertion counts what is new about the word, so that the size counts the distinct non-empty
beginnings of all words put in and the marks count the distinct words. -/
theorem counting_laws :
    (∀ (ws : List Text) (w : Text),
      (∃ p, (ofList ws).IsLongestPath w p ∧
        ((ofList ws).insert w).size = (ofList ws).size + (w.length - p.length)) ∧
      ((ofList ws).insert w).wordCount =
        (ofList ws).wordCount + if (ofList ws).contains w then 0 else 1) ∧
    (∀ ws : List Text, (ofList ws).size = (Text.beginnings ws).card ∧
      (ofList ws).wordCount = ws.toFinset.card) ∧
    ∀ s : KeywordSet, s.trie.wordCount = s.size := by
  refine ⟨fun ws w => ⟨?_, wordCount_insert (canonical_ofList ws) w⟩,
    fun ws => ⟨size_ofList ws, wordCount_ofList ws⟩, fun s => ?_⟩
  · refine ⟨(ofList ws).known w, isLongestPath_known (ofList ws) w, ?_⟩
    have grown := size_insert (canonical_ofList ws) w
    have shorter := (isLongestPath_known (ofList ws) w).begins.length_le
    omega
  · calc
      s.trie.wordCount = s.words.toFinset.card := wordCount_ofList s.words
      _ = s.size := List.toFinset_card_of_nodup s.nodup

end Trie

end KeywordSwitch
