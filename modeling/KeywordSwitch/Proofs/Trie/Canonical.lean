import KeywordSwitch.Trie.Basic

/-!
# Canonical tries

The entries of every level ascend strictly, so no character has two entries, and no
entry is a dead end: a word ends at it or it has entries below. Insertion keeps
both properties, and it changes exactly one entry of a level.

## Implementation notes

Both properties are local to a level, so one structural predicate carries them and
every node below a canonical one is canonical again.
-/

namespace KeywordSwitch

namespace Branches

/-- All entries of the level come after the character `c`. -/
def Above (c : Char) : Branches → Prop
  | nil => True
  | cons d _ _ rest => c < d ∧ Above c rest

/-- Every level ascends strictly, and a word ends at or below each entry. -/
def Canonical : Branches → Prop
  | nil => True
  | cons c terminal below rest =>
      below.Canonical ∧ rest.Canonical ∧ rest.Above c ∧ (terminal = true ∨ below ≠ nil)

theorem Above.trans {c d : Char} {b : Branches} (before : c < d) (above : b.Above d) :
    b.Above c := by
  induction b with
  | nil => trivial
  | cons e _ _ rest _ ih => exact ⟨Char.lt_trans before above.1, ih above.2⟩

theorem child?_eq_none_of_above {c : Char} {b : Branches} (above : b.Above c) :
    b.child? c = none := by
  induction b with
  | nil => rfl
  | cons d _ _ rest _ ih =>
      rw [child?, if_neg (Char.ne_of_lt above.1)]
      exact ih above.2

theorem above_insert {c d : Char} {b : Branches} (before : c < d) (above : b.Above c) (w : Text) :
    (b.insert (d :: w)).Above c := by
  induction b with
  | nil => exact ⟨before, trivial⟩
  | cons e terminal below rest _ ih =>
      rw [insert]
      split
      · exact ⟨before, above⟩
      · split
        · exact above
        · exact ⟨above.1, ih above.2⟩

@[simp] theorem insert_nil (b : Branches) : b.insert [] = b := by
  cases b <;> rfl

theorem nil_insert (w : Text) : nil.insert w = ofWord w := by
  cases w <;> rfl

theorem insert_ne_nil (b : Branches) (c : Char) (w : Text) : b.insert (c :: w) ≠ nil := by
  cases b with
  | nil => simp [insert, ofWord]
  | cons d terminal below rest =>
      rw [insert]
      split
      · simp
      · split <;> simp

/-- After an insertion the word itself ends at the node or the node has entries. -/
theorem live_insert (b : Branches) (w : Text) : w.isEmpty = true ∨ b.insert w ≠ nil := by
  cases w with
  | nil => exact Or.inl rfl
  | cons c w => exact Or.inr (insert_ne_nil b c w)

theorem canonical_ofWord (w : Text) : (ofWord w).Canonical := by
  induction w with
  | nil => trivial
  | cons c w ih =>
      have live := live_insert nil w
      rw [nil_insert] at live
      exact ⟨ih, trivial, trivial, live⟩

/-- Insertion keeps the order of every level and adds no dead end. -/
theorem canonical_insert {b : Branches} (canonical : b.Canonical) (w : Text) :
    (b.insert w).Canonical := by
  induction b generalizing w with
  | nil =>
      rw [nil_insert]
      exact canonical_ofWord w
  | cons d terminal below rest ihBelow ihRest =>
      obtain ⟨hBelow, hRest, above, live⟩ := canonical
      cases w with
      | nil => exact ⟨hBelow, hRest, above, live⟩
      | cons c w =>
          rw [insert]
          split
          case isTrue before =>
            have word := canonical_ofWord (c :: w)
            exact ⟨word.1, ⟨hBelow, hRest, above, live⟩, ⟨before, above.trans before⟩, word.2.2.2⟩
          case isFalse notBefore =>
            split
            case isTrue =>
              refine ⟨ihBelow hBelow w, hRest, above, ?_⟩
              rcases live_insert below w with ended | longer
              · simp [ended]
              · exact Or.inr longer
            case isFalse different =>
              have after : d < c := by
                apply Char.not_le.mp
                intro le
                apply different
                exact Char.le_antisymm le (Char.not_lt.mp notBefore)
              exact ⟨hBelow, ihRest hRest (c :: w), above_insert after above w, live⟩

/-- What stands below a new entry is what insertion makes of the empty trie. -/
theorem empty_insert (w : Text) : (∅ : Trie).insert w = ⟨w.isEmpty, ofWord w⟩ := by
  change (⟨false || w.isEmpty, nil.insert w⟩ : Trie) = _
  rw [nil_insert, Bool.false_or]

/-- Insertion puts the rest of the word below the entry of its first character, which it creates
if need be, and leaves all other entries of the level as they are. -/
theorem child?_insert {b : Branches} (canonical : b.Canonical) (c d : Char) (w : Text) :
    (b.insert (c :: w)).child? d =
      if d = c then some (((b.child? c).getD ∅).insert w) else b.child? d := by
  induction b with
  | nil => simp [insert, ofWord, child?, empty_insert]
  | cons e terminal below rest _ ih =>
      obtain ⟨-, hRest, above, -⟩ := canonical
      rw [insert]
      split
      case isTrue before =>
        have absent : (cons e terminal below rest).child? c = none :=
          child?_eq_none_of_above ⟨before, above.trans before⟩
        rw [absent, child?, Option.getD_none, empty_insert]
      case isFalse =>
        split
        case isTrue same =>
          subst same
          by_cases h : d = c <;> simp [child?, h, Trie.insert]
        case isFalse different =>
          rw [child?, child?, child?, ih hRest, if_neg different]
          by_cases h : d = e
          · simp [h, Ne.symm different]
          · simp [h]

/-- The node that an entry leads to is canonical and no dead end. -/
theorem canonical_of_child? {b : Branches} (canonical : b.Canonical) {c : Char} {n : Trie}
    (h : b.child? c = some n) :
    n.branches.Canonical ∧ (n.terminal = true ∨ n.branches ≠ nil) := by
  induction b with
  | nil => simp [child?] at h
  | cons d terminal below rest _ ih =>
      obtain ⟨hBelow, hRest, -, live⟩ := canonical
      rw [child?] at h
      split at h
      · cases h
        exact ⟨hBelow, live⟩
      · exact ih hRest h

/-- The listed characters are those that have an entry. -/
theorem mem_chars_iff {b : Branches} {c : Char} :
    c ∈ b.toList.map Prod.fst ↔ (b.child? c).isSome = true := by
  induction b with
  | nil => simp [toList, child?]
  | cons d terminal below rest _ ih =>
      rw [toList, List.map_cons, List.mem_cons, ih, child?]
      by_cases h : c = d <;> simp [h]

theorem lt_of_above {c d : Char} {b : Branches} (above : b.Above c)
    (mem : d ∈ b.toList.map Prod.fst) : c < d := by
  induction b with
  | nil => simp [toList] at mem
  | cons e terminal below rest _ ih =>
      rw [toList, List.map_cons, List.mem_cons] at mem
      rcases mem with rfl | mem
      · exact above.1
      · exact ih above.2 mem

/-- The characters of a level are listed in strictly ascending order. -/
theorem pairwise_chars {b : Branches} (canonical : b.Canonical) :
    (b.toList.map Prod.fst).Pairwise (· < ·) := by
  induction b with
  | nil => simp [toList]
  | cons d terminal below rest _ ih =>
      obtain ⟨-, hRest, above, -⟩ := canonical
      rw [toList, List.map_cons, List.pairwise_cons]
      exact ⟨fun e mem => lt_of_above above mem, ih hRest⟩

end Branches

end KeywordSwitch
