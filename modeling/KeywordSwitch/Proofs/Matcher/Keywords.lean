import KeywordSwitch.Proofs.Matcher.Meaning
import KeywordSwitch.Proofs.Text.WordBytes

/-!
# Matchers of keyword sets

Keywords hold word characters only, so the stops of their trie do too. Such a stop
stands in the bytes of an input exactly if the input begins with it, and the token of
a keyword is the keyword behind the prefix of the style.
-/

namespace KeywordSwitch

/-- No semicolon is dropped from the token of a keyword. -/
theorem Style.token_of_isKeyword (s : Style) {w : Text} (hw : IsKeyword w) :
    s.token w = s.tokenPrefix ++ w := by
  obtain ⟨w, c, rfl⟩ := (List.eq_nil_or_concat w).resolve_left hw.1
  rw [List.concat_eq_append] at hw ⊢
  have word := hw.2 c (by simp)
  have other : c ≠ ';' := by
    rintro rfl
    exact absurd word (by decide)
  rw [token, ← List.append_assoc, Text.dropEndWhile, List.reverse_concat,
    List.dropWhile_cons_of_neg (by simpa using other), List.reverse_cons, List.reverse_reverse]

namespace KeywordSet

variable {K : KeywordSet} {p w input : Text}

theorem canonical_trie (K : KeywordSet) : K.trie.Canonical :=
  Trie.canonical_ofList K.words

theorem contains_trie : K.trie.contains w = true ↔ w ∈ K :=
  Trie.contains_ofList K.words w

theorem exists_contains_trie_append_iff :
    (∃ w, K.trie.contains (p ++ w) = true) ↔ ∃ v ∈ K, p <+: v := by
  constructor
  · rintro ⟨w, h⟩
    exact ⟨p ++ w, contains_trie.mp h, List.prefix_append p w⟩
  · rintro ⟨_, mem, w, rfl⟩
    exact ⟨w, contains_trie.mpr mem⟩

/-- Two keywords go on from `p` with different characters. -/
def ForksAt (K : KeywordSet) (p : Text) : Prop :=
  ∃ c d, c ≠ d ∧ (∃ v ∈ K, p ++ [c] <+: v) ∧ ∃ v ∈ K, p ++ [d] <+: v

/-- The stops are the beginnings of keywords that have one character, are keywords themselves or lie
at a fork. -/
theorem isStop_trie_iff (hp : p ≠ []) :
    K.trie.IsStop p ↔ (∃ v ∈ K, p <+: v) ∧ (p.length = 1 ∨ p ∈ K ∨ K.ForksAt p) := by
  have goes (c : Char) :
      (∃ w, K.trie.contains (p ++ c :: w) = true) ↔ ∃ v ∈ K, p ++ [c] <+: v := by
    rw [← exists_contains_trie_append_iff]
    simp only [List.append_assoc, List.singleton_append]
  rw [Trie.isStop_iff K.canonical_trie hp, exists_contains_trie_append_iff, contains_trie, ForksAt]
  simp only [goes]

theorem isStop_trie_of_mem (hw : w ∈ K) : K.trie.IsStop w :=
  (isStop_trie_iff (K.isKeyword w hw).1).mpr ⟨⟨w, hw, List.prefix_rfl⟩, Or.inr (Or.inl hw)⟩

theorem isStop_trie_of_forksAt (hp : p ≠ []) (forks : K.ForksAt p) : K.trie.IsStop p := by
  obtain ⟨c, d, different, ⟨v, mem, h⟩, later⟩ := id forks
  rw [isStop_trie_iff hp]
  exact ⟨⟨v, mem, (List.prefix_append p [c]).trans h⟩, Or.inr (Or.inr forks)⟩

theorem isWordChar_of_isStop (stop : K.trie.IsStop p) : ∀ c ∈ p, isWordChar c = true := by
  obtain ⟨⟨v, mem, h⟩, -⟩ := (isStop_trie_iff stop.1).mp stop
  intro c hc
  exact (K.isKeyword v mem).2 c (h.subset hc)

theorem standsAt_bytes_of_isStop (stop : K.trie.IsStop p) :
    p.StandsAt input.bytes 0 ↔ p <+: input :=
  Text.standsAt_bytes_iff (isWordChar_of_isStop stop)

theorem prefix_of_isLongestStop (longest : K.trie.IsLongestStop input.bytes p) : p <+: input :=
  (standsAt_bytes_of_isStop longest.isStop).mp longest.standsAt

/-- Every stop that the input begins with begins the longest one. -/
theorem prefix_of_isStop (longest : K.trie.IsLongestStop input.bytes p) (stop : K.trie.IsStop w)
    (begins : w <+: input) : w <+: p := by
  have stands := (standsAt_bytes_of_isStop stop).mpr begins
  exact Text.prefix_of_standsAt stands longest.standsAt (longest.longest w stop stands)

/-- The matcher consumes a keyword with its token or a stop without one, or it does nothing. -/
theorem outcome_trie_cases (K : KeywordSet) (s : Style) (input : Text) :
    (∃ p, K.trie.IsLongestStop input.bytes p ∧
        (p ∈ K ∧ K.trie.outcome s input = ⟨[s.tokenPrefix ++ p], p.length⟩ ∨
          p ∉ K ∧ K.trie.outcome s input = ⟨[], p.length⟩)) ∨
      (∀ p, K.trie.IsStop p → ¬ p <+: input) ∧ K.trie.outcome s input = ⟨[], 0⟩ := by
  obtain ⟨p, longest, outcome⟩ | ⟨fails, outcome⟩ := K.trie.outcome_cases s input
  · refine Or.inl ⟨p, longest, ?_⟩
    by_cases mem : p ∈ K
    · rw [if_pos (contains_trie.mpr mem), s.token_of_isKeyword (K.isKeyword p mem)] at outcome
      exact Or.inl ⟨mem, outcome⟩
    · rw [if_neg fun h => mem (contains_trie.mp h)] at outcome
      exact Or.inr ⟨mem, outcome⟩
  · refine Or.inr ⟨fun p stop begins => fails p stop ?_, outcome⟩
    exact (standsAt_bytes_of_isStop stop).mpr begins

/-- The matcher of a keyword set with a prefix for its tokens runs without a fault. -/
theorem interpret_matcher_trie (K : KeywordSet) (pre input : Text) :
    Switch.interpret (Style.matcher { tokenPrefix := pre } K.trie) input =
      .ok (K.trie.outcome { tokenPrefix := pre } input) :=
  interpret_matcher (Style.readable_of_tokenPrefix pre) K.canonical_trie input

end KeywordSet

end KeywordSwitch
