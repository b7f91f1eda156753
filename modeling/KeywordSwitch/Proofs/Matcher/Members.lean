import KeywordSwitch.Proofs.Matcher.WordBoundary
import KeywordSwitch.Proofs.Trie.Equality
import Mathlib.Data.List.TakeWhile

/-!
# The members of a set and its matcher

Sets with the same keywords have the same trie, and so the same matcher in every style.
In the default style the matcher tells the keywords again: it gives a token for a whole
word exactly if the word is a keyword.
-/

namespace KeywordSwitch

namespace KeywordSet

variable {K J : KeywordSet} {w : Text}

theorem takeWhile_eq_self_of_isKeyword (hw : IsKeyword w) : w.takeWhile isWordChar = w :=
  List.takeWhile_eq_self_iff.mpr hw.2

theorem trie_eq_trie_iff : K.trie = J.trie ↔ ∀ w, w ∈ K ↔ w ∈ J :=
  Trie.ofList_eq_ofList_iff

/-- A keyword as the whole input gives one token, and no word character follows. -/
theorem endsWord_of_mem (mem : w ∈ K) (s : Style) :
    (K.trie.outcome s w).tokens.length = 1 ∧ (K.trie.outcome s w).EndsWord w := by
  have whole := takeWhile_eq_self_of_isKeyword (K.isKeyword w mem)
  have outcome := outcome_trie_of_takeWhile_mem (by rwa [whole]) s
  rw [outcome]
  refine ⟨rfl, ?_⟩
  have following := Text.getElem?_length_takeWhile w.bytes
  rwa [Text.takeWhile_bytes] at following

/-- The keywords of a set can be told from what its matcher does. -/
theorem mem_of_outcome_eq {s : Style} (same : K.trie.outcome s w = J.trie.outcome s w)
    (mem : w ∈ K) : w ∈ J := by
  obtain ⟨single, ends⟩ := endsWord_of_mem mem s
  rw [same] at single ends
  have found := takeWhile_mem_of_endsWord single ends
  rwa [takeWhile_eq_self_of_isKeyword (K.isKeyword w mem)] at found

theorem mem_iff_of_default_matcher_eq
    (same : ({} : Style).matcher K.trie = ({} : Style).matcher J.trie) (w : Text) :
    w ∈ K ↔ w ∈ J := by
  have outcome : K.trie.outcome {} w = J.trie.outcome {} w := by
    apply Except.ok.inj (ε := Switch.Rejection)
    calc
      .ok (K.trie.outcome {} w) = Switch.interpret (({} : Style).matcher K.trie) w :=
        (interpret_matcher_trie K ({} : Style).tokenPrefix w).symm
      _ = Switch.interpret (({} : Style).matcher J.trie) w := by rw [same]
      _ = .ok (J.trie.outcome {} w) := interpret_matcher_trie J ({} : Style).tokenPrefix w
  exact ⟨mem_of_outcome_eq outcome, mem_of_outcome_eq outcome.symm⟩

end KeywordSet

/-- Lists of words have equal tries exactly if they hold the same words. Keyword sets have equal
matchers, in all styles or in the default one, exactly if they have the same keywords. -/
theorem trie_and_matcher_eq_iff_same_words :
    (∀ ws vs : List Text, Trie.ofList ws = Trie.ofList vs ↔ ∀ w, w ∈ ws ↔ w ∈ vs) ∧
      ∀ K J : KeywordSet,
        ((∀ s : Style, s.matcher K.trie = s.matcher J.trie) ↔ ∀ w, w ∈ K ↔ w ∈ J) ∧
        (({} : Style).matcher K.trie = ({} : Style).matcher J.trie ↔ ∀ w, w ∈ K ↔ w ∈ J) := by
  have sameMatcher {K J : KeywordSet} (same : ∀ w, w ∈ K ↔ w ∈ J) (s : Style) :
      s.matcher K.trie = s.matcher J.trie := by
    rw [KeywordSet.trie_eq_trie_iff.mpr same]
  refine ⟨fun ws vs => Trie.ofList_eq_ofList_iff, fun K J => ⟨?_, ?_⟩⟩
  · constructor
    · intro same
      exact KeywordSet.mem_iff_of_default_matcher_eq (same {})
    · exact sameMatcher
  · constructor
    · exact KeywordSet.mem_iff_of_default_matcher_eq
    · intro same
      exact sameMatcher same {}

end KeywordSwitch
