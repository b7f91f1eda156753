import KeywordSwitch.Proofs.Matcher.Keywords

/-!
# Keywords at a word boundary

A matcher followed by a look at the next byte recognises exactly the keywords: it gives
one token and stops before no word character if and only if all word characters that
the input begins with make a keyword.
-/

namespace KeywordSwitch

/-- The byte after all that is consumed is missing or no word character. -/
def Outcome.EndsWord (o : Outcome) (input : Text) : Prop :=
  ∀ c ∈ input.bytes[o.consumed]?, isWordChar c = false

namespace KeywordSet

variable {K : KeywordSet} {p input : Text}

/-- The longest stop neither falls short of the first word of the input nor goes on after it, if
that word is a keyword. -/
theorem eq_takeWhile_of_isLongestStop (mem : input.takeWhile isWordChar ∈ K)
    (longest : K.trie.IsLongestStop input.bytes p) : p = input.takeWhile isWordChar := by
  have inside : p <+: input.takeWhile isWordChar :=
    (Text.prefix_takeWhile_iff (isWordChar_of_isStop longest.isStop)).mpr
      (prefix_of_isLongestStop longest)
  have reached : input.takeWhile isWordChar <+: p :=
    prefix_of_isStop longest (isStop_trie_of_mem mem) (List.takeWhile_prefix isWordChar)
  exact inside.eq_of_length_le reached.length_le

theorem outcome_trie_of_takeWhile_mem (mem : input.takeWhile isWordChar ∈ K) (s : Style) :
    K.trie.outcome s input =
      ⟨[s.tokenPrefix ++ input.takeWhile isWordChar], (input.takeWhile isWordChar).length⟩ := by
  obtain ⟨p, longest, outcome⟩ | ⟨fails, -⟩ := K.outcome_trie_cases s input
  · have same := eq_takeWhile_of_isLongestStop mem longest
    subst same
    obtain ⟨-, outcome⟩ | ⟨notMem, -⟩ := outcome
    · exact outcome
    · exact absurd mem notMem
  · exact absurd (List.takeWhile_prefix isWordChar) (fails _ (isStop_trie_of_mem mem))

/-- A token before the end of a word is the token of the whole word. -/
theorem takeWhile_mem_of_endsWord {s : Style} (single : (K.trie.outcome s input).tokens.length = 1)
    (ends : (K.trie.outcome s input).EndsWord input) : input.takeWhile isWordChar ∈ K := by
  obtain ⟨p, longest, ⟨mem, outcome⟩ | ⟨-, outcome⟩⟩ | ⟨-, outcome⟩ :=
    K.outcome_trie_cases s input
  · have word := isWordChar_of_isStop longest.isStop
    have begins := (Text.standsAt_zero_iff word).mp longest.standsAt
    rw [outcome] at ends
    rw [← Text.takeWhile_bytes, Text.takeWhile_eq_of_prefix word begins ends]
    exact mem
  · rw [outcome] at single
    simp at single
  · rw [outcome] at single
    simp at single

/-- The matcher gives one token and ends a word exactly if the first word of the input is a keyword,
and then it gives the token of that word and consumes the word. -/
theorem takeWhile_mem_iff_endsWord (K : KeywordSet) (pre input : Text) :
    (input.takeWhile isWordChar ∈ K ↔
        ∃ o, Switch.interpret (Style.matcher { tokenPrefix := pre } K.trie) input = .ok o ∧
          o.tokens.length = 1 ∧ o.EndsWord input) ∧
      (input.takeWhile isWordChar ∈ K ↔
        Switch.interpret (Style.matcher { tokenPrefix := pre } K.trie) input =
          .ok ⟨[pre ++ input.takeWhile isWordChar], (input.takeWhile isWordChar).length⟩) := by
  rw [interpret_matcher_trie]
  have ends : Outcome.EndsWord
      ⟨[pre ++ input.takeWhile isWordChar], (input.takeWhile isWordChar).length⟩ input := by
    have following := Text.getElem?_length_takeWhile input.bytes
    rwa [Text.takeWhile_bytes] at following
  constructor
  · constructor
    · intro mem
      refine ⟨_, rfl, ?_⟩
      rw [outcome_trie_of_takeWhile_mem mem]
      exact ⟨rfl, ends⟩
    · rintro ⟨_, ⟨⟩, single, endsWord⟩
      exact takeWhile_mem_of_endsWord single endsWord
  · constructor
    · intro mem
      rw [outcome_trie_of_takeWhile_mem mem]
    · intro h
      have outcome := Except.ok.inj h
      apply takeWhile_mem_of_endsWord (s := { tokenPrefix := pre })
      · rw [outcome]
        rfl
      · rw [outcome]
        exact ends

end KeywordSet

end KeywordSwitch
