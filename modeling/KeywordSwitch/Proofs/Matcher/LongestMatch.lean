import KeywordSwitch.Proofs.Matcher.Keywords
import Mathlib.Data.Finset.Max

/-!
# Longest match

The matcher of a keyword set loses a keyword if the input goes on from it to a fork of
longer keywords and follows none of them. On every other input the longest keyword
wins, so it wins on all inputs exactly if no keyword has such a fork after it.
-/

namespace KeywordSwitch

namespace KeywordSet

variable {K : KeywordSet} {p w input : Text}

/-- The longest of the keywords that the input begins with. -/
structure IsLongestMatch (K : KeywordSet) (input w : Text) : Prop where
  mem : w ∈ K
  begins : w <+: input
  longest : ∀ v ∈ K, v <+: input → v.length ≤ w.length

/-- The outcome is the token of the longest keyword that the input begins with, which is consumed.
If there is no such keyword, no token is given. -/
structure MatchesLongest (K : KeywordSet) (input : Text) (o : Outcome) : Prop where
  of_match : ∀ w, K.IsLongestMatch input w →
    o = ⟨[({} : Style).tokenPrefix ++ w], w.length⟩
  of_no_match : (∀ w ∈ K, ¬ w <+: input) → o.tokens = []

/-- The input begins with a keyword, and past all keywords that it begins with it reaches a fork
that is no keyword. -/
def Overruns (K : KeywordSet) (input : Text) : Prop :=
  ∃ p, p <+: input ∧ p ∉ K ∧ K.ForksAt p ∧ (∃ k ∈ K, k <+: p) ∧
    ∀ k ∈ K, k <+: input → k <+: p

theorem exists_isLongestMatch (mem : w ∈ K) (begins : w <+: input) :
    ∃ v, K.IsLongestMatch input v := by
  have nonempty : (K.words.toFinset.filter (· <+: input)).Nonempty :=
    ⟨w, by simpa using ⟨mem, begins⟩⟩
  obtain ⟨v, hv, longest⟩ := Finset.exists_max_image _ List.length nonempty
  rw [Finset.mem_filter, List.mem_toFinset] at hv
  refine ⟨v, hv.1, hv.2, fun u hu h => longest u ?_⟩
  simpa using ⟨hu, h⟩

/-- Once the longest stop is a keyword, no fork lies past it. -/
theorem not_overruns_of_mem (longest : K.trie.IsLongestStop input.bytes p) (mem : p ∈ K) :
    ¬ K.Overruns input := by
  rintro ⟨q, begins, notMem, forks, ⟨k, hk, inside⟩, past⟩
  have filled : q ≠ [] := by
    rintro rfl
    exact (K.isKeyword k hk).1 (List.prefix_nil.mp inside)
  have forth : q <+: p := prefix_of_isStop longest (isStop_trie_of_forksAt filled forks) begins
  have back : p <+: q := past p mem (prefix_of_isLongestStop longest)
  have same := back.eq_of_length_le forth.length_le
  subst same
  exact notMem mem

/-- A stop past a keyword has two characters or more, so it is a keyword or a fork. -/
theorem overruns_of_not_mem (longest : K.trie.IsLongestStop input.bytes p) (notMem : p ∉ K)
    (mem : w ∈ K) (begins : w <+: input) : K.Overruns input := by
  have past : ∀ k ∈ K, k <+: input → k <+: p := fun k hk h =>
    prefix_of_isStop longest (isStop_trie_of_mem hk) h
  have inside := past w mem begins
  refine ⟨p, prefix_of_isLongestStop longest, notMem, ?_, ⟨w, mem, inside⟩, past⟩
  obtain ⟨-, single | isKeyword | forks⟩ :=
    (isStop_trie_iff longest.isStop.1).mp longest.isStop
  · have filled := List.length_pos_iff.mpr (K.isKeyword w mem).1
    have same := inside.eq_of_length_le (by omega)
    subst same
    exact absurd mem notMem
  · exact absurd isKeyword notMem
  · exact forks

/-- The matcher overruns a keyword exactly if it gives no token although the input begins with a
keyword. -/
theorem overruns_iff (K : KeywordSet) (s : Style) (input : Text) :
    K.Overruns input ↔ (K.trie.outcome s input).tokens = [] ∧ ∃ w ∈ K, w <+: input := by
  have exists_keyword : K.Overruns input → ∃ w ∈ K, w <+: input := by
    rintro ⟨p, begins, -, -, ⟨k, hk, inside⟩, -⟩
    exact ⟨k, hk, inside.trans begins⟩
  obtain ⟨p, longest, ⟨mem, outcome⟩ | ⟨notMem, outcome⟩⟩ | ⟨fails, outcome⟩ :=
    K.outcome_trie_cases s input <;> rw [outcome]
  · apply iff_of_false (not_overruns_of_mem longest mem)
    simp
  · constructor
    · intro overrun
      exact ⟨rfl, exists_keyword overrun⟩
    · rintro ⟨-, w, mem, begins⟩
      exact overruns_of_not_mem longest notMem mem begins
  · constructor
    · intro overrun
      exact ⟨rfl, exists_keyword overrun⟩
    · rintro ⟨-, w, mem, begins⟩
      exact absurd begins (fails w (isStop_trie_of_mem mem))

/-- The longest keyword wins exactly if no keyword is overrun. -/
theorem matchesLongest_outcome_iff (K : KeywordSet) (input : Text) :
    K.MatchesLongest input (K.trie.outcome {} input) ↔ ¬ K.Overruns input := by
  constructor
  · intro matches_ overrun
    obtain ⟨noToken, w, mem, begins⟩ := (K.overruns_iff {} input).mp overrun
    obtain ⟨v, longest⟩ := exists_isLongestMatch mem begins
    rw [matches_.of_match v longest] at noToken
    simp at noToken
  · intro notOver
    obtain ⟨p, longest, ⟨mem, outcome⟩ | ⟨notMem, outcome⟩⟩ | ⟨fails, outcome⟩ :=
      K.outcome_trie_cases {} input <;> rw [outcome]
    · refine ⟨fun w isLongest => ?_, fun noMatch => ?_⟩
      · have inside : w <+: p :=
          prefix_of_isStop longest (isStop_trie_of_mem isLongest.mem) isLongest.begins
        have same := inside.eq_of_length_le
          (isLongest.longest p mem (prefix_of_isLongestStop longest))
        rw [same]
      · exact absurd (prefix_of_isLongestStop longest) (noMatch p mem)
    · refine ⟨fun w isLongest => ?_, fun _ => rfl⟩
      exact absurd (overruns_of_not_mem longest notMem isLongest.mem isLongest.begins) notOver
    · refine ⟨fun w isLongest => ?_, fun _ => rfl⟩
      exact absurd isLongest.begins (fails w (isStop_trie_of_mem isLongest.mem))

theorem interpret_default_matcher (K : KeywordSet) (input : Text) :
    Switch.interpret (Style.matcher {} K.trie) input = .ok (K.trie.outcome {} input) :=
  K.interpret_matcher_trie ({} : Style).tokenPrefix input

/-- On every input either the longest keyword wins or a keyword is overrun, and in that case no
token is given although the input begins with a keyword. -/
theorem matchesLongest_iff_not_overruns (K : KeywordSet) (input : Text) :
    ∃ o, Switch.interpret (Style.matcher {} K.trie) input = .ok o ∧
      (K.MatchesLongest input o ↔ ¬ K.Overruns input) ∧
      (K.Overruns input ↔ o.tokens = [] ∧ ∃ w ∈ K, w <+: input) := by
  refine ⟨_, K.interpret_default_matcher input, ?_, ?_⟩
  · exact K.matchesLongest_outcome_iff input
  · exact K.overruns_iff {} input

/-- The keyword `if` is lost where the input leaves the fork of `ifdef` and `ifdex`. -/
theorem not_forall_matchesLongest :
    ¬ ∀ (K : KeywordSet) (input : Text), ∃ o,
      Switch.interpret (Style.matcher {} K.trie) input = .ok o ∧ K.MatchesLongest input o := by
  intro h
  obtain ⟨o, run, longest⟩ :=
    h ⟨["if".toList, "ifdef".toList, "ifdex".toList], by decide, by decide⟩ "ifde ".toList
  rw [interpret_default_matcher] at run
  cases run
  rw [matchesLongest_outcome_iff] at longest
  have past : ∀ k ∈ ["if".toList, "ifdef".toList, "ifdex".toList],
      k <+: "ifde ".toList → k <+: "ifde".toList := by
    decide
  apply longest
  refine ⟨"ifde".toList, by decide, by decide, ?_, ⟨"if".toList, by decide⟩, past⟩
  exact ⟨'f', 'x', by decide, ⟨"ifdef".toList, by decide⟩, ⟨"ifdex".toList, by decide⟩⟩

/-- The longest keyword wins on every input exactly if no fork that is no keyword lies past a
keyword. -/
theorem forall_matchesLongest_iff (K : KeywordSet) :
    (∀ input, ∃ o, Switch.interpret (Style.matcher {} K.trie) input = .ok o ∧
        K.MatchesLongest input o) ↔
      ¬ ∃ k p, k ∈ K ∧ k <+: p ∧ k ≠ p ∧ p ∉ K ∧ K.ForksAt p := by
  constructor
  · rintro h ⟨k, p, mem, inside, -, notMem, forks⟩
    obtain ⟨o, run, longest⟩ := h p
    rw [interpret_default_matcher] at run
    cases run
    -- The input that ends at the fork itself is already one on which the keyword is lost.
    have overrun : K.Overruns p :=
      ⟨p, List.prefix_rfl, notMem, forks, ⟨k, mem, inside⟩, fun _ _ begins => begins⟩
    exact (K.matchesLongest_outcome_iff p).mp longest overrun
  · intro safe input
    refine ⟨_, K.interpret_default_matcher input, ?_⟩
    rw [matchesLongest_outcome_iff]
    rintro ⟨p, -, notMem, forks, ⟨k, mem, inside⟩, -⟩
    have different : k ≠ p := by
      rintro rfl
      exact notMem mem
    exact safe ⟨k, p, mem, inside, different, notMem, forks⟩

end KeywordSet

end KeywordSwitch
