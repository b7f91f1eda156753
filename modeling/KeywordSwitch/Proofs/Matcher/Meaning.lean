import KeywordSwitch.Proofs.Matcher.ReadBack
import KeywordSwitch.Proofs.Switch.Running

/-!
# What a matcher means

A matcher in a readable style can be read, and the switch that is read consumes the
longest stop of the trie that stands at the start of the input. It assigns the token
of the stop if the stop is a word, and no token otherwise.
-/

namespace KeywordSwitch

/-- What the matcher of a trie does with an input. -/
def Trie.outcome (t : Trie) (s : Style) (input : Text) : Outcome :=
  match t.lastStop? input.bytes with
  | some p => ⟨if t.contains p then [s.token p] else [], p.length⟩
  | none => ⟨[], 0⟩

/-- Reads a switch from its lines and runs it on an input. -/
def Switch.interpret (lines : List Text) (input : Text) : Except Rejection Outcome :=
  (parse lines).map (·.run input)

variable {s : Style} {t : Trie}

theorem run_mapTokens_ofTrie (canonical : t.Canonical) (s : Style) (input : Text) :
    (Switch.mapTokens s.token (.ofTrie t)).run input = t.outcome s input := by
  rw [Switch.run_mapTokens, Switch.run_ofTrie canonical, Trie.outcome]
  cases t.lastStop? input.bytes with
  | none => rfl
  | some p => simp only [apply_ite (List.map s.token), List.map_singleton, List.map_nil]

theorem interpret_matcher (hs : s.Readable) (canonical : t.Canonical) (input : Text) :
    Switch.interpret (s.matcher t) input = .ok (t.outcome s input) := by
  calc
    Switch.interpret (s.matcher t) input =
        .ok ((Switch.mapTokens s.token (.ofTrie t)).run input) := by
      rw [Switch.interpret, Switch.parse_matcher hs]
      rfl
    _ = .ok (t.outcome s input) := by
      rw [run_mapTokens_ofTrie canonical]

/-- Either the longest stop is consumed, or no stop stands at the start of the input and nothing is
done. -/
theorem Trie.outcome_cases (t : Trie) (s : Style) (input : Text) :
    (∃ p, t.IsLongestStop input.bytes p ∧
        t.outcome s input = ⟨if t.contains p then [s.token p] else [], p.length⟩) ∨
      (∀ p, t.IsStop p → ¬ p.StandsAt input.bytes 0) ∧ t.outcome s input = ⟨[], 0⟩ := by
  rw [outcome]
  cases h : t.lastStop? input.bytes with
  | none => exact Or.inr ⟨fun p => not_standsAt_of_lastStop? h, rfl⟩
  | some p => exact Or.inl ⟨p, isLongestStop_of_lastStop? h, rfl⟩

/-- On every input the switch consumes the longest stop that stands at its start, and assigns the
token of the stop if a word ends there. If no stop stands there, nothing is done. -/
def Switch.ConsumesStops (w : Switch) (t : Trie) (token : Text → Text) : Prop :=
  ∀ input : Text,
    (∃ p, t.IsLongestStop input.bytes p ∧
        w.run input = ⟨if t.contains p then [token p] else [], p.length⟩) ∨
      (∀ p, t.IsStop p → ¬ p.StandsAt input.bytes 0) ∧ w.run input = ⟨[], 0⟩

/-- The matcher of any list of words is read without a fault, as a switch that consumes the stops of
their trie. -/
theorem matcher_consumesStops (hs : s.Readable) (ws : List Text) :
    ∃ w, Switch.parse (s.matcher (.ofList ws)) = .ok w ∧
      w.ConsumesStops (.ofList ws) s.token := by
  refine ⟨_, Switch.parse_matcher hs (.ofList ws), fun input => ?_⟩
  rw [run_mapTokens_ofTrie (Trie.canonical_ofList ws)]
  exact Trie.outcome_cases (.ofList ws) s input

/-- Any words do, and so does a token variable of one slash. -/
theorem slash_matcher_consumesStops :
    ({ tokenTarget := ['/'], tokenPrefix := [';'], banner := [[], ['\t', '/', '/']] } :
      Style).Readable ∧
      ∃ w, Switch.parse (Style.matcher
          { tokenTarget := ['/'], tokenPrefix := [';'], banner := [[], ['\t', '/', '/']] }
          (.ofList [[], "a;".toList, ['\n', 'é']])) = .ok w ∧
        w.ConsumesStops (.ofList [[], "a;".toList, ['\n', 'é']]) (Style.token
          { tokenTarget := ['/'], tokenPrefix := [';'], banner := [[], ['\t', '/', '/']] }) := by
  have readable : ({ tokenTarget := ['/'], tokenPrefix := [';'],
                     banner := [[], ['\t', '/', '/']] } : Style).Readable := by
    decide
  exact ⟨readable, matcher_consumesStops readable [[], "a;".toList, ['\n', 'é']]⟩

end KeywordSwitch
