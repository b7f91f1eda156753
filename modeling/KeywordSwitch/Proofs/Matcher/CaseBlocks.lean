import KeywordSwitch.Proofs.Matcher.Meaning
import KeywordSwitch.Proofs.Switch.Nesting
import KeywordSwitch.Proofs.Trie.Equality
import KeywordSwitch.Proofs.Trie.Walks

/-!
# The case blocks of a matcher

A matcher has one block for each first character of its words, in ascending order. A block
is made from the entry of its character alone, and so from the words that begin with the
character. What a matcher does with an input is told by the block of the first byte. Between
its label and its last line, which is empty, the lines of a block are nested as its code is.
-/

namespace KeywordSwitch

/-- The lines of the case for a character, or none if no word begins with it. -/
def Style.caseBlock (s : Style) (t : Trie) (c : Char) : List Text :=
  (t.branches.child? c).elim [] fun n => s.caseLines (.ofChild c n)

variable {s : Style} {t u : Trie} {c : Char}

/-- A matcher is its blocks, in the order of the entries at the top of the trie. -/
theorem matcher_eq_caseBlocks (canonical : t.Canonical) (s : Style) :
    s.matcher t = s.banner ++ [] :: generatedWarning ++
      (t.children.map Prod.fst).flatMap (s.caseBlock t) := by
  have block : ∀ p ∈ t.children, s.caseLines (.ofChild p.1 p.2) = s.caseBlock t p.1 := by
    intro p mem
    rw [Style.caseBlock, Branches.child?_of_mem_toList canonical mem, Option.elim_some]
  rw [Style.matcher, Style.switchLines, Switch.ofTrie, List.flatMap_map, List.flatMap_map,
    List.flatMap_congr block]

theorem mem_firsts_iff {ws : List Text} :
    c ∈ (Trie.ofList ws).children.map Prod.fst ↔ ∃ w, c :: w ∈ ws := by
  rw [Trie.children, Branches.mem_chars_iff,
    Trie.isSome_child?_iff (Trie.canonical_ofList ws) (Trie.descend?_nil _)]
  simp only [List.nil_append, Trie.contains_ofList]

/-- A block begins with its label and ends with an empty line. -/
theorem exists_caseBlock_eq (s : Style) (entry : (t.branches.child? c).isSome = true) :
    ∃ body, s.caseBlock t c =
      ("case '".toList ++ c :: "':".toList) :: body ++ ["\tbreak;".toList, []] := by
  obtain ⟨n, hn⟩ := Option.isSome_iff_exists.mp entry
  refine ⟨s.lines 1 [] (Case.ofChild c n).code, ?_⟩
  rw [Style.caseBlock, hn, Option.elim_some]
  rfl

/-- What a matcher does is told by the entry of the first byte. -/
theorem Trie.outcome_congr {input : Text} (first : input.bytes.head? = some c)
    (same : t.branches.child? c = u.branches.child? c) (s : Style) :
    t.outcome s input = u.outcome s input := by
  obtain ⟨bytes, hBytes⟩ := List.head?_eq_some_iff.mp first
  have here : input.bytes.getD 0 '\x00' = c := by rw [hBytes]; rfl
  rw [outcome, outcome, lastStop?, lastStop?, here, same]
  cases inU : u.branches.child? c with
  | none => rfl
  | some n =>
      -- The longest stop begins with the first byte, so both tries know it alike.
      simp only [Option.map_some, contains_cons, same, inU]

/-- A matcher is one block for each first character, in ascending order. Words that begin with
another character change neither the lines of a block nor what the default matcher does with an
input that begins with its character. -/
theorem caseBlocks_independent :
    (∀ (s : Style) (ws : List Text), ∃ firsts : List Char,
      firsts.Pairwise (· < ·) ∧ (∀ c, c ∈ firsts ↔ ∃ w, c :: w ∈ ws) ∧
      s.matcher (.ofList ws) =
        s.banner ++ [] :: generatedWarning ++ firsts.flatMap (s.caseBlock (.ofList ws)) ∧
      ∀ c ∈ firsts, ∃ body, s.caseBlock (.ofList ws) c =
        ("case '".toList ++ c :: "':".toList) :: body ++ ["\tbreak;".toList, []]) ∧
    ∀ (c : Char) (ws vs : List Text), (∀ w, c :: w ∈ ws ↔ c :: w ∈ vs) →
      (∀ s : Style, s.caseBlock (.ofList ws) c = s.caseBlock (.ofList vs) c) ∧
      ∀ input : Text, input.bytes.head? = some c →
        ∃ o, Switch.interpret (({} : Style).matcher (.ofList ws)) input = .ok o ∧
          Switch.interpret (({} : Style).matcher (.ofList vs)) input = .ok o := by
  constructor
  · intro s ws
    have canonical := Trie.canonical_ofList ws
    refine ⟨(Trie.ofList ws).children.map Prod.fst, Branches.pairwise_chars canonical,
      fun c => mem_firsts_iff, matcher_eq_caseBlocks canonical s, fun c mem => ?_⟩
    exact exists_caseBlock_eq s (Branches.mem_chars_iff.mp mem)
  · intro c ws vs same
    have entry := Trie.child?_ofList_eq same
    refine ⟨fun s => by rw [Style.caseBlock, Style.caseBlock, entry], fun input first => ?_⟩
    have readable : ({} : Style).Readable := Style.readable_of_tokenPrefix ({} : Style).tokenPrefix
    refine ⟨(Trie.ofList vs).outcome {} input, ?_,
      interpret_matcher readable (Trie.canonical_ofList vs) input⟩
    rw [interpret_matcher readable (Trie.canonical_ofList ws), Trie.outcome_congr first entry]

/-- Two words that begin alike, put in with other words around them and in another order. -/
theorem caseBlocks_of_if_and_ifdef :
    (∀ w, 'i' :: w ∈ ["if".toList, "on".toList, "ifdef".toList, []] ↔
      'i' :: w ∈ ["ifdef".toList, "ox".toList, "if".toList, "if".toList]) ∧
    (∀ s : Style, s.caseBlock (.ofList ["if".toList, "on".toList, "ifdef".toList, []]) 'i' =
      s.caseBlock (.ofList ["ifdef".toList, "ox".toList, "if".toList, "if".toList]) 'i') ∧
    (Text.bytes "ifx".toList).head? = some 'i' ∧ ∃ o,
      Switch.interpret (({} : Style).matcher
        (.ofList ["if".toList, "on".toList, "ifdef".toList, []])) "ifx".toList = .ok o ∧
      Switch.interpret (({} : Style).matcher
        (.ofList ["ifdef".toList, "ox".toList, "if".toList, "if".toList])) "ifx".toList =
          .ok o := by
  have same : ∀ w, 'i' :: w ∈ ["if".toList, "on".toList, "ifdef".toList, []] ↔
      'i' :: w ∈ ["ifdef".toList, "ox".toList, "if".toList, "if".toList] := by
    intro w
    simp [or_comm]
  have first : (Text.bytes "ifx".toList).head? = some 'i' := by decide
  obtain ⟨blocks, runs⟩ := caseBlocks_independent.2 'i' _ _ same
  exact ⟨same, blocks, first, runs "ifx".toList first⟩

/-- In the default style the lines of each block between its label and its last line are well
nested. -/
theorem caseBlocks_wellNested (t : Trie) :
    ∃ blocks : List (Char × List Text),
      ({} : Style).matcher t = ({} : Style).banner ++ [] :: generatedWarning ++
        blocks.flatMap (fun b => ("case '".toList ++ b.1 :: "':".toList) :: b.2 ++ [[]]) ∧
      ∀ b ∈ blocks, WellNested (b.2.map Line.ofText) := by
  refine ⟨(Switch.ofTrie t).map fun k =>
    (k.label, ({} : Style).lines 1 [] k.code ++ ["\tbreak;".toList]), ?_, ?_⟩
  · have block : ∀ k ∈ Switch.ofTrie t, ({} : Style).caseLines k =
        ("case '".toList ++ k.label :: "':".toList) ::
          (({} : Style).lines 1 [] k.code ++ ["\tbreak;".toList]) ++ [[]] := by
      intro k _
      simp [Style.caseLines]
    rw [Style.matcher, Style.switchLines, List.flatMap_map, List.flatMap_congr block]
  · intro b mem
    obtain ⟨k, inSwitch, rfl⟩ := List.mem_map.mp mem
    exact wellNested_caseBody (Switch.asksForPaths_ofTrie t k inSwitch)

end KeywordSwitch
