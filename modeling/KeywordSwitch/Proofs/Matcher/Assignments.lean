import KeywordSwitch.Declaration
import KeywordSwitch.Matcher
import KeywordSwitch.Proofs.Switch.Arms
import KeywordSwitch.Proofs.Switch.ReadableStyle
import KeywordSwitch.Proofs.Trie.LongerFirst

/-!
# The assignments of a matcher

In the default style the assignment lines of a matcher can be told from all other lines
by how they begin and end. Read from top to bottom they name each word of the trie once,
longer words first, whatever has been collapsed on the way to it.

## Implementation notes

The words are followed through three forms: the lines of a matcher, the tokens of its
code, and the words of its trie in the order in which a walk leaves them.
-/

namespace KeywordSwitch

/-- The word that a line assigns, if it is an assignment of the default style. -/
def assignedWord? (line : Text) : Option Text := do
  let rest ← "tokenInfo.Type = ASyntaxLexeme::Type::Kw_".toList.isPrefixOf?
    (line.dropWhile (· = '\t'))
  [';'].isSuffixOf? rest

/-- The words that lines assign in the default style, from the first line to the last. -/
def assignedWords (lines : List Text) : List Text :=
  lines.filterMap assignedWord?

/-- The word that a declaration names: what stands before the first comma between the brackets. -/
def Style.declaredWord? (s : Style) (line : Text) : Option Text :=
  ((s.macroName ++ " (".toList).isPrefixOf? line).map (·.takeWhile (· ≠ ','))

/-- The tokens of all assignments, in the order in which they are written. -/
def Code.tokens : Code → List Text
  | done => []
  | advance next => next.tokens
  | assign token next => token :: next.tokens
  | block body next => body.tokens ++ next.tokens
  | branch _ matched otherwise next => matched.tokens ++ otherwise.tokens ++ next.tokens

theorem assignedWords_append (first second : List Text) :
    assignedWords (first ++ second) = assignedWords first ++ assignedWords second := by
  rw [assignedWords, List.filterMap_append, assignedWords, assignedWords]

section Lines

/-- A line that begins with another character than the token variable is no assignment. -/
theorem assignedWord?_of_head? {c : Char} {line : Text} (hHead : line.head? = some c)
    (hFirst : c ≠ '\t' ∧ c ≠ 't') (d : Nat) : assignedWord? (tabs d ++ line) = none := by
  obtain ⟨line, rfl⟩ := List.head?_eq_some_iff.mp hHead
  have differs : ('t' == c) = false := by simpa using Ne.symm hFirst.2
  rw [assignedWord?, List.dropWhile_append_of_pos isTab_of_mem_tabs,
    List.dropWhile_cons_of_neg (by simpa using hFirst.1)]
  simp [List.isPrefixOf?, differs]

theorem assignedWord?_assignment (d : Nat) (w : Text) :
    assignedWord? (tabs d ++ ({} : Style).assignment w) = some w := by
  have kept : (({} : Style).assignment w).dropWhile (· = '\t') = ({} : Style).assignment w := rfl
  have begins : "tokenInfo.Type = ASyntaxLexeme::Type::Kw_".toList.isPrefixOf?
      (({} : Style).assignment w) = some (w ++ [';']) :=
    List.isPrefixOf?_eq_some_iff_append_eq.mpr rfl
  rw [assignedWord?, List.dropWhile_append_of_pos isTab_of_mem_tabs, kept, begins]
  exact List.isSuffixOf?_eq_some_iff_append_eq.mpr rfl

theorem assignedWords_cons_of_head? {c : Char} {line : Text} (hHead : line.head? = some c)
    (hFirst : c ≠ '\t' ∧ c ≠ 't') (d : Nat) (lines : List Text) :
    assignedWords ((tabs d ++ line) :: lines) = assignedWords lines :=
  List.filterMap_cons_none (assignedWord?_of_head? hHead hFirst d)

theorem assignedWords_braced (d : Nat) (body : List Text) :
    assignedWords (braced d body) = assignedWords body := by
  rw [braced, List.cons_append, assignedWords_cons_of_head? (c := '{') rfl (by decide),
    assignedWords_append, assignedWords_cons_of_head? (c := '}') rfl (by decide)]
  exact List.append_nil _

theorem assignedWords_furtherTests (s : Style) (d : Nat) (conds : List Cond) :
    assignedWords (s.furtherTests d conds) = [] := by
  induction conds with
  | nil => rfl
  | cons cond conds ih =>
      rw [Style.furtherTests_cons,
        assignedWords_cons_of_head? (s.head?_testLine (c := '&') rfl _ _) (by decide), ih]

theorem assignedWords_condition {lead : Text} {c : Char}
    (hHead : (lead ++ "if (".toList).head? = some c) (hFirst : c ≠ '\t' ∧ c ≠ 't') (s : Style)
    (d : Nat) (conds : List Cond) : assignedWords (s.condition d lead conds) = [] := by
  cases conds with
  | nil => rfl
  | cons cond conds =>
      rw [Style.condition_cons, assignedWords_cons_of_head? (s.head?_testLine hHead _ _) hFirst,
        assignedWords_furtherTests]

/-- The words assigned in the lines of code are its tokens. -/
theorem assignedWords_lines (code : Code) (d : Nat) (lead : Text) {c : Char}
    (hHead : (lead ++ "if (".toList).head? = some c) (hFirst : c ≠ '\t' ∧ c ≠ 't') :
    assignedWords (({} : Style).lines d lead code) = code.tokens := by
  induction code generalizing d lead c with
  | done => rfl
  | advance next ih =>
      rw [Style.lines, assignedWords_cons_of_head? (c := 'A') rfl (by decide),
        ih d [] (c := 'i') rfl (by decide)]
      rfl
  | assign token next ih =>
      rw [Style.lines, assignedWords, List.filterMap_cons_some (assignedWord?_assignment d token),
        ← assignedWords, ih d [] (c := 'i') rfl (by decide)]
      rfl
  | block body next ihBody ihNext =>
      rw [Style.lines, assignedWords_append, assignedWords_braced,
        ihBody (d + 1) [] (c := 'i') rfl (by decide),
        ihNext d [] (c := 'i') rfl (by decide)]
      rfl
  | branch conds matched otherwise next ihMatched ihOtherwise ihNext =>
      have part : assignedWords (if otherwise.isDone then []
          else if otherwise.isBranch then ({} : Style).lines d "else ".toList otherwise
          else (tabs d ++ "else".toList) ::
            braced d (({} : Style).lines (d + 1) [] otherwise)) = otherwise.tokens := by
        split
        case isTrue empty =>
          cases otherwise with
          | done => rfl
          | advance | assign | block | branch => simp [Code.isDone] at empty
        case isFalse =>
          split
          · exact ihOtherwise d "else ".toList (c := 'e') rfl (by decide)
          · rw [assignedWords_cons_of_head? (c := 'e') rfl (by decide), assignedWords_braced]
            exact ihOtherwise (d + 1) [] (c := 'i') rfl (by decide)
      rw [Style.lines, assignedWords_append, assignedWords_append, assignedWords_append,
        assignedWords_condition hHead hFirst, assignedWords_braced, part,
        ihMatched (d + 1) [] (c := 'i') rfl (by decide),
        ihNext d [] (c := 'i') rfl (by decide)]
      rfl

theorem assignedWords_caseLines (k : Case) :
    assignedWords (({} : Style).caseLines k) = k.code.tokens := by
  have first : ("case '".toList ++ k.label :: "':".toList).head? = some 'c' := rfl
  have whole : ({} : Style).caseLines k =
      (tabs 0 ++ ("case '".toList ++ k.label :: "':".toList)) ::
        (({} : Style).lines 1 [] k.code ++ ["\tbreak;".toList, []]) := rfl
  have last : assignedWords ["\tbreak;".toList, []] = [] := by decide
  rw [whole, assignedWords_cons_of_head? first (by decide), assignedWords_append, last,
    List.append_nil]
  exact assignedWords_lines k.code 1 [] (c := 'i') rfl (by decide)

/-- The banner and the warning assign nothing, so the words of a matcher are those of its cases. -/
theorem assignedWords_matcher (t : Trie) :
    assignedWords (({} : Style).matcher t) = (Switch.ofTrie t).flatMap (·.code.tokens) := by
  have comments : assignedWords (({} : Style).banner ++ [] :: generatedWarning) = [] := by
    decide +kernel
  rw [Style.matcher, assignedWords_append, comments, List.nil_append, Style.switchLines]
  induction Switch.ofTrie t with
  | nil => rfl
  | cons k cases ih =>
      rw [List.flatMap_cons, assignedWords_append, assignedWords_caseLines, ih, List.flatMap_cons]

end Lines

section Arms

theorem Code.tokens_select (arms : List Arm) (final : Code) :
    (select arms final).tokens = arms.flatMap (·.code.tokens) ++ final.tokens := by
  induction arms with
  | nil => rfl
  | cons arm arms ih => simp [select, tokens, ih]

/-- The tokens of the arms come first, and the word of the node itself last. -/
theorem Code.tokens_ofArms (word : Text) (terminal : Bool) (arms : List Arm) :
    (ofArms word terminal arms).tokens =
      arms.flatMap (·.code.tokens) ++ if terminal then [word] else [] := by
  rw [ofArms, tokens, tokens_select]
  cases terminal <;> rfl

/-- Joining an entry with its only arm drops no token. -/
theorem Arm.tokens_extend (c : Char) (word : Text) (terminal : Bool) (arms : List Arm) :
    (extend c word terminal arms).code.tokens =
      arms.flatMap (·.code.tokens) ++ if terminal then [word] else [] := by
  obtain ⟨arm, rfl, rfl, joined⟩ | ⟨-, own⟩ := extend_cases c word terminal arms
  · rw [joined]
    simp
  · rw [own, Code.tokens_ofArms]

theorem Branches.tokens_arms (b : Branches) (word : Text) :
    (b.arms word).flatMap (·.code.tokens) = b.wordsLeft word := by
  induction b generalizing word with
  | nil => rfl
  | cons c terminal below rest ihBelow ihRest =>
      rw [arms, List.flatMap_cons, Arm.tokens_extend, ihBelow, ihRest, wordsLeft]

theorem Switch.tokens_ofTrie (t : Trie) :
    (ofTrie t).flatMap (·.code.tokens) = t.branches.wordsLeft [] := by
  rw [ofTrie, Trie.children]
  induction t.branches with
  | nil => rfl
  | cons c terminal below rest _ ih =>
      rw [Branches.toList, List.map_cons, List.flatMap_cons, ih, Branches.wordsLeft]
      change (Code.ofArms [c] terminal (below.arms [c])).tokens ++ _ = _
      rw [Code.tokens_ofArms, Branches.tokens_arms]
      rfl

end Arms

theorem assignedWords_matcher_eq (t : Trie) :
    assignedWords (({} : Style).matcher t) = t.branches.wordsLeft [] :=
  (assignedWords_matcher t).trans (Switch.tokens_ofTrie t)

theorem mem_assignedWords_matcher_iff (ws : List Text) (w : Text) :
    w ∈ assignedWords (({} : Style).matcher (.ofList ws)) ↔ w ∈ ws ∧ w ≠ [] := by
  rw [assignedWords_matcher_eq, Branches.mem_wordsLeft_iff (Trie.canonical_ofList ws)]
  constructor
  · rintro ⟨p, filled, mem, rfl⟩
    rw [← Trie.contains_of_ne_nil filled (.ofList ws), Trie.contains_ofList] at mem
    exact ⟨mem, filled⟩
  · rintro ⟨mem, filled⟩
    refine ⟨w, filled, ?_, rfl⟩
    rw [← Trie.contains_of_ne_nil filled (.ofList ws), Trie.contains_ofList]
    exact mem

theorem pairwise_assignedWords_matcher (ws : List Text) :
    (assignedWords (({} : Style).matcher (.ofList ws))).Pairwise Text.LongerFirst := by
  rw [assignedWords_matcher_eq]
  exact Branches.pairwise_wordsLeft (Trie.canonical_ofList ws) []

theorem nodup_assignedWords_matcher (ws : List Text) :
    (assignedWords (({} : Style).matcher (.ofList ws))).Nodup := by
  refine (pairwise_assignedWords_matcher ws).imp ?_
  rintro v _ first rfl
  exact first.asymm first

/-- A declaration names the word that it declares, since no keyword holds a comma. -/
theorem Style.declaredWord?_declaration (s : Style) {w : Text} (hw : IsKeyword w) :
    s.declaredWord? (s.declaration w) = some w := by
  have noComma : ∀ c ∈ w, decide (c ≠ ',') = true := by
    intro c mem
    rw [decide_eq_true_eq]
    rintro rfl
    exact absurd (hw.2 ',' mem) (by decide)
  have begins : (s.macroName ++ " (".toList).isPrefixOf? (s.declaration w) =
      some (w ++ (", ".toList ++ ", ".toList.intercalate (w.map fun c => [c]) ++ [')'])) := by
    rw [List.isPrefixOf?_eq_some_iff_append_eq]
    simp only [declaration, List.append_assoc]
  rw [declaredWord?, begins, Option.map_some, List.takeWhile_append_of_pos noComma]
  exact congrArg some (List.append_nil w)

theorem Style.filterMap_declaredWord?_declarations (s : Style) {ws : List Text}
    (hws : ∀ w ∈ ws, IsKeyword w) : (s.declarations ws).filterMap s.declaredWord? = ws := by
  induction ws with
  | nil => rfl
  | cons w ws ih =>
      have first := s.declaredWord?_declaration (hws w List.mem_cons_self)
      rw [declarations, List.map_cons, List.filterMap_cons_some first, ← declarations,
        ih fun v mem => hws v (List.mem_cons_of_mem w mem)]

/-- Read from top to bottom, the assignments of a matcher in the default style name each inserted
word but the empty one exactly once. Of two words the one that goes on from the other stands first,
and if neither begins the other, the smaller one. So the words of a keyword set are assigned in
some order of its declarations. -/
theorem matcher_assigns_once_longer_first :
    (∀ ws : List Text,
        (∀ w, w ∈ assignedWords (({} : Style).matcher (.ofList ws)) ↔ w ∈ ws ∧ w ≠ []) ∧
        (assignedWords (({} : Style).matcher (.ofList ws))).Nodup ∧
        ∀ i j : Fin (assignedWords (({} : Style).matcher (.ofList ws))).length,
          i < j ↔ Text.LongerFirst ((assignedWords (({} : Style).matcher (.ofList ws))).get i)
            ((assignedWords (({} : Style).matcher (.ofList ws))).get j)) ∧
      ∀ (K : KeywordSet) (s : Style),
        (assignedWords (({} : Style).matcher K.trie)).Perm
          ((s.declarations K.words).filterMap s.declaredWord?) := by
  constructor
  · intro ws
    have ordered := List.pairwise_iff_getElem.mp (pairwise_assignedWords_matcher ws)
    refine ⟨mem_assignedWords_matcher_iff ws, nodup_assignedWords_matcher ws, fun i j => ?_⟩
    constructor
    · exact ordered i j i.isLt j.isLt
    · intro first
      rcases Nat.lt_trichotomy i.val j.val with before | same | after
      · exact before
      · obtain rfl := Fin.ext same
        exact absurd first first.asymm
      · exact absurd first (ordered j i j.isLt i.isLt after).asymm
  · intro K s
    rw [s.filterMap_declaredWord?_declarations K.isKeyword, KeywordSet.trie,
      List.perm_ext_iff_of_nodup (nodup_assignedWords_matcher K.words) K.nodup]
    intro w
    rw [mem_assignedWords_matcher_iff]
    exact and_iff_left_of_imp fun mem => (K.isKeyword w mem).1

example : assignedWords (({} : Style).matcher
      (.ofList ["if".toList, "d".toList, [], "ifdef".toList, "do".toList, "if".toList])) =
    ["do".toList, "d".toList, "ifdef".toList, "if".toList] := by
  decide +kernel

end KeywordSwitch
