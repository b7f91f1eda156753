import KeywordSwitch.Matcher
import KeywordSwitch.Proofs.Switch.Arms
import KeywordSwitch.Proofs.Switch.ReadableStyle
import KeywordSwitch.Proofs.Trie.Outline

/-!
# The labels of a matcher

The code of a case is indented, so the only line of a block that begins like a label is its
first one. Hence a matcher has as many labels as its trie has first characters, besides those
that the banner may show. The text of a matcher has the same lines as the matcher itself if no
line holds a line feed, which only the words of the style and the characters of the trie decide.

## Implementation notes

What is shown of the lines of code is shown once for any property of lines, from a rule for
each form of line.
-/

namespace KeywordSwitch

/-- Whether a line begins like the label of a case. -/
def isCaseLabel (line : Text) : Bool :=
  "case '".toList.isPrefixOf line

theorem isCaseLabel_eq_false_of_head? {line : Text} {c : Char} (hHead : line.head? = some c)
    (other : c ≠ 'c') : isCaseLabel line = false := by
  obtain ⟨line, rfl⟩ := List.head?_eq_some_iff.mp hHead
  rw [isCaseLabel, Bool.eq_false_iff, Ne, List.isPrefixOf_iff_prefix]
  intro begins
  exact other (List.cons_prefix_cons.mp begins).1.symm

/-- The line holds no line feed and does not begin like a label. -/
def IsPlainLine (line : Text) : Prop :=
  '\n' ∉ line ∧ isCaseLabel line = false

instance (line : Text) : Decidable (IsPlainLine line) :=
  inferInstanceAs (Decidable (_ ∧ _))

theorem countP_isCaseLabel_eq_zero {lines : List Text} (plain : ∀ line ∈ lines, IsPlainLine line) :
    lines.countP isCaseLabel = 0 := by
  rw [List.countP_eq_zero]
  intro line mem
  simp [(plain line mem).2]

/-- The characters that the statements ask for or assign. -/
def Code.letters : Code → Text
  | done => []
  | advance next => next.letters
  | assign token next => token ++ next.letters
  | block body next => body.letters ++ next.letters
  | branch conds matched otherwise next =>
      conds.map Cond.char ++ matched.letters ++ otherwise.letters ++ next.letters

namespace Style

/-- Every indented line that the style writes with the allowed characters has a property. -/
structure Keeps (s : Style) (P : Text → Prop) (allowed : Char → Prop) : Prop where
  advance (n : Nat) : P (tabs (n + 1) ++ s.advance)
  assignment (n : Nat) (token : Text) (letters : ∀ c ∈ token, allowed c) :
    P (tabs (n + 1) ++ s.assignment token)
  fixed (n : Nat) : ∀ word ∈ [['{'], ['}'], "else".toList], P (tabs (n + 1) ++ word)
  test (n : Nat) : ∀ lead ∈ ["if (".toList, "else if (".toList, "&& ".toList],
    ∀ (cond : Cond) (last : Bool), allowed cond.char → P (tabs (n + 1) ++ s.testLine lead cond last)

variable {s : Style} {P : Text → Prop} {allowed : Char → Prop}

namespace Keeps

theorem furtherTests (keeps : s.Keeps P allowed) (n : Nat) {conds : List Cond}
    (letters : ∀ cond ∈ conds, allowed cond.char) :
    ∀ line ∈ s.furtherTests (n + 1) conds, P line := by
  induction conds with
  | nil => simp [Style.furtherTests]
  | cons cond conds ih =>
      obtain ⟨here, later⟩ := List.forall_mem_cons.mp letters
      rw [furtherTests_cons, List.forall_mem_cons]
      exact ⟨keeps.test (n + 1) _ (by simp) cond _ here, ih later⟩

theorem condition (keeps : s.Keeps P allowed) (n : Nat) {lead : Text}
    (hLead : lead = [] ∨ lead = "else ".toList) {conds : List Cond}
    (letters : ∀ cond ∈ conds, allowed cond.char) :
    ∀ line ∈ s.condition (n + 1) lead conds, P line := by
  cases conds with
  | nil => simp [Style.condition]
  | cons cond conds =>
      obtain ⟨here, later⟩ := List.forall_mem_cons.mp letters
      have first : lead ++ "if (".toList ∈ ["if (".toList, "else if (".toList, "&& ".toList] := by
        obtain rfl | rfl := hLead <;> simp
      rw [condition_cons, List.forall_mem_cons]
      exact ⟨keeps.test n _ first cond _ here, keeps.furtherTests n later⟩

theorem braced (keeps : s.Keeps P allowed) (n : Nat) {body : List Text}
    (inside : ∀ line ∈ body, P line) : ∀ line ∈ braced (n + 1) body, P line := by
  rw [KeywordSwitch.braced, List.forall_mem_append, List.forall_mem_cons, List.forall_mem_singleton]
  exact ⟨⟨keeps.fixed n _ (by simp), inside⟩, keeps.fixed n _ (by simp)⟩

/-- What holds for each form of line holds for all lines of indented code. -/
theorem lines (keeps : s.Keeps P allowed) {code : Code} (letters : ∀ c ∈ code.letters, allowed c)
    (n : Nat) {lead : Text} (hLead : lead = [] ∨ lead = "else ".toList) :
    ∀ line ∈ s.lines (n + 1) lead code, P line := by
  induction code generalizing n lead with
  | done => simp [Style.lines]
  | advance next ih =>
      rw [Style.lines, List.forall_mem_cons]
      exact ⟨keeps.advance n, ih letters n (Or.inl rfl)⟩
  | assign token next ih =>
      obtain ⟨here, later⟩ := List.forall_mem_append.mp letters
      rw [Style.lines, List.forall_mem_cons]
      exact ⟨keeps.assignment n token here, ih later n (Or.inl rfl)⟩
  | block body next ihBody ihNext =>
      obtain ⟨inside, later⟩ := List.forall_mem_append.mp letters
      rw [Style.lines, List.forall_mem_append]
      exact ⟨keeps.braced n (ihBody inside (n + 1) (Or.inl rfl)), ihNext later n (Or.inl rfl)⟩
  | branch conds matched otherwise next ihMatched ihOtherwise ihNext =>
      simp only [Code.letters, List.forall_mem_append, List.forall_mem_map] at letters
      obtain ⟨⟨⟨asked, inMatched⟩, inOtherwise⟩, later⟩ := letters
      simp only [Style.lines, List.forall_mem_append]
      refine ⟨⟨⟨keeps.condition n hLead asked, ?_⟩, ?_⟩, ihNext later n (Or.inl rfl)⟩
      · exact keeps.braced n (ihMatched inMatched (n + 1) (Or.inl rfl))
      · split
        case isTrue => simp
        case isFalse =>
          split
          case isTrue => exact ihOtherwise inOtherwise n (Or.inr rfl)
          case isFalse =>
            rw [List.forall_mem_cons]
            exact ⟨keeps.fixed n _ (by simp),
              keeps.braced n (ihOtherwise inOtherwise (n + 1) (Or.inl rfl))⟩

end Keeps

/-- Every line of indented code begins with a tab. -/
theorem head?_lines (s : Style) (code : Code) :
    ∀ line ∈ s.lines 1 [] code, line.head? = some '\t' := by
  have keeps : s.Keeps (·.head? = some '\t') fun _ => True := by
    constructor
    case advance => exact fun n => rfl
    case assignment => exact fun n token _ => rfl
    case fixed => exact fun n word _ => rfl
    case test => exact fun n lead _ cond last _ => rfl
  exact keeps.lines (fun _ _ => trivial) 0 (Or.inl rfl)

/-- The code of a case shows no label. -/
theorem isCaseLabel_lines (s : Style) (code : Code) :
    ∀ line ∈ s.lines 1 [] code, isCaseLabel line = false := by
  intro line mem
  exact isCaseLabel_eq_false_of_head? (s.head?_lines code line mem) (by decide)

theorem isPlainLine_boxed {title : Text} (plain : IsPlainLine title) :
    ∀ line ∈ boxed title, IsPlainLine line := by
  have edge : IsPlainLine boxEdge := by decide +kernel
  have gap : IsPlainLine boxGap := by decide +kernel
  simp only [boxed, List.forall_mem_cons, edge, gap, plain]
  simp

/-- The warning and the empty line above it show no label. -/
theorem isPlainLine_warning : ∀ line ∈ [] :: generatedWarning, IsPlainLine line := by
  rw [List.forall_mem_cons]
  exact ⟨by decide, isPlainLine_boxed (by decide +kernel)⟩

/-- A case has one label. -/
theorem countP_isCaseLabel_caseLines (s : Style) (k : Case) :
    (s.caseLines k).countP isCaseLabel = 1 := by
  have body : (s.lines 1 [] k.code).countP isCaseLabel = 0 := by
    rw [List.countP_eq_zero]
    intro line mem
    simp [s.isCaseLabel_lines k.code line mem]
  have label : isCaseLabel ("case '".toList ++ k.label :: "':".toList) = true := rfl
  have last : ["\tbreak;".toList, []].countP isCaseLabel = 0 := by decide
  rw [caseLines, List.countP_append, List.countP_cons_of_pos label, body, last]

/-- A matcher has a label for each first character, and what its banner shows. -/
theorem countP_isCaseLabel_matcher (s : Style) (t : Trie) :
    (s.matcher t).countP isCaseLabel = s.banner.countP isCaseLabel + t.children.length := by
  have warning := countP_isCaseLabel_eq_zero isPlainLine_warning
  have cases (w : Switch) : (s.switchLines w).countP isCaseLabel = w.length := by
    induction w with
    | nil => rfl
    | cons k w ih =>
        rw [switchLines, List.flatMap_cons, List.countP_append, countP_isCaseLabel_caseLines,
          ← switchLines, ih, List.length_cons, Nat.add_comm]
  rw [matcher, List.countP_append, List.countP_append, warning, cases, Switch.ofTrie,
    List.length_map, Nat.add_zero]

end Style

section Letters

variable {allowed : Char → Prop} {b : Branches} {word : Text}

/-- The characters that an arm asks for or assigns. -/
def Arm.letters (arm : Arm) : Text :=
  arm.path ++ arm.code.letters

theorem Cond.map_char_ofPath (path : Text) : (ofPath path).map char = path := by
  cases path with
  | nil => rfl
  | cons c path => simp [ofPath, char, Function.comp_def]

theorem Code.letters_select (arms : List Arm) (final : Code) :
    (select arms final).letters = arms.flatMap Arm.letters ++ final.letters := by
  induction arms with
  | nil => rfl
  | cons arm arms ih =>
      simp only [select, letters, ih, Cond.map_char_ofPath, List.flatMap_cons, Arm.letters,
        List.append_assoc, List.append_nil]

theorem Code.letters_ofArms {terminal : Bool} {arms : List Arm} (spelled : ∀ c ∈ word, allowed c)
    (below : ∀ arm ∈ arms, ∀ c ∈ arm.letters, allowed c) :
    ∀ c ∈ (ofArms word terminal arms).letters, allowed c := by
  rw [ofArms, letters, letters_select, List.forall_mem_append]
  constructor
  · intro c mem
    obtain ⟨arm, listed, inside⟩ := List.mem_flatMap.mp mem
    exact below arm listed c inside
  · cases terminal with
    | true => simpa [letters] using spelled
    | false => simp [letters]

theorem Arm.letters_extend {d : Char} {terminal : Bool} {arms : List Arm} (first : allowed d)
    (spelled : ∀ c ∈ word, allowed c) (below : ∀ arm ∈ arms, ∀ c ∈ arm.letters, allowed c) :
    ∀ c ∈ (extend d word terminal arms).letters, allowed c := by
  obtain ⟨arm, -, rfl, joined⟩ | ⟨-, own⟩ := extend_cases d word terminal arms
  · rw [joined, letters, List.cons_append, List.forall_mem_cons]
    exact ⟨first, below arm (List.mem_singleton_self arm)⟩
  · rw [own, letters, List.singleton_append, List.forall_mem_cons]
    exact ⟨first, Code.letters_ofArms spelled below⟩

/-- Arms use no characters but those on the paths to the nodes below. -/
theorem Branches.letters_arms (paths : ∀ q ∈ b.nodes word, ∀ c ∈ q.1, allowed c) :
    ∀ arm ∈ b.arms word, ∀ c ∈ arm.letters, allowed c := by
  induction b generalizing word with
  | nil => simp [arms]
  | cons d terminal below rest ihBelow ihRest =>
      simp only [nodes, List.forall_mem_cons, List.forall_mem_append] at paths
      obtain ⟨⟨here, first, -⟩, inBelow, inRest⟩ := paths
      have spelled : ∀ c ∈ word ++ [d], allowed c := by
        rw [List.forall_mem_append, List.forall_mem_singleton]
        exact ⟨here, first⟩
      rw [arms, List.forall_mem_cons]
      exact ⟨Arm.letters_extend first spelled (ihBelow inBelow), ihRest inRest⟩

/-- Cases use no characters but those on the paths to the nodes. -/
theorem Switch.letters_ofTrie {t : Trie} (paths : ∀ q ∈ t.nodes, ∀ c ∈ q.1, allowed c) :
    ∀ k ∈ ofTrie t, allowed k.label ∧ ∀ c ∈ k.code.letters, allowed c := by
  obtain ⟨terminal, b⟩ := t
  induction b with
  | nil => simp [ofTrie, Trie.children, Branches.toList]
  | cons d marked below rest _ ih =>
      simp only [Trie.nodes, Branches.nodes, List.nil_append, List.forall_mem_cons,
        List.forall_mem_append] at paths
      obtain ⟨⟨first, -⟩, inBelow, inRest⟩ := paths
      have spelled : ∀ c ∈ [d], allowed c := by simpa using first
      have entry : ofTrie ⟨terminal, .cons d marked below rest⟩ =
          Case.ofChild d ⟨marked, below⟩ :: ofTrie ⟨terminal, rest⟩ := rfl
      rw [entry, List.forall_mem_cons]
      exact ⟨⟨first, Code.letters_ofArms spelled (Branches.letters_arms inBelow)⟩, ih inRest⟩

end Letters

namespace Style

/-- No word and no line of the banner holds a line feed, and no line of the banner begins like a
label. -/
structure IsLinewise (s : Style) : Prop where
  words : ∀ word ∈ [s.tokenTarget, s.tokenPrefix, s.peekChar, s.peekNextChar, s.advance],
    '\n' ∉ word
  banner : ∀ line ∈ s.banner, IsPlainLine line

instance (s : Style) : Decidable s.IsLinewise :=
  decidable_of_iff
    ((∀ word ∈ [s.tokenTarget, s.tokenPrefix, s.peekChar, s.peekNextChar, s.advance],
        '\n' ∉ word) ∧ ∀ line ∈ s.banner, IsPlainLine line)
    ⟨fun h => ⟨h.1, h.2⟩, fun h => ⟨h.words, h.banner⟩⟩

theorem isLinewise_default : ({} : Style).IsLinewise where
  words := by decide
  banner := isPlainLine_boxed (by decide +kernel)

namespace IsLinewise

variable {s : Style} {t : Trie}

theorem keeps (linewise : s.IsLinewise) : s.Keeps ('\n' ∉ ·) (· ≠ '\n') := by
  have tabs (n : Nat) : '\n' ∉ tabs n := fun mem =>
    absurd (List.eq_of_mem_replicate mem) (by decide)
  have words := linewise.words
  simp only [List.forall_mem_cons] at words
  obtain ⟨target, tokenPrefix, peek, peekNext, advance, -⟩ := words
  constructor
  case advance =>
    intro n
    simp [tabs, advance]
  case assignment =>
    intro n token letters
    have noFeed : '\n' ∉ token := fun mem => letters _ mem rfl
    simp [assignment, tabs, target, tokenPrefix, noFeed]
  case fixed =>
    intro n word mem
    have noFeed : ∀ word ∈ [['{'], ['}'], "else".toList], '\n' ∉ word := by decide
    simp [tabs, noFeed word mem]
  case test =>
    intro n lead mem cond last other
    have noFeed : ∀ lead ∈ ["if (".toList, "else if (".toList, "&& ".toList], '\n' ∉ lead := by
      decide
    have asked : '\n' ∉ s.test cond := by
      cases cond with
      | peek c => simpa [test, peek, Cond.char] using Ne.symm other
      | peekNext c => simpa [test, peekNext, Cond.char] using Ne.symm other
    cases last <;> simp [testLine, tabs, noFeed lead mem, asked]

theorem newline_not_mem_matcher (linewise : s.IsLinewise)
    (paths : ∀ q ∈ t.nodes, ∀ c ∈ q.1, c ≠ '\n') : ∀ line ∈ s.matcher t, '\n' ∉ line := by
  rw [matcher, List.forall_mem_append, List.forall_mem_append]
  refine ⟨⟨fun line mem => (linewise.banner line mem).1,
    fun line mem => (isPlainLine_warning line mem).1⟩, fun line mem => ?_⟩
  obtain ⟨k, listed, inCase⟩ := List.mem_flatMap.mp mem
  obtain ⟨label, letters⟩ := Switch.letters_ofTrie paths k listed
  rw [caseLines, List.mem_append, List.mem_cons] at inCase
  rcases inCase with (rfl | inCode) | last
  · simp [Ne.symm label]
  · exact linewise.keeps.lines letters 0 (Or.inl rfl) line inCode
  · have noFeed : ∀ line ∈ ["\tbreak;".toList, []], '\n' ∉ line := by decide
    exact noFeed line last

/-- The text of a matcher has a line with a label for each first character, and no others. -/
theorem countP_isCaseLabel_splitOn (linewise : s.IsLinewise)
    (paths : ∀ q ∈ t.nodes, ∀ c ∈ q.1, c ≠ '\n') :
    ((Text.unlines (s.matcher t)).splitOn '\n').countP isCaseLabel = t.children.length := by
  have banner := countP_isCaseLabel_eq_zero linewise.banner
  have last : [[]].countP isCaseLabel = 0 := by decide
  rw [Text.splitOn_unlines (linewise.newline_not_mem_matcher paths), List.countP_append,
    countP_isCaseLabel_matcher, banner, last, Nat.zero_add, Nat.add_zero]

end IsLinewise

end Style

end KeywordSwitch
