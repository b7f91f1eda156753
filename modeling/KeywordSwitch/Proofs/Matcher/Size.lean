import KeywordSwitch.Matcher
import KeywordSwitch.Proofs.Switch.Arms
import KeywordSwitch.Proofs.Switch.Layout
import KeywordSwitch.Proofs.Trie.Nodes
import KeywordSwitch.Proofs.Trie.Stops

/-!
# The size of a matcher

Every node of a trie accounts for a fixed number of lines of each kind. Below the first level
a node that halts opens a condition and a block, and any other node adds one test to the
condition of a node further down. So there is one test for each node, and one condition for
each node that halts, however long the way to it.

## Implementation notes

Lines are counted by kind, with the kinds that count left open, so that all lines, the heads
of conditions and their continuations are three cases of one count. The code between the trie
and the lines has a count of its own, which does not depend on the depth or on a leading
`else`.
-/

namespace KeywordSwitch

/-- The kinds of the lines of a condition. -/
def conditionKinds : List Cond → List LineKind
  | [] => []
  | _ :: conds => .head false :: List.replicate conds.length .further

/-- The number of lines of the chosen kinds that a statement list takes. -/
def Code.lineCount (p : LineKind → Bool) : Code → Nat
  | done => 0
  | advance next => [LineKind.plain].countP p + next.lineCount p
  | assign _ next => [LineKind.plain].countP p + next.lineCount p
  | block body next =>
      [LineKind.opening, .closing].countP p + body.lineCount p + next.lineCount p
  | branch conds matched otherwise next =>
      (conditionKinds conds).countP p + [LineKind.opening, .closing].countP p +
        matched.lineCount p +
        (if otherwise.isDone then 0
        else if otherwise.isBranch then otherwise.lineCount p
        else [LineKind.otherwise, .opening, .closing].countP p + otherwise.lineCount p) +
        next.lineCount p

section Lines

variable {p : LineKind → Bool}

theorem countP_furtherLayout (p : LineKind → Bool) (d : Nat) (conds : List Cond) :
    (furtherLayout d conds).countP (p ·.kind) =
      (List.replicate conds.length LineKind.further).countP p := by
  induction conds with
  | nil => rfl
  | cons cond conds ih =>
      simp only [furtherLayout, List.length_cons, List.replicate_succ, List.countP_cons, ih]

theorem countP_conditionLayout (same : p (.head true) = p (.head false)) (d : Nat)
    (chained : Bool) (conds : List Cond) :
    (conditionLayout d chained conds).countP (p ·.kind) = (conditionKinds conds).countP p := by
  cases conds with
  | nil => rfl
  | cons cond conds =>
      have first : p (.head chained) = p (.head false) := by cases chained <;> simp [same]
      simp only [conditionLayout, conditionKinds, List.countP_cons, countP_furtherLayout, first]

theorem countP_bracedLayout (p : LineKind → Bool) (d : Nat) (body : List Line) :
    (bracedLayout d body).countP (p ·.kind) =
      [LineKind.opening, .closing].countP p + body.countP (p ·.kind) := by
  simp only [bracedLayout, List.cons_append, List.countP_cons, List.countP_append, List.countP_nil]
  omega

/-- The layout of code has as many lines as the code counts, at any depth and after `else` too. -/
theorem countP_layout (same : p (.head true) = p (.head false)) (d : Nat) (chained : Bool)
    (code : Code) : (code.layout d chained).countP (p ·.kind) = code.lineCount p := by
  induction code generalizing d chained with
  | done => rfl
  | advance next ih =>
      simp only [Code.layout, Code.lineCount, List.countP_cons, List.countP_nil, ih]
      omega
  | assign token next ih =>
      simp only [Code.layout, Code.lineCount, List.countP_cons, List.countP_nil, ih]
      omega
  | block body next ihBody ihNext =>
      simp only [Code.layout, Code.lineCount, List.countP_append, countP_bracedLayout, ihBody,
        ihNext]
  | branch conds matched otherwise next ihMatched ihOtherwise ihNext =>
      simp only [Code.layout, Code.lineCount, List.countP_append, countP_bracedLayout,
        countP_conditionLayout same, ihMatched, ihNext]
      split
      case isTrue => simp only [List.countP_nil]; omega
      case isFalse =>
        split
        case isTrue => simp only [ihOtherwise]; omega
        case isFalse =>
          simp only [List.countP_cons, List.countP_nil, countP_bracedLayout, ihOtherwise]
          omega

end Lines

section Arms

variable (p : LineKind → Bool)

/-- The number of lines of the chosen kinds that the branch for an arm takes. -/
def Arm.lineCount (arm : Arm) : Nat :=
  (conditionKinds (Cond.ofPath arm.path)).countP p + [LineKind.opening, .closing].countP p +
    arm.code.lineCount p

/-- The number of lines of the chosen kinds that the branches for arms take. -/
def Arm.lineCounts : List Arm → Nat
  | [] => 0
  | arm :: arms => arm.lineCount p + lineCounts arms

/-- The kinds of the lines that assign the word of a node, with or without an `else` around. -/
def wordKinds (terminal leaf : Bool) : List LineKind :=
  if terminal then if leaf then [.plain] else [.otherwise, .opening, .plain, .closing] else []

theorem Code.lineCount_select (word : Text) (terminal : Bool) (arms : List Arm) :
    (select arms (if terminal then .assign word .done else .done)).lineCount p =
      Arm.lineCounts p arms + (wordKinds terminal arms.isEmpty).countP p := by
  induction arms with
  | nil =>
      cases terminal with
      | true => simp [select, lineCount, Arm.lineCounts, wordKinds]
      | false => simp [select, lineCount, Arm.lineCounts, wordKinds]
  | cons arm arms ih =>
      rw [select, lineCount, Arm.lineCounts, Arm.lineCount, List.isEmpty_cons]
      cases arms with
      | nil =>
          cases terminal with
          | true =>
              simp only [select, lineCount, isDone, isBranch, wordKinds, Arm.lineCounts, if_true,
                if_false, Bool.false_eq_true, List.countP_cons, List.countP_nil]
              omega
          | false => simp [select, lineCount, isDone, wordKinds, Arm.lineCounts]
      | cons next arms =>
          simp only [List.isEmpty_cons] at ih
          have chain : (select (next :: arms)
              (if terminal then assign word done else done)).isDone = false := rfl
          have branches : (select (next :: arms)
              (if terminal then assign word done else done)).isBranch = true := rfl
          simp only [chain, branches, if_true, if_false, Bool.false_eq_true, ih, lineCount]
          omega

/-- An entry adds one test to its only arm, or it opens a condition and a block of its own. -/
theorem Arm.lineCount_extend (c : Char) (word : Text) (terminal : Bool) {arms : List Arm}
    (hPath : ∀ arm ∈ arms, arm.path ≠ []) :
    (extend c word terminal arms).lineCount p =
      ((if terminal || arms.length != 1 then [LineKind.head false, .opening, .plain, .closing]
        else [.further]) ++ wordKinds terminal arms.isEmpty).countP p + lineCounts p arms := by
  obtain ⟨arm, rfl, rfl, joined⟩ | ⟨alone, own⟩ := extend_cases c word terminal arms
  · obtain ⟨d, path, first⟩ := List.exists_cons_of_ne_nil (hPath arm (List.mem_singleton_self arm))
    rw [joined]
    simp only [lineCount, lineCounts, first, Cond.ofPath, conditionKinds, wordKinds, if_false,
      List.map_cons, List.length_cons, List.length_map, List.length_nil, List.replicate_succ,
      List.countP_cons, List.countP_nil, List.append_nil, bne_self_eq_false, Bool.or_self,
      Bool.false_eq_true]
    omega
  · have halts : (terminal || arms.length != 1) = true := by simpa using alone
    rw [own, lineCount, halts, if_pos rfl, Code.ofArms, Code.lineCount, Code.lineCount_select]
    simp only [Cond.ofPath, List.map_nil, conditionKinds, List.length_nil, List.replicate_zero,
      List.countP_append, List.countP_cons, List.countP_nil]
    omega

/-- The kinds of the lines that a node accounts for. At the first level it has a label, a statement
that consumes the first character, and two lines at the end. -/
def nodeKinds (v : Text) (n : Trie) : List LineKind :=
  (if 2 ≤ v.length then
    if n.halts then [.head false, .opening, .plain, .closing] else [.further]
  else [.plain, .plain, .plain, .plain]) ++ wordKinds n.terminal n.children.isEmpty

/-- The kinds of the lines that some nodes account for. -/
def nodesKinds (nodes : List (Text × Trie)) : List LineKind :=
  nodes.flatMap fun q => nodeKinds q.1 q.2

theorem countP_nodesKinds_cons (v : Text) (n : Trie) (nodes : List (Text × Trie)) :
    (nodesKinds ((v, n) :: nodes)).countP p =
      (nodeKinds v n).countP p + (nodesKinds nodes).countP p := by
  rw [nodesKinds, List.flatMap_cons, List.countP_append, nodesKinds]

theorem countP_nodesKinds_append (nodes more : List (Text × Trie)) :
    (nodesKinds (nodes ++ more)).countP p =
      (nodesKinds nodes).countP p + (nodesKinds more).countP p := by
  rw [nodesKinds, List.flatMap_append, List.countP_append, nodesKinds, nodesKinds]

/-- The arms below a node take the lines that the nodes below it account for. -/
theorem Branches.lineCounts_arms (b : Branches) {word : Text} (filled : word ≠ []) :
    Arm.lineCounts p (b.arms word) = (nodesKinds (b.nodes word)).countP p := by
  induction b generalizing word with
  | nil => rfl
  | cons c terminal below rest ihBelow ihRest =>
      have deep : 2 ≤ (word ++ [c]).length := by
        have := List.length_pos_iff.mpr filled
        rw [List.length_append, List.length_singleton]
        omega
      rw [arms, Arm.lineCounts, Arm.lineCount_extend p c (word ++ [c]) terminal
        (path_arms_ne_nil (word ++ [c]) below), ihBelow (by simp), ihRest filled, nodes,
        countP_nodesKinds_cons, countP_nodesKinds_append, nodeKinds, if_pos deep, Trie.halts,
        Trie.children, length_arms, isEmpty_arms]
      exact Nat.add_assoc _ _ _

/-- The number of lines of the chosen kinds that a case takes. -/
def Case.lineCount (k : Case) : Nat :=
  [LineKind.plain, .plain, .plain].countP p + k.code.lineCount p

/-- The number of lines of the chosen kinds that a switch takes. -/
def Switch.lineCount : Switch → Nat
  | [] => 0
  | k :: w => k.lineCount p + lineCount w

theorem Case.lineCount_ofChild (c : Char) (n : Trie) :
    (ofChild c n).lineCount p =
      (nodeKinds [c] n).countP p + (nodesKinds (n.branches.nodes [c])).countP p := by
  have shallow : ¬ 2 ≤ [c].length := by simp
  rw [lineCount, ofChild, Code.ofArms, Code.lineCount, Code.lineCount_select,
    Branches.lineCounts_arms p n.branches (List.cons_ne_nil c []), nodeKinds, if_neg shallow,
    Branches.isEmpty_arms, Trie.children]
  simp only [List.countP_append, List.countP_cons, List.countP_nil]
  omega

/-- The switch of a trie takes the lines that the nodes of the trie account for. -/
theorem Switch.lineCount_ofTrie (t : Trie) :
    lineCount p (ofTrie t) = (nodesKinds t.nodes).countP p := by
  obtain ⟨terminal, b⟩ := t
  induction b with
  | nil => rfl
  | cons c marked below rest _ ih =>
      change (Case.ofChild c ⟨marked, below⟩).lineCount p + lineCount p (ofTrie ⟨terminal, rest⟩) =
        (nodesKinds (([] ++ [c], ⟨marked, below⟩) ::
          (below.nodes ([] ++ [c]) ++ rest.nodes []))).countP p
      rw [ih, Case.lineCount_ofChild, List.nil_append, countP_nodesKinds_cons,
        countP_nodesKinds_append]
      exact Nat.add_assoc _ _ _

end Arms

section Matcher

variable {p : LineKind → Bool}

/-- What holds for the count of each case holds for the count of a switch. -/
theorem Style.countP_switchLines {s : Style} {q : Text → Bool}
    (hCase : ∀ k : Case, (s.caseLines k).countP q = k.lineCount p) (w : Switch) :
    (s.switchLines w).countP q = Switch.lineCount p w := by
  induction w with
  | nil => rfl
  | cons k w ih =>
      rw [switchLines, List.flatMap_cons, List.countP_append, hCase, Switch.lineCount, ← ih,
        switchLines]

/-- In every style a case takes as many lines as are counted. -/
theorem Style.length_caseLines (s : Style) (k : Case) :
    (s.caseLines k).countP (fun _ => true) = k.lineCount fun _ => true := by
  have body : (k.code.layout 1 false).length = k.code.lineCount fun _ => true := by
    rw [← countP_layout rfl 1 false, List.countP_true]
  rw [List.countP_true, caseLines, Case.lineCount, ← body, ← length_lines s 1 [] false,
    List.countP_true]
  simp only [List.cons_append, List.length_cons, List.length_append, List.length_nil]
  omega

/-- In the default style a case takes as many lines of each kind as are counted. -/
theorem Style.countP_caseLines (same : p (.head true) = p (.head false)) (k : Case) :
    (({} : Style).caseLines k).countP (fun line => p (Line.ofText line).kind) =
      k.lineCount p := by
  have whole : ({} : Style).caseLines k =
      (tabs 0 ++ ("case '".toList ++ k.label :: "':".toList)) ::
        (({} : Style).lines 1 [] k.code ++ ["\tbreak;".toList, []]) := rfl
  have label : (Line.ofText (tabs 0 ++ ("case '".toList ++ k.label :: "':".toList))).kind =
      .plain := by
    have begins : ("case '".toList ++ k.label :: "':".toList).head? = some 'c' := rfl
    rw [Line.ofText_tabs begins (by decide)]
    exact LineKind.ofText_eq_plain begins (by decide)
  have last : (Line.ofText "\tbreak;".toList).kind = .plain := by decide
  have gap : (Line.ofText []).kind = .plain := by decide
  have body : (({} : Style).lines 1 [] k.code).countP (fun line => p (Line.ofText line).kind) =
      k.code.lineCount p := by
    rw [← countP_layout same 1 false, ← map_ofText_lines, List.countP_map]
    rfl
  rw [whole, Case.lineCount, List.countP_cons, List.countP_append, body, label]
  simp only [List.countP_cons, List.countP_nil, last, gap]
  omega

theorem Style.length_switchLines_ofTrie (s : Style) (t : Trie) :
    (s.switchLines (.ofTrie t)).length = (nodesKinds t.nodes).length := by
  rw [← List.countP_true, countP_switchLines s.length_caseLines, Switch.lineCount_ofTrie,
    List.countP_true]

theorem Style.countP_switchLines_ofTrie (same : p (.head true) = p (.head false)) (t : Trie) :
    (({} : Style).switchLines (.ofTrie t)).countP (fun line => p (Line.ofText line).kind) =
      (nodesKinds t.nodes).countP p := by
  rw [countP_switchLines (countP_caseLines same), Switch.lineCount_ofTrie]

theorem Style.drop_matcher (s : Style) (t : Trie) :
    (s.matcher t).drop (s.banner.length + 6) = s.switchLines (.ofTrie t) := by
  apply List.drop_left'
  rw [List.length_append]
  rfl

/-- The nodes at which a condition ends: all nodes below the first level that halt. -/
def Trie.conditionCount (t : Trie) : Nat :=
  t.nodes.countP fun q => 2 ≤ q.1.length && q.2.halts

/-- The marked nodes below the top one. -/
def Trie.markCount (t : Trie) : Nat :=
  t.nodes.countP fun q => q.2.terminal

/-- The marked nodes below the top one that have entries. -/
def Trie.guardCount (t : Trie) : Nat :=
  t.nodes.countP fun q => q.2.terminal && !q.2.children.isEmpty

theorem length_nodeKinds (v : Text) (n : Trie) :
    (nodeKinds v n).length =
      (if 2 ≤ v.length then if n.halts then 4 else 1 else 4) +
        if n.terminal then if n.children.isEmpty then 1 else 4 else 0 := by
  simp only [nodeKinds, wordKinds, List.length_append, apply_ite List.length, List.length_cons,
    List.length_nil]

/-- Each node takes one line, with three more at the first level and three more for a block below
it. Each assignment takes one line, with three more for an `else`. -/
theorem length_nodesKinds (nodes : List (Text × Trie)) :
    (nodesKinds nodes).length =
      nodes.length + 3 * nodes.countP (fun q => q.1.length < 2) +
        3 * nodes.countP (fun q => 2 ≤ q.1.length && q.2.halts) +
        nodes.countP (fun q => q.2.terminal) +
        3 * nodes.countP (fun q => q.2.terminal && !q.2.children.isEmpty) := by
  induction nodes with
  | nil => rfl
  | cons q nodes ih =>
      rw [nodesKinds] at ih ⊢
      rw [List.flatMap_cons, List.length_append, length_nodeKinds, ih]
      simp only [List.countP_cons, List.length_cons]
      grind

theorem countP_isHead_nodesKinds (nodes : List (Text × Trie)) :
    (nodesKinds nodes).countP LineKind.isHead =
      nodes.countP fun q => 2 ≤ q.1.length && q.2.halts := by
  induction nodes with
  | nil => rfl
  | cons q nodes ih =>
      have word : (wordKinds q.2.terminal q.2.children.isEmpty).countP LineKind.isHead = 0 := by
        cases q.2.terminal <;> cases q.2.children.isEmpty <;> rfl
      rw [countP_nodesKinds_cons, ih, List.countP_cons, nodeKinds, List.countP_append, word]
      grind [LineKind.isHead]

theorem countP_further_nodesKinds (nodes : List (Text × Trie)) :
    (nodesKinds nodes).countP (· = LineKind.further) =
      nodes.countP fun q => 2 ≤ q.1.length && !q.2.halts := by
  induction nodes with
  | nil => rfl
  | cons q nodes ih =>
      have word : (wordKinds q.2.terminal q.2.children.isEmpty).countP
          (· = LineKind.further) = 0 := by
        cases q.2.terminal <;> cases q.2.children.isEmpty <;> rfl
      rw [countP_nodesKinds_cons, ih, List.countP_cons, nodeKinds, List.countP_append, word]
      grind

/-- Below the first level a condition ends at some of the nodes, and the others continue one. -/
theorem countP_split_nodes (nodes : List (Text × Trie)) :
    nodes.countP (fun q => q.1.length < 2) +
        nodes.countP (fun q => 2 ≤ q.1.length && q.2.halts) +
        nodes.countP (fun q => 2 ≤ q.1.length && !q.2.halts) = nodes.length := by
  induction nodes with
  | nil => rfl
  | cons q nodes ih =>
      simp only [List.countP_cons, List.length_cons, ← ih]
      grind

/-- A matcher has four lines for each first character, one line for each further node, three lines
for each node at which a condition ends, and one line for each assignment with three more if it is
guarded. In the default style one head stands for each node at which a condition ends and one
continuation for each other node below the first level. -/
theorem matcher_size (t : Trie) :
    (∀ s : Style, (s.matcher t).length =
      s.banner.length + 6 + 4 * t.children.length + (t.size - t.children.length) +
        3 * t.conditionCount + t.markCount + 3 * t.guardCount) ∧
    t.children.length + t.conditionCount ≤ t.size ∧
    ((({} : Style).matcher t).drop (({} : Style).banner.length + 6)).countP
      (fun line => (Line.ofText line).kind.isHead) = t.conditionCount ∧
    ((({} : Style).matcher t).drop (({} : Style).banner.length + 6)).countP
      (fun line => (Line.ofText line).kind = .further) =
        t.size - t.children.length - t.conditionCount := by
  have split := countP_split_nodes t.nodes
  rw [Trie.countP_length_nodes, Trie.length_nodes, ← Trie.conditionCount] at split
  refine ⟨fun s => ?_, ?_, ?_, ?_⟩
  case refine_1 =>
    have total := length_nodesKinds t.nodes
    rw [Trie.countP_length_nodes, Trie.length_nodes, ← Trie.conditionCount, ← Trie.markCount,
      ← Trie.guardCount] at total
    have top : (s.banner ++ [] :: generatedWarning).length = s.banner.length + 6 := by
      rw [List.length_append]
      rfl
    rw [Style.matcher, List.length_append, top, s.length_switchLines_ofTrie]
    omega
  case refine_2 => omega
  case refine_3 =>
    rw [Style.drop_matcher, Style.countP_switchLines_ofTrie rfl]
    exact countP_isHead_nodesKinds t.nodes
  case refine_4 =>
    have continued := countP_further_nodesKinds t.nodes
    rw [Style.drop_matcher, Style.countP_switchLines_ofTrie (p := (· = LineKind.further)) rfl]
    omega

end Matcher

end KeywordSwitch
