import KeywordSwitch.Proofs.Switch.ReadableStyle
import KeywordSwitch.Proofs.Switch.Reads
import KeywordSwitch.Proofs.Switch.Tokens

/-!
# Written switches are read back

A switch written in a readable style is read back as it was, with the tokens that the
style makes of its words.

## Implementation notes

Reading ends a branch only with the line after it, so the lines of a branch leave
the reader at a closed chain. `Holds` hides the difference, and the lines after
`else ` have an invariant of their own, since they continue the chain.
-/

namespace KeywordSwitch

/-- The tests of every branch ask for the characters of a text that is not empty. -/
def Code.AsksForPaths : Code → Prop
  | done => True
  | advance next => next.AsksForPaths
  | assign _ next => next.AsksForPaths
  | block body next => body.AsksForPaths ∧ next.AsksForPaths
  | branch conds matched otherwise next =>
      (∃ c path, conds = Cond.ofPath (c :: path)) ∧ matched.AsksForPaths ∧
        otherwise.AsksForPaths ∧ next.AsksForPaths

namespace Style

/-- Reading the lines of `code` adds it to the open statement list. -/
def ReadsBack (s : Style) (code : Code) : Prop :=
  ∀ d cases before stack p, Switch.Holds cases before stack p →
    ∃ q, Switch.Holds cases (before ++ code.mapTokens s.token) stack q ∧
      Switch.Reads p (Switch.keptLines (s.lines d [] code)) q

/-- Reading the lines of `code` after an `else` continues the chain that has just been closed. -/
def ReadsBackAfterElse (s : Style) (code : Code) : Prop :=
  ∀ d cases chain before stack,
    ∃ q, Switch.Holds cases (before ++ chain.code (code.mapTokens s.token)) stack q ∧
      Switch.Reads ⟨cases, .closed chain before stack⟩
        (Switch.keptLines (s.lines d "else ".toList code)) q

end Style

namespace Switch

variable {s : Style} {cases : Switch} {before : Code} {stack : Stack} {p q : Progress}

/-- The line neither continues a chain nor closes a statement list. -/
def StartsStatement (line : Text) : Prop :=
  line ≠ "else".toList ∧ "else if (".toList.isPrefixOf line = false ∧
    line ≠ "break;".toList ∧ line ≠ ['}']

instance (line : Text) : Decidable (StartsStatement line) :=
  inferInstanceAs (Decidable (_ ∧ _ ∧ _ ∧ _))

theorem Holds.step_statement {code : Code} (holds : Holds cases code stack p) {line : Text}
    (starts : StartsStatement line) :
    Switch.step p line = (readStatement code stack line).map (⟨cases, ·⟩) := by
  obtain ⟨notElse, notElseIf, notBreak, notBrace⟩ := starts
  have open_ : line ≠ stack.terminator := by
    cases stack with
    | case label => exact notBreak
    | push owner before below => exact notBrace
  simp only [holds.step notElse notElseIf, readBody, if_neg open_]

theorem startsStatement_assignment (hs : s.Readable) (word : Text) :
    StartsStatement (s.assignment word) := by
  refine ⟨?_, ?_, ?_, ?_⟩
  · exact Style.assignment_ne s word (by decide)
  · exact Style.isPrefixOf_assignment hs word ⟨"f (".toList, rfl⟩ (by decide)
  · exact Style.assignment_ne s word (by decide)
  · exact Style.assignment_ne s word (by decide)

/-- Reading an assignment adds it with the token of the style. -/
theorem readStatement_assignment (hs : s.Readable) (word : Text) :
    readStatement before stack (s.assignment word) =
      .ok (.body (before ++ .assign (s.token word) .done) stack) := by
  have notAdvance : s.assignment word ≠ "AdvanceChars();".toList :=
    Style.assignment_ne s word (by decide)
  have notBrace : s.assignment word ≠ ['{'] := Style.assignment_ne s word (by decide)
  have notIf : "if (".toList.isPrefixOf (s.assignment word) = false :=
    Style.isPrefixOf_assignment hs word ⟨[], rfl⟩ (by decide)
  have tokenEq : Text.dropEndWhile (· = ';') (s.tokenPrefix ++ word ++ [';']) = s.token word := by
    simp [Style.token, Text.dropEndWhile]
  simp only [readStatement, if_neg notAdvance, if_neg notBrace, notIf, Style.after?_assignment hs,
    tokenEq]
  rfl

/-- A test is added to its condition, which ends with the last one. -/
theorem readCond_of_cond {chain : Chain} {conds : List Cond} {line : Text} {test : Cond}
    {last : Bool} (h : cond line = .ok (test, last)) :
    readCond chain conds before stack line =
      .ok (if last then .opening (.matched chain (conds ++ [test])) before stack
        else .condition chain (conds ++ [test]) before stack) := by
  cases last <;> simp [readCond, h]

theorem cond_if (hs : s.Readable) (c : Char) (last : Bool) :
    cond (s.testLine "if (".toList (.peek c) last) = .ok (.peek c, last) := by
  rw [Style.testLine, Style.test, hs.peekChar]
  cases last <;> rfl

theorem cond_further (hs : s.Readable) (c : Char) (last : Bool) :
    cond (s.testLine "&& ".toList (.peekNext c) last) = .ok (.peekNext c, last) := by
  rw [Style.testLine, Style.test, hs.peekNextChar]
  cases last <;> rfl

/-- The lines of the later tests complete the condition. -/
theorem reads_furtherTests (hs : s.Readable) (d : Nat) (chain : Chain) (conds : List Cond)
    {path : Text} (hPath : path ≠ []) :
    Reads ⟨cases, .condition chain conds before stack⟩
      (keptLines (s.furtherTests d (path.map .peekNext)))
      ⟨cases, .opening (.matched chain (conds ++ path.map .peekNext)) before stack⟩ := by
  induction path generalizing conds with
  | nil => exact absurd rfl hPath
  | cons c path ih =>
      have kept := isKept_testLine (s := s) "&& ".toList rfl (by decide) (.peekNext c)
        path.isEmpty
      rw [List.map_cons, Style.furtherTests_cons, List.isEmpty_map, keptLines_tabs_cons kept]
      have line : step ⟨cases, .condition chain conds before stack⟩
          (s.testLine "&& ".toList (.peekNext c) path.isEmpty) =
          .ok ⟨cases, if path.isEmpty then
              .opening (.matched chain (conds ++ [.peekNext c])) before stack
            else .condition chain (conds ++ [.peekNext c]) before stack⟩ := by
        change (readCond chain conds before stack _).map _ = _
        rw [readCond_of_cond (cond_further hs c path.isEmpty)]
        rfl
      cases path with
      | nil => exact Reads.single line
      | cons e path =>
          have tail := ih (conds ++ [.peekNext c]) (List.cons_ne_nil e path)
          rw [List.append_assoc] at tail
          exact Reads.cons line tail

/-- The lines of a condition lead to the block it is for, once its first line is known to start the
condition. -/
theorem reads_condition (hs : s.Readable) (d : Nat) {lead : Text} {a : Char} {chain : Chain}
    (hHead : (lead ++ "if (".toList).head? = some a) (hFirst : Text.isBlank a = false ∧ a ≠ '/')
    (start : ∀ c last, step p (s.testLine (lead ++ "if (".toList) (.peek c) last) =
      (readCond chain [] before stack (s.testLine "if (".toList (.peek c) last)).map (⟨cases, ·⟩))
    (c : Char) (path : Text) :
    Reads p (keptLines (s.condition d lead (Cond.ofPath (c :: path))))
      ⟨cases, .opening (.matched chain (Cond.ofPath (c :: path))) before stack⟩ := by
  have kept := isKept_testLine (s := s) _ hHead hFirst (.peek c) path.isEmpty
  have line : step p (s.testLine (lead ++ "if (".toList) (.peek c) path.isEmpty) =
      .ok ⟨cases, if path.isEmpty then .opening (.matched chain [.peek c]) before stack
        else .condition chain [.peek c] before stack⟩ := by
    rw [start, readCond_of_cond (cond_if hs c path.isEmpty)]
    rfl
  rw [Cond.ofPath, Style.condition_cons, List.isEmpty_map, keptLines_tabs_cons kept]
  apply Reads.cons line
  cases path with
  | nil => exact Reads.nil _
  | cons e path => exact reads_furtherTests hs d chain [.peek c] (List.cons_ne_nil e path)

theorem Holds.reads_condition (hs : s.Readable) {code : Code} (holds : Holds cases code stack p)
    (d : Nat) (c : Char) (path : Text) :
    Reads p (keptLines (s.condition d [] (Cond.ofPath (c :: path))))
      ⟨cases, .opening (.matched [] (Cond.ofPath (c :: path))) code stack⟩ := by
  refine Switch.reads_condition hs d (a := 'i') rfl (by decide) ?_ c path
  intro c last
  have different {t : Text} (h : t.head? ≠ some 'i') :
      s.testLine "if (".toList (.peek c) last ≠ t := by
    rintro rfl
    exact h rfl
  have starts : StartsStatement (s.testLine "if (".toList (.peek c) last) :=
    ⟨different (by decide), rfl, different (by decide), different (by decide)⟩
  rw [List.nil_append, holds.step_statement starts, readStatement,
    if_neg (different (by decide)), if_neg (different (by decide))]
  rfl

theorem reads_condition_after_else (hs : s.Readable) (d : Nat) (chain : Chain) (c : Char)
    (path : Text) :
    Reads ⟨cases, .closed chain before stack⟩
      (keptLines (s.condition d "else ".toList (Cond.ofPath (c :: path))))
      ⟨cases, .opening (.matched chain (Cond.ofPath (c :: path))) before stack⟩ := by
  refine reads_condition hs d (a := 'e') rfl (by decide) ?_ c path
  intro c last
  have notElse : s.testLine ("else ".toList ++ "if (".toList) (.peek c) last ≠ "else".toList := by
    intro h
    exact absurd (congrArg (List.drop 4) h) (List.cons_ne_nil _ _)
  rw [step]
  dsimp only
  rw [if_neg notElse]
  rfl

/-- A block is read back around the code that it holds. -/
theorem reads_braced {owner : Owner} {code : Code} (hCode : s.ReadsBack code) (d : Nat)
    (opens : step p ['{'] = .ok ⟨cases, .body .done (.push owner before stack)⟩)
    (closes : readBody cases (code.mapTokens s.token) (.push owner before stack) ['}'] = .ok q) :
    Reads p (keptLines (braced d (s.lines (d + 1) [] code))) q := by
  obtain ⟨r, holds, reads⟩ := hCode (d + 1) cases .done (.push owner before stack) _ Holds.body
  rw [Code.done_append] at holds
  rw [keptLines_braced]
  refine Reads.cons opens (reads.append (Reads.single ?_))
  rw [holds.step (by decide) (by decide), closes]

/-- The lines of a branch are read back once its condition has been read: the block of what runs
if the tests hold, and then the `else` part, if there is one. -/
theorem reads_branch {conds : List Cond} {matched otherwise : Code} (d : Nat) (lead : Text)
    (chain : Chain) (hMatched : s.ReadsBack matched) (hOtherwise : s.ReadsBack otherwise)
    (hElse : otherwise.isBranch = true → s.ReadsBackAfterElse otherwise)
    (condition : Reads p (keptLines (s.condition d lead conds))
      ⟨cases, .opening (.matched chain conds) before stack⟩) :
    ∃ q, Holds cases (before ++ chain.code
          ((Code.branch conds matched otherwise .done).mapTokens s.token)) stack q ∧
      Reads p (keptLines (s.lines d lead (.branch conds matched otherwise .done))) q := by
  let longer : Chain := (conds, matched.mapTokens s.token) :: chain
  have block : Reads p
      (keptLines (s.condition d lead conds ++ braced d (s.lines (d + 1) [] matched)))
      ⟨cases, .closed longer before stack⟩ := by
    rw [keptLines_append]
    exact condition.append (reads_braced hMatched d rfl rfl)
  rw [Style.lines, Style.lines, List.append_nil, keptLines_append]
  by_cases empty : otherwise.isDone = true
  · cases otherwise with
    | done => exact ⟨_, Holds.closed rfl, by simpa [Code.isDone] using block⟩
    | advance | assign | block | branch => simp [Code.isDone] at empty
  · rw [if_neg empty]
    by_cases branches : otherwise.isBranch = true
    · rw [if_pos branches]
      obtain ⟨q, holds, reads⟩ := hElse branches d cases longer before stack
      exact ⟨q, holds, block.append reads⟩
    · have kept : IsKept "else".toList := by decide
      have line : step ⟨cases, .closed longer before stack⟩ "else".toList =
          .ok ⟨cases, .opening (.otherwise longer) before stack⟩ := rfl
      have last : Reads ⟨cases, .opening (.otherwise longer) before stack⟩
          (keptLines (braced d (s.lines (d + 1) [] otherwise)))
          ⟨cases, .body (before ++ longer.code (otherwise.mapTokens s.token)) stack⟩ :=
        reads_braced hOtherwise d rfl rfl
      rw [if_neg branches, keptLines_tabs_cons kept]
      exact ⟨_, Holds.body, block.append (Reads.cons line last)⟩

/-- After the lines of a statement come those of the statements that follow it. -/
theorem reads_then {statement next : Code} {lines : List Text} (hNext : s.ReadsBack next) (d : Nat)
    (holds : Holds cases (before ++ statement) stack q) (reads : Reads p lines q) :
    ∃ r, Holds cases (before ++ (statement ++ next.mapTokens s.token)) stack r ∧
      Reads p (lines ++ keptLines (s.lines d [] next)) r := by
  obtain ⟨r, after, rest⟩ := hNext d cases _ stack q holds
  rw [Code.append_assoc] at after
  exact ⟨r, after, reads.append rest⟩

/-- Code whose branches ask for paths is read back, also as what follows an `else`. -/
theorem readsBack (hs : s.Readable) {code : Code} (hCode : code.AsksForPaths) :
    s.ReadsBack code ∧ (code.isBranch = true → s.ReadsBackAfterElse code) := by
  induction code with
  | done =>
      refine ⟨fun d cases before stack p holds => ⟨p, ?_, Reads.nil p⟩, by simp [Code.isBranch]⟩
      simpa [Code.mapTokens] using holds
  | advance next ih =>
      refine ⟨fun d cases before stack p holds => ?_, by simp [Code.isBranch]⟩
      have line : step p "AdvanceChars();".toList =
          .ok ⟨cases, .body (before ++ .advance .done) stack⟩ :=
        holds.step_statement (by decide)
      rw [Style.lines, hs.advance, keptLines_tabs_cons (by decide)]
      exact reads_then (ih hCode).1 d Holds.body (Reads.single line)
  | assign word next ih =>
      refine ⟨fun d cases before stack p holds => ?_, by simp [Code.isBranch]⟩
      have line : step p (s.assignment word) =
          .ok ⟨cases, .body (before ++ .assign (s.token word) .done) stack⟩ := by
        rw [holds.step_statement (startsStatement_assignment hs word),
          readStatement_assignment hs word]
        rfl
      rw [Style.lines, keptLines_tabs_cons (isKept_assignment hs word)]
      exact reads_then (ih hCode).1 d Holds.body (Reads.single line)
  | block body next ihBody ihNext =>
      refine ⟨fun d cases before stack p holds => ?_, by simp [Code.isBranch]⟩
      have block := reads_braced (ihBody hCode.1).1 d (holds.step_statement (by decide)) rfl
      rw [Style.lines, keptLines_append]
      exact reads_then (ihNext hCode.2).1 d Holds.body block
  | branch conds matched otherwise next ihMatched ihOtherwise ihNext =>
      obtain ⟨⟨c, path, rfl⟩, hMatched, hOtherwise, hNext⟩ := hCode
      constructor
      · intro d cases before stack p holds
        obtain ⟨q, holds', first⟩ := reads_branch d [] [] (ihMatched hMatched).1
          (ihOtherwise hOtherwise).1 (ihOtherwise hOtherwise).2 (holds.reads_condition hs d c path)
        have split : s.lines d [] (.branch (Cond.ofPath (c :: path)) matched otherwise next) =
            s.lines d [] (.branch (Cond.ofPath (c :: path)) matched otherwise .done) ++
              s.lines d [] next := by
          rw [Style.lines, Style.lines, Style.lines, List.append_nil]
        rw [split, keptLines_append]
        exact reads_then (ihNext hNext).1 d holds' first
      · intro single d cases chain before stack
        cases next with
        | done =>
            exact reads_branch d "else ".toList chain (ihMatched hMatched).1
              (ihOtherwise hOtherwise).1 (ihOtherwise hOtherwise).2
              (reads_condition_after_else hs d chain c path)
        | advance | assign | block | branch => simp [Code.isBranch] at single

end Switch

end KeywordSwitch
