import KeywordSwitch.Proofs.Switch.Grammar
import KeywordSwitch.Proofs.Switch.Reads
import Mathlib.Data.List.Basic

/-!
# The moves of the reader

All that one step of the reader can do: which lines it takes in which state, and
where they lead. What holds of every step is proved by cases on its move.
-/

namespace KeywordSwitch

/-- What `after?` finds follows the first of the occurrences of the mark. -/
theorem Text.after?_eq_some_iff {mark t right : Text} :
    Text.after? mark t = some right ↔ ∃ left, t = left ++ (mark ++ right) ∧
      ∀ left' right', t = left' ++ (mark ++ right') → left.length ≤ left'.length := by
  induction t with
  | nil =>
      rw [Text.after?, List.isPrefixOf?_eq_some_iff_append_eq]
      constructor
      · intro split
        exact ⟨[], split.symm, fun _ _ _ => Nat.zero_le _⟩
      · rintro ⟨left, split, -⟩
        exact (List.append_eq_nil_iff.mp split.symm).2
  | cons c t ih =>
      rw [Text.after?]
      cases found : mark.isPrefixOf? (c :: t) with
      | some first =>
          have split := List.isPrefixOf?_eq_some_iff_append_eq.mp found
          rw [Option.some_or, Option.some.injEq]
          constructor
          · rintro rfl
            exact ⟨[], split.symm, fun _ _ _ => Nat.zero_le _⟩
          · rintro ⟨left, split', least⟩
            have empty : left = [] :=
              List.length_eq_zero_iff.mp (Nat.le_zero.mp (least [] _ split.symm))
            rw [empty, ← split] at split'
            exact List.append_cancel_left split'
      | none =>
          have later : ∀ left right', c :: t = left ++ (mark ++ right') →
              ∃ left', left = c :: left' ∧ t = left' ++ (mark ++ right') := by
            intro left right' split
            cases left with
            | nil =>
                have here : mark.isPrefixOf? (c :: t) = some right' :=
                  List.isPrefixOf?_eq_some_iff_append_eq.mpr split.symm
                rw [found] at here
                cases here
            | cons d left =>
                obtain ⟨rfl, rfl⟩ := List.cons.inj split
                exact ⟨left, rfl, rfl⟩
          rw [Option.none_or]
          constructor
          · intro h
            obtain ⟨left, rfl, least⟩ := ih.mp h
            refine ⟨c :: left, rfl, fun left' right' split => ?_⟩
            obtain ⟨left', rfl, later⟩ := later left' right' split
            exact Nat.succ_le_succ (least left' right' later)
          · rintro ⟨left, split, least⟩
            obtain ⟨left, rfl, tail⟩ := later left right split
            refine ih.mpr ⟨left, tail, fun left' right' split' => ?_⟩
            exact Nat.le_of_succ_le_succ (least (c :: left') right' (congrArg (c :: ·) split'))

namespace Switch

variable {cases : Switch} {chain : Chain} {conds : List Cond} {before code : Code} {stack : Stack}
  {line : Text} {p q : Progress}

theorem label?_eq_some_iff {c : Char} :
    label? line = some c ↔ ∃ more, line = "case '".toList ++ c :: (more ++ "':".toList) := by
  simp only [label?, Option.bind_eq_bind, Option.bind_eq_some_iff,
    List.isPrefixOf?_eq_some_iff_append_eq, List.isSuffixOf?_eq_some_iff_append_eq]
  constructor
  · rintro ⟨_, rfl, chars, rfl, first⟩
    obtain ⟨more, rfl⟩ := List.head?_eq_some_iff.mp first
    exact ⟨more, rfl⟩
  · rintro ⟨more, rfl⟩
    exact ⟨_, rfl, c :: more, rfl, rfl⟩

theorem condTail_eq_ok_iff {test : Char → Cond} {rest : Text} {found : Cond} {last : Bool} :
    condTail test rest = .ok (found, last) ↔
      ∃ c, found = test c ∧ rest = c :: if last then "')".toList else "'".toList := by
  cases rest with
  | nil => simp [condTail]
  | cons c tail =>
      rw [condTail]
      split
      · subst tail
        cases last <;> simp [eq_comm]
      · split
        · subst tail
          cases last <;> simp [eq_comm]
        · cases last <;> simp [*]

/-- A line is read as a condition if it starts like one. -/
theorem cond_cases (line : Text) :
    (∃ rest, line = "if (PeekChar() == '".toList ++ rest ∧ cond line = condTail .peek rest) ∨
      (∃ rest, line = "&& PeekNextChar() == '".toList ++ rest ∧
        cond line = condTail .peekNext rest) ∨
      cond line = .error .notCondition := by
  rw [cond]
  cases peek : "if (PeekChar() == '".toList.isPrefixOf? line with
  | some rest => exact .inl ⟨rest, (List.isPrefixOf?_eq_some_iff_append_eq.mp peek).symm, rfl⟩
  | none =>
      cases peekNext : "&& PeekNextChar() == '".toList.isPrefixOf? line with
      | some rest =>
          exact .inr (.inl ⟨rest, (List.isPrefixOf?_eq_some_iff_append_eq.mp peekNext).symm, rfl⟩)
      | none => exact .inr (.inr rfl)

/-- The lines that are read as conditions are those of tests. -/
theorem cond_eq_ok_iff {test : Cond} {last : Bool} :
    cond line = .ok (test, last) ↔ line = test.line last := by
  constructor
  · intro h
    rcases cond_cases line with ⟨rest, split, read⟩ | ⟨rest, split, read⟩ | read
    · rw [read] at h
      obtain ⟨c, rfl, rfl⟩ := condTail_eq_ok_iff.mp h
      exact split
    · rw [read] at h
      obtain ⟨c, rfl, rfl⟩ := condTail_eq_ok_iff.mp h
      exact split
    · rw [read] at h
      cases h
  · rintro rfl
    cases test <;> cases last <;> rfl

/-- The state after a test that is the last of `conds` so far: the condition goes on, or the block
that it is for opens. -/
def State.tested (chain : Chain) (conds : List Cond) (before : Code) (stack : Stack) (last : Bool) :
    State :=
  if last then .opening (.matched chain conds) before stack
  else .condition chain conds before stack

theorem readCond_eq_ok_iff {s : State} :
    readCond chain conds before stack line = .ok s ↔
      ∃ test last, line = Cond.line test last ∧
        s = .tested chain (conds ++ [test]) before stack last := by
  simp only [← cond_eq_ok_iff, readCond]
  cases h : cond line with
  | error fault => simp
  | ok found =>
      obtain ⟨test, last⟩ := found
      cases last <;> simp [State.tested, eq_comm]

/-- A condition that starts a branch tests the current character first. -/
theorem peek_of_readCond_if {rest : Text} {s : State}
    (h : readCond chain [] before stack ("if (".toList ++ rest) = .ok s) :
    ∃ c last, "if (".toList ++ rest = Cond.line (.peek c) last ∧
      s = .tested chain [.peek c] before stack last := by
  obtain ⟨test, last, head, rfl⟩ := readCond_eq_ok_iff.mp h
  cases test with
  | peek c => exact ⟨c, last, head, rfl⟩
  | peekNext c =>
      have : some 'i' = some '&' := congrArg List.head? head
      cases this

theorem assigns_iff {token : Text} :
    Assigns line token ↔ "if (".toList.isPrefixOf line = false ∧
      ∃ right, Text.after? " = ".toList line = some right ∧
        token = Text.dropEndWhile (· = ';') right := by
  simp only [Text.after?_eq_some_iff, ← Bool.not_eq_true, List.isPrefixOf_iff_prefix]
  constructor
  · rintro ⟨notIf, left, right, split, least, h⟩
    exact ⟨notIf, right, ⟨left, split, least⟩, h⟩
  · rintro ⟨notIf, right, ⟨left, split, least⟩, h⟩
    exact ⟨notIf, left, right, split, least, h⟩

theorem Assigns.ne_of_after?_eq_none {token other : Text} (assigns : Assigns line token)
    (h : Text.after? " = ".toList other = none) : line ≠ other := by
  rintro rfl
  obtain ⟨-, right, found, -⟩ := assigns_iff.mp assigns
  rw [h] at found
  cases found

/-- The line starts a statement after `code`, and leads to the state. -/
inductive Starts (code : Code) (stack : Stack) : Text → State → Prop
  | advance : Starts code stack "AdvanceChars();".toList (.body (code ++ .advance .done) stack)
  | block : Starts code stack ['{'] (.body .done (.push .block code stack))
  | branch (c : Char) (last : Bool) :
      Starts code stack (Cond.line (.peek c) last) (.tested [] [.peek c] code stack last)
  | assign {line token : Text} (assigns : Assigns line token) :
      Starts code stack line (.body (code ++ .assign token .done) stack)

theorem readStatement_eq_ok_iff {s : State} :
    readStatement code stack line = .ok s ↔ Starts code stack line s := by
  constructor
  · intro h
    rw [readStatement] at h
    split at h
    · subst line
      cases h
      exact .advance
    split at h
    · subst line
      cases h
      exact .block
    split at h
    · rename_i isIf
      obtain ⟨rest, rfl⟩ := List.isPrefixOf_iff_prefix.mp isIf
      obtain ⟨c, last, head, rfl⟩ := peek_of_readCond_if h
      rw [head]
      exact .branch c last
    · rename_i notIf
      split at h
      · rename_i right found
        cases h
        exact .assign (assigns_iff.mpr ⟨Bool.not_eq_true _ ▸ notIf, right, found, rfl⟩)
      · cases h
  · intro h
    cases h with
    | advance => rfl
    | block => rfl
    | branch c last =>
        have notAdvance : Cond.line (.peek c) last ≠ "AdvanceChars();".toList :=
          fun h => by cases h
        have notBrace : Cond.line (.peek c) last ≠ ['{'] := fun h => by cases h
        have isIf : "if (".toList.isPrefixOf (Cond.line (.peek c) last) = true := rfl
        rw [readStatement, if_neg notAdvance, if_neg notBrace, if_pos isIf]
        exact readCond_eq_ok_iff.mpr ⟨.peek c, last, rfl, rfl⟩
    | assign assigns =>
        obtain ⟨notIf, right, found, rfl⟩ := assigns_iff.mp assigns
        rw [readStatement, if_neg (assigns.ne_of_after?_eq_none rfl),
          if_neg (assigns.ne_of_after?_eq_none rfl), notIf, found]
        rfl

/-- The progress after the line that closes a statement list with `code`. -/
def Stack.close (cases : Switch) (code : Code) : Stack → Progress
  | .case label => ⟨cases ++ [⟨label, code⟩], .label⟩
  | .push .block before below => ⟨cases, .body (before ++ .block code .done) below⟩
  | .push (.matched chain conds) before below =>
      ⟨cases, .closed ((conds, code) :: chain) before below⟩
  | .push (.otherwise chain) before below => ⟨cases, .body (before ++ chain.code code) below⟩

/-- The reader takes the line from the first progress to the second. -/
inductive Moves : Progress → Text → Progress → Prop
  | label {cases : Switch} {c : Char} {more : Text} :
      Moves ⟨cases, .label⟩ ("case '".toList ++ c :: (more ++ "':".toList))
        ⟨cases, .body .done (.case c)⟩
  | close {cases : Switch} {code : Code} {stack : Stack} :
      Moves ⟨cases, .body code stack⟩ stack.terminator (stack.close cases code)
  | statement {cases : Switch} {code : Code} {stack : Stack} {line : Text} {s : State}
      (starts : Starts code stack line s) : Moves ⟨cases, .body code stack⟩ line ⟨cases, s⟩
  | elseBlock {cases : Switch} {chain : Chain} {before : Code} {stack : Stack} :
      Moves ⟨cases, .closed chain before stack⟩ "else".toList
        ⟨cases, .opening (.otherwise chain) before stack⟩
  | elseIf {cases : Switch} {chain : Chain} {before : Code} {stack : Stack} (c : Char)
      (last : Bool) :
      Moves ⟨cases, .closed chain before stack⟩ ("else ".toList ++ Cond.line (.peek c) last)
        ⟨cases, .tested chain [.peek c] before stack last⟩
  | leave {cases : Switch} {chain : Chain} {before : Code} {stack : Stack} {line : Text}
      {q : Progress} (notElseIf : ¬ "else if (".toList <+: line)
      (move : Moves ⟨cases, .body (before ++ chain.code .done) stack⟩ line q) :
      Moves ⟨cases, .closed chain before stack⟩ line q
  | condition {cases : Switch} {chain : Chain} {conds : List Cond} {before : Code} {stack : Stack}
      (test : Cond) (last : Bool) :
      Moves ⟨cases, .condition chain conds before stack⟩ (test.line last)
        ⟨cases, .tested chain (conds ++ [test]) before stack last⟩
  | opening {cases : Switch} {owner : Owner} {before : Code} {stack : Stack} :
      Moves ⟨cases, .opening owner before stack⟩ ['{']
        ⟨cases, .body .done (.push owner before stack)⟩

/-- A line that closes a statement list starts no statement. -/
theorem not_starts_terminator {s : State} : ¬ Starts code stack stack.terminator s := by
  rw [← readStatement_eq_ok_iff]
  cases stack <;> exact nofun

theorem readBody_terminator : readBody cases code stack stack.terminator =
    .ok (stack.close cases code) := by
  simp only [readBody]
  match stack with
  | .case _ | .push .block .. | .push (.matched ..) .. | .push (.otherwise _) .. => rfl

theorem map_state_eq_ok_iff {read : Except (Text × Fault) State} :
    read.map (Progress.mk cases) = .ok q ↔ ∃ s, read = .ok s ∧ q = ⟨cases, s⟩ := by
  cases read with
  | error e => exact ⟨nofun, nofun⟩
  | ok s => simp [Except.map, eq_comm]

/-- After a branch, a line that neither continues nor closes its chain is read as after any other
statement. -/
theorem step_closed (notElse : line ≠ "else".toList) (notElseIf : ¬ "else if (".toList <+: line) :
    step ⟨cases, .closed chain before stack⟩ line =
      readBody cases (before ++ chain.code .done) stack line :=
  Holds.step (.closed rfl) notElse
    (Bool.eq_false_iff.mpr (mt List.isPrefixOf_iff_prefix.mp notElseIf))

/-- A move is a step. -/
theorem Moves.step_eq (move : Moves p line q) : step p line = .ok q := by
  induction move with
  | label =>
      rw [step]
      dsimp only
      rw [label?_eq_some_iff.mpr ⟨_, rfl⟩]
  | close => exact readBody_terminator
  | @statement cases code stack line s starts =>
      have open_ : line ≠ stack.terminator := by
        rintro rfl
        exact not_starts_terminator starts
      simp only [step, readBody, if_neg open_]
      exact map_state_eq_ok_iff.mpr ⟨_, readStatement_eq_ok_iff.mpr starts, rfl⟩
  | elseBlock => rfl
  | elseIf c last =>
      refine map_state_eq_ok_iff.mpr ⟨_, ?_, rfl⟩
      exact readCond_eq_ok_iff.mpr ⟨.peek c, last, rfl, rfl⟩
  | @leave _ _ _ stack line _ notElseIf _ ih =>
      have notElse : line ≠ "else".toList := by
        rintro rfl
        cases stack <;> cases ih
      rw [step_closed notElse notElseIf]
      exact ih
  | condition test last =>
      refine map_state_eq_ok_iff.mpr ⟨_, ?_, rfl⟩
      exact readCond_eq_ok_iff.mpr ⟨test, last, rfl, rfl⟩
  | opening => rfl

theorem moves_of_readBody (h : readBody cases code stack line = .ok q) :
    Moves ⟨cases, .body code stack⟩ line q := by
  by_cases closes : line = stack.terminator
  · subst line
    rw [readBody_terminator] at h
    cases h
    exact .close
  · simp only [readBody, if_neg closes] at h
    obtain ⟨s, read, rfl⟩ := map_state_eq_ok_iff.mp h
    exact .statement (readStatement_eq_ok_iff.mp read)

theorem moves_of_step_closed (h : step ⟨cases, .closed chain before stack⟩ line = .ok q) :
    Moves ⟨cases, .closed chain before stack⟩ line q := by
  by_cases isElse : line = "else".toList
  · subst line
    cases h
    exact .elseBlock
  by_cases isElseIf : "else if (".toList <+: line
  · obtain ⟨rest, rfl⟩ := isElseIf
    obtain ⟨s, read, rfl⟩ := map_state_eq_ok_iff.mp h
    obtain ⟨c, last, head, rfl⟩ := peek_of_readCond_if read
    have whole : "else if (".toList ++ rest = "else ".toList ++ Cond.line (.peek c) last := by
      rw [← head]
      rfl
    rw [whole]
    exact .elseIf c last
  · rw [step_closed isElse isElseIf] at h
    exact .leave isElseIf (moves_of_readBody h)

/-- The steps of the reader are its moves. -/
theorem step_eq_ok_iff : step p line = .ok q ↔ Moves p line q := by
  refine ⟨fun h => ?_, Moves.step_eq⟩
  obtain ⟨cases, state⟩ := p
  cases state with
  | label =>
      rw [step] at h
      dsimp only at h
      split at h
      · rename_i c found
        obtain ⟨more, rfl⟩ := label?_eq_some_iff.mp found
        cases h
        exact .label
      · cases h
  | body code stack => exact moves_of_readBody h
  | closed chain before stack => exact moves_of_step_closed h
  | condition chain conds before stack =>
      obtain ⟨s, read, rfl⟩ := map_state_eq_ok_iff.mp h
      obtain ⟨test, last, rfl, rfl⟩ := readCond_eq_ok_iff.mp read
      exact .condition test last
  | opening owner before stack =>
      rw [step] at h
      dsimp only at h
      split at h
      · subst line
        cases h
        exact .opening
      · cases h

end Switch

end KeywordSwitch
