import KeywordSwitch.Proofs.Switch.Viable

/-!
# Rejections name the first wrong line

Lines that are no switch are rejected at the first line that cannot follow those
before it, or after the last line. The message quotes that line, and it says that a
statement list is not closed only if the lines end within one.

## Implementation notes

Which statement lists are open is told from the lines alone, without the reader: a
list of the lines that would close them is kept up line by line. The stack of the
reader agrees with it after every move.
-/

namespace KeywordSwitch.Switch

variable {cases : Switch} {chain : Chain} {conds : List Cond} {before code : Code} {stack : Stack}
  {line : Text} {lines : List Text} {p q : Progress} {w : Switch} {e : Text × Fault}

/-! ## Open statement lists -/

/-- The lines that close the open statement lists, the innermost first, after one more line. A line
outside of all lists is the label of a case and opens one. -/
def terminatorsAfter (terminators : List Text) (line : Text) : List Text :=
  match terminators with
  | [] => ["break;".toList]
  | innermost :: outer =>
      if line = innermost then outer
      else if line = ['{'] then ['}'] :: innermost :: outer
      else innermost :: outer

/-- The lines that close the statement lists which the lines leave open, the innermost first. -/
def openTerminators (lines : List Text) : List Text :=
  lines.foldl terminatorsAfter []

/-- The lines that close the lists of a stack. -/
def Stack.terminators : Stack → List Text
  | .case label => [(Stack.case label).terminator]
  | .push owner before below => (Stack.push owner before below).terminator :: below.terminators

/-- The lines that close the lists which are open in a state. -/
def State.terminators : State → List Text
  | .label => []
  | .body _ stack | .closed _ _ stack | .condition _ _ _ stack | .opening _ _ stack =>
      stack.terminators

theorem Stack.terminators_eq_cons (stack : Stack) (cases : Switch) (code : Code) :
    stack.terminators = stack.terminator :: (stack.close cases code).state.terminators :=
  match stack with
  | .case _ | .push .block .. | .push (.matched ..) .. | .push (.otherwise _) .. => rfl

theorem Stack.head?_terminators (stack : Stack) :
    stack.terminators.head? = some stack.terminator := by
  rw [stack.terminators_eq_cons [] .done]
  rfl

theorem terminators_tested (chain : Chain) (conds : List Cond) (before : Code) (stack : Stack)
    (last : Bool) :
    (State.tested chain conds before stack last).terminators = stack.terminators := by
  cases last <;> rfl

theorem terminatorsAfter_terminator (stack : Stack) (cases : Switch) (code : Code) :
    terminatorsAfter stack.terminators stack.terminator =
      (stack.close cases code).state.terminators := by
  rw [stack.terminators_eq_cons cases code]
  exact if_pos rfl

theorem terminatorsAfter_brace (stack : Stack) (owner : Owner) (before : Code) :
    terminatorsAfter stack.terminators ['{'] = (Stack.push owner before stack).terminators := by
  cases stack <;> rfl

theorem terminatorsAfter_of_ne (notTerminator : line ≠ stack.terminator) (notBrace : line ≠ ['{']) :
    terminatorsAfter stack.terminators line = stack.terminators := by
  rw [stack.terminators_eq_cons [] .done]
  exact (if_neg notTerminator).trans (if_neg notBrace)

/-- A line that starts neither like a brace nor like `break;` neither opens nor closes a list. -/
theorem terminatorsAfter_of_head? {a : Char} (first : line.head? = some a)
    (other : a ≠ '{' ∧ a ≠ '}' ∧ a ≠ 'b') :
    terminatorsAfter stack.terminators line = stack.terminators := by
  apply terminatorsAfter_of_ne
  · rintro rfl
    cases stack with
    | case label => exact other.2.2 (Option.some.inj first).symm
    | push owner before below => exact other.2.1 (Option.some.inj first).symm
  · rintro rfl
    exact other.1 (Option.some.inj first).symm

/-- Every move keeps count of the open lists. -/
theorem Moves.terminatorsAfter_eq (move : Moves p line q) :
    terminatorsAfter p.state.terminators line = q.state.terminators := by
  induction move with
  | label => rfl
  | @close cases code stack => exact terminatorsAfter_terminator stack cases code
  | @statement cases code stack line s starts =>
      cases starts with
      | advance => exact terminatorsAfter_of_head? (a := 'A') rfl (by decide)
      | block => exact terminatorsAfter_brace stack .block code
      | branch c last =>
          rw [terminators_tested]
          exact terminatorsAfter_of_head? (a := 'i') rfl (by decide)
      | assign assigns =>
          have noMark : Text.after? " = ".toList stack.terminator = none := by
            cases stack <;> rfl
          exact terminatorsAfter_of_ne (assigns.ne_of_after?_eq_none noMark)
            (assigns.ne_of_after?_eq_none rfl)
  | elseBlock => exact terminatorsAfter_of_head? (a := 'e') rfl (by decide)
  | elseIf c last =>
      rw [terminators_tested]
      exact terminatorsAfter_of_head? (a := 'e') rfl (by decide)
  | leave notElseIf _ ih => exact ih
  | condition test last =>
      rw [terminators_tested]
      cases test with
      | peek c => exact terminatorsAfter_of_head? (a := 'i') rfl (by decide)
      | peekNext c => exact terminatorsAfter_of_head? (a := '&') rfl (by decide)
  | @opening cases owner before stack => exact terminatorsAfter_brace stack owner before

theorem Reads.foldl_terminatorsAfter (reads : Reads p lines q) :
    lines.foldl terminatorsAfter p.state.terminators = q.state.terminators := by
  induction reads with
  | nil => rfl
  | cons h _ ih => rw [List.foldl_cons, (step_eq_ok_iff.mp h).terminatorsAfter_eq, ih]

/-! ## What a fault is found in -/

/-- The fault is one that a line can have: nothing is missing, and if another line is expected then
it is the one that opens a block. -/
def Fault.IsOfLine : Fault → Prop
  | .missing _ => False
  | .expected wanted => wanted = ['{']
  | _ => True

/-- The fault is one of the line. -/
structure Blames (line : Text) (e : Text × Fault) : Prop where
  found : e.1 = line
  ofLine : e.2.IsOfLine

theorem map_state_eq_error {read : Except (Text × Fault) State}
    (h : read.map (Progress.mk cases) = .error e) : read = .error e := by
  cases read with
  | error e' =>
      cases h
      rfl
  | ok s => cases h

theorem isOfLine_of_condTail {test : Char → Cond} {rest : Text} {fault : Fault}
    (h : condTail test rest = .error fault) : fault.IsOfLine := by
  cases rest with
  | nil =>
      cases h
      trivial
  | cons c tail =>
      rw [condTail] at h
      split at h
      · cases h
      split at h
      · cases h
      · cases h
        trivial

theorem isOfLine_of_cond {fault : Fault} (h : cond line = .error fault) : fault.IsOfLine := by
  rcases cond_cases line with ⟨rest, -, read⟩ | ⟨rest, -, read⟩ | read
  · exact isOfLine_of_condTail (read ▸ h)
  · exact isOfLine_of_condTail (read ▸ h)
  · rw [read] at h
    cases h
    trivial

theorem blames_of_readCond (h : readCond chain conds before stack line = .error e) :
    Blames line e := by
  rw [readCond] at h
  split at h
  · rename_i fault h'
    cases h
    exact ⟨rfl, isOfLine_of_cond h'⟩
  · cases h
  · cases h

theorem blames_of_readBody (h : readBody cases code stack line = .error e) : Blames line e := by
  by_cases closes : line = stack.terminator
  · subst line
    rw [readBody_terminator] at h
    cases h
  simp only [readBody, if_neg closes] at h
  have read := map_state_eq_error h
  rw [readStatement] at read
  split at read
  · cases read
  split at read
  · cases read
  split at read
  · exact blames_of_readCond read
  split at read
  · cases read
  · cases read
    exact ⟨rfl, trivial⟩

/-- The line continues a chain with the head of another `if`. -/
def Progress.ContinuesWith (p : Progress) (line head : Text) : Prop :=
  (∃ chain before stack, p.state = .closed chain before stack) ∧
    line = "else ".toList ++ head ∧ "if (".toList <+: head

theorem blames_of_step_closed
    (h : step ⟨cases, .closed chain before stack⟩ line = .error e) :
    (Blames line e ∧ ¬ "else if (".toList <+: line) ∨
      ∃ rest, line = "else if (".toList ++ rest ∧ Blames ("if (".toList ++ rest) e := by
  by_cases isElseIf : "else if (".toList <+: line
  · obtain ⟨rest, rfl⟩ := isElseIf
    exact .inr ⟨rest, rfl, blames_of_readCond (map_state_eq_error h)⟩
  · have notElse : line ≠ "else".toList := by
      rintro rfl
      cases h
    rw [step_closed notElse isElseIf] at h
    exact .inl ⟨blames_of_readBody h, isElseIf⟩

theorem blames_of_step_of_not_closed
    (notClosed : ¬ ∃ chain before stack, p.state = .closed chain before stack)
    (h : step p line = .error e) : Blames line e := by
  obtain ⟨cases, state⟩ := p
  cases state with
  | label =>
      rw [step] at h
      dsimp only at h
      split at h
      · cases h
      · cases h
        exact ⟨rfl, trivial⟩
  | body code stack => exact blames_of_readBody h
  | closed chain before stack => exact absurd ⟨chain, before, stack, rfl⟩ notClosed
  | condition chain conds before stack => exact blames_of_readCond (map_state_eq_error h)
  | opening owner before stack =>
      rw [step] at h
      dsimp only at h
      split at h
      · cases h
      · cases h
        exact ⟨rfl, rfl⟩

/-- A fault is one of the line, or of the head that it continues a chain with. -/
theorem blames_of_step (h : step p line = .error e) :
    (Blames line e ∧ ∀ head, ¬ p.ContinuesWith line head) ∨
      ∃ head, p.ContinuesWith line head ∧ Blames head e := by
  by_cases closed : ∃ chain before stack, p.state = .closed chain before stack
  · obtain ⟨cases, state⟩ := p
    obtain ⟨chain, before, stack, rfl⟩ := closed
    rcases blames_of_step_closed h with ⟨blames, notElseIf⟩ | ⟨rest, rfl, blames⟩
    · refine .inl ⟨blames, ?_⟩
      rintro _ ⟨-, rfl, rest, rfl⟩
      exact notElseIf ⟨rest, rfl⟩
    · exact .inr ⟨_, ⟨⟨chain, before, stack, rfl⟩, rfl, rest, rfl⟩, blames⟩
  · exact .inl ⟨blames_of_step_of_not_closed closed h, fun head continues => closed continues.1⟩

/-! ## The first wrong line -/

/-- The line after the first `j` is the head of an else-if: an `else` may stand there, and the line
has one before the head of an `if`. -/
structure IsElseIfHead (lines : List Text) (j : Nat) (head : Text) : Prop where
  viable : Viable (lines.take j ++ ["else".toList])
  next : lines[j]? = some ("else ".toList ++ head)
  isIf : "if (".toList <+: head

/-- What is quoted after the first `j` lines: the next line, without the `else ` before the head of
an else-if, or nothing after the last line. -/
inductive Quotes (lines : List Text) (j : Nat) : Text → Prop
  | line {line : Text} (next : lines[j]? = some line)
      (notElseIf : ∀ head, ¬ IsElseIfHead lines j head) : Quotes lines j line
  | elseIf {head : Text} (elseIf : IsElseIfHead lines j head) : Quotes lines j head
  | pastEnd (last : j = lines.length) : Quotes lines j []

theorem exists_closed_of_step_else (h : step p "else".toList = .ok q) :
    ∃ chain before stack, p.state = .closed chain before stack := by
  obtain ⟨cases, state⟩ := p
  cases state with
  | closed chain before stack => exact ⟨chain, before, stack, rfl⟩
  | body code stack => cases stack <;> cases h
  | label | condition | opening => cases h

theorem exists_step_else {chain : Chain} {before : Code} {stack : Stack}
    (h : p.state = .closed chain before stack) : ∃ q, step p "else".toList = .ok q := by
  obtain ⟨cases, state⟩ := p
  subst h
  exact ⟨_, rfl⟩

section Failing

variable {first rest : List Text} (kept : ∀ line ∈ first ++ rest, IsKept line)
  (reads : Reads ⟨[], .label⟩ first p)

include kept reads

/-- After what has been read, further lines are viable if the reader goes on with them. -/
theorem viable_append_iff {more : List Text} (keptMore : ∀ line ∈ more, IsKept line) :
    Viable (first ++ more) ↔ ∃ q, Reads p more q := by
  have keptFirst : ∀ line ∈ first, IsKept line := fun line mem =>
    kept line (List.mem_append_left _ mem)
  rw [viable_iff (List.forall_mem_append.mpr ⟨keptFirst, keptMore⟩)]
  constructor
  · rintro ⟨q, whole⟩
    obtain ⟨p', before, after⟩ := whole.exists_of_append
    obtain rfl := reads.deterministic before
    exact ⟨q, after⟩
  · rintro ⟨q, after⟩
    exact ⟨q, reads.append after⟩

/-- Reading fails behind the longest viable lines. -/
theorem isLongestViable_of_stuck (stuck : Stuck p rest e) :
    IsLongestViable (first ++ rest) first.length where
  le := by
    rw [List.length_append]
    exact Nat.le_add_right ..
  viable := by
    have viable := (viable_append_iff kept reads (List.forall_mem_nil _)).mpr ⟨p, Reads.nil p⟩
    rw [List.append_nil] at viable
    rwa [List.take_left]
  longest i le viable := by
    by_contra longer
    obtain ⟨k, rfl⟩ := Nat.exists_eq_add_of_lt (Nat.lt_of_not_le longer)
    rw [Nat.add_assoc, List.take_length_add_append] at viable
    have keptMore : ∀ line ∈ rest.take (k + 1), IsKept line := fun line mem =>
      kept line (List.mem_append_right _ (List.mem_of_mem_take mem))
    obtain ⟨q, more⟩ := (viable_append_iff kept reads keptMore).mp viable
    cases stuck with
    | last h =>
        rw [List.append_nil] at le
        omega
    | line h =>
        cases more with
        | cons read _ =>
            rw [h] at read
            cases read

theorem isElseIfHead_iff {line head : Text} {later : List Text} (split : rest = line :: later) :
    IsElseIfHead (first ++ rest) first.length head ↔ p.ContinuesWith line head := by
  have keptElse : ∀ line ∈ ["else".toList], IsKept line := List.forall_mem_singleton.mpr (by decide)
  have next : (first ++ rest)[first.length]? = some line := by
    rw [split, List.getElem?_append_right (Nat.le_refl _), Nat.sub_self]
    rfl
  constructor
  · rintro ⟨viable, next', isIf⟩
    rw [List.take_left, viable_append_iff kept reads keptElse] at viable
    obtain ⟨q, more⟩ := viable
    cases more with
    | cons read _ =>
        rw [next] at next'
        exact ⟨exists_closed_of_step_else read, Option.some.inj next', isIf⟩
  · rintro ⟨⟨chain, before, stack, closed⟩, rfl, isIf⟩
    obtain ⟨q, read⟩ := exists_step_else closed
    refine ⟨?_, next, isIf⟩
    rw [List.take_left, viable_append_iff kept reads keptElse]
    exact ⟨q, Reads.single read⟩

/-- What is quoted is what the fault is in. -/
theorem quotes_of_stuck (stuck : Stuck p rest e) : Quotes (first ++ rest) first.length e.1 := by
  cases stuck with
  | @line line later e h =>
      rcases blames_of_step h with ⟨blames, other⟩ | ⟨head, continues, blames⟩
      · rw [blames.found]
        refine .line ?_ fun head elseIf => ?_
        · rw [List.getElem?_append_right (Nat.le_refl _), Nat.sub_self]
          rfl
        · exact other head ((isElseIfHead_iff kept reads rfl).mp elseIf)
      · rw [blames.found]
        exact .elseIf ((isElseIfHead_iff kept reads rfl).mpr continues)
  | last h =>
      have nothing : e.1 = [] := by
        obtain ⟨cases, state⟩ := p
        cases state <;> cases h
        all_goals rfl
      rw [nothing, List.append_nil]
      exact .pastEnd rfl

end Failing

/-- That a statement list is not closed is found only after the last line. -/
theorem eq_nil_of_stuck_missing {rest : List Text} {found terminator : Text}
    (stuck : Stuck p rest (found, .missing terminator)) :
    rest = [] ∧ p.state.terminators.head? = some terminator := by
  cases stuck with
  | line h =>
      rcases blames_of_step h with ⟨blames, -⟩ | ⟨_, -, blames⟩
      · exact blames.ofLine.elim
      · exact blames.ofLine.elim
  | last h =>
      obtain ⟨cases, state⟩ := p
      cases state with
      | body code stack =>
          cases h
          exact ⟨rfl, stack.head?_terminators⟩
      | closed chain before stack =>
          cases h
          exact ⟨rfl, stack.head?_terminators⟩
      | label | condition | opening => cases h

/-! ## The wording -/

/-- What a message says of a fault, where the line in question has the number `number` and `found`
is what is quoted of it. -/
inductive Wording (number : Nat) (found : Text) : Fault → Text → Prop
  | missingBrace : Wording number found (.missing ['}']) "missing \"\x7d\"".toList
  | missingBreak : Wording number found (.missing "break;".toList) "missing \"break;\"".toList
  | notStatement :
      Wording number found .notStatement
        ("unexpected line ".toList ++ Text.decimal number ++ ": ".toList ++ Text.quoted found)
  | notCondition :
      Wording number found .notCondition ("not a condition: ".toList ++ Text.quoted found)
  | noCharacter :
      Wording number found .noCharacter "called `Option::unwrap()` on a `None` value".toList
  | badTail : Wording number found .badTail ("bad condition tail: ".toList ++ Text.quoted found)
  | notLabel :
      Wording number found .notLabel ("expected case label, got ".toList ++ Text.quoted found)
  | expected :
      Wording number found (.expected ['{'])
        ("assertion `left == right` failed: line ".toList ++ Text.decimal number ++
          "\n  left: ".toList ++ Text.quoted found ++ "\n right: ".toList ++ "\"\x7b\"".toList)

theorem wording_of_isOfLine {fault : Fault} (ofLine : fault.IsOfLine) (number : Nat)
    (found : Text) : Wording number found fault (Rejection.message ⟨number, found, fault⟩) := by
  cases fault with
  | missing terminator => exact ofLine.elim
  | notStatement => exact .notStatement
  | notCondition => exact .notCondition
  | noCharacter => exact .noCharacter
  | badTail => exact .badTail
  | notLabel => exact .notLabel
  | expected wanted =>
      obtain rfl : wanted = ['{'] := ofLine
      exact .expected

theorem wording_of_missing (stack : Stack) (number : Nat) (found : Text) :
    Wording number found (.missing stack.terminator)
      (Rejection.message ⟨number, found, .missing stack.terminator⟩) := by
  cases stack with
  | case label => exact .missingBreak
  | push owner before below => exact .missingBrace

/-- Whatever reading fails with is worded. -/
theorem wording_of_stuck {rest : List Text} (stuck : Stuck p rest e) (number : Nat) :
    Wording number e.1 e.2 (Rejection.message ⟨number, e.1, e.2⟩) := by
  cases stuck with
  | line h =>
      rcases blames_of_step h with ⟨blames, -⟩ | ⟨_, -, blames⟩
      · exact wording_of_isOfLine blames.ofLine number e.1
      · exact wording_of_isOfLine blames.ofLine number e.1
  | last h =>
      obtain ⟨cases, state⟩ := p
      cases state with
      | label => cases h
      | body code stack =>
          cases h
          exact wording_of_missing stack number []
      | closed chain before stack =>
          cases h
          exact wording_of_missing stack number []
      | condition chain conds before stack =>
          cases h
          exact .notCondition
      | opening owner before stack =>
          cases h
          exact .expected

/-- A rejection of lines of which the first `j` are viable and no more. -/
structure RejectsNext (lines : List Text) (j : Nat) (found : Text) (r : Rejection) : Prop where
  /-- Reading ends behind the longest viable part. -/
  longest : IsLongestViable lines j
  /-- What is found there is the next line, or nothing. -/
  quotes : Quotes lines j found
  /-- The rejection has the number of the next line and what is found there. -/
  rejection : r = ⟨j + 1, found, r.fault⟩
  /-- A statement list is called unclosed only after the last line, with the line that would close
  the innermost open one. -/
  missing : ∀ terminator, r.fault = .missing terminator →
    j = lines.length ∧ (openTerminators lines).head? = some terminator
  /-- The message gives this number and quotes what is found. -/
  wording : Wording (j + 1) found r.fault r.message

/-- Lines that are no switch are rejected right after the longest viable part of the kept lines: the
message has the number of the next line and quotes it, and it calls a statement list unclosed only
after the last line, with the line that would close the innermost open one. -/
theorem rejected_at_first_wrong_line {lines : List Text} {r : Rejection}
    (h : parse lines = .error r) : ∃ j found, RejectsNext (keptLines lines) j found r := by
  obtain ⟨first, rest, p, split, reads, stuck, count⟩ := exists_stuck_of_readFrom h
  have kept : ∀ line ∈ first ++ rest, IsKept line := fun line mem =>
    isKept_of_mem_keptLines (split ▸ mem)
  have number : r.line = first.length + 1 := by rw [count, Nat.add_comm]
  rw [split]
  refine ⟨first.length, r.found, ?_⟩
  constructor
  case longest => exact isLongestViable_of_stuck kept reads stuck
  case quotes => exact quotes_of_stuck kept reads stuck
  case rejection => rw [← number]
  case missing =>
    intro terminator missing
    rw [missing] at stuck
    obtain ⟨rfl, innermost⟩ := eq_nil_of_stuck_missing stuck
    rw [List.append_nil, ← innermost, ← reads.foldl_terminatorsAfter]
    exact ⟨rfl, rfl⟩
  case wording =>
    rw [← number]
    exact wording_of_stuck stuck r.line

/-- The lines of a case that end within a block. -/
def unclosedBlock : List Text :=
  ["case 'a':".toList, [], "\t// a block".toList, ['\t', '{'], "AdvanceChars();".toList]

/-- The lines of a case with one that is no statement. -/
def strayLine : List Text :=
  ["// one case".toList, "case 'a':".toList, "AdvanceChars();".toList,
    "\tsay \"a\\b\tc\" 'd'".toList, "break;".toList]

/-- The lines of a case with the head of an else-if that tests nothing. -/
def strayElseIf : List Text :=
  ["case 'a':".toList, "if (PeekChar() == 'b')".toList, ['{'], ['}'], "else if (x)".toList]

/-- The message for an unclosed block names a brace, that for a stray line has a number and a
quotation, and that for the head of an else-if leaves the `else ` out. -/
theorem wrong_lines_rejected :
    (∃ r, parse unclosedBlock = .error r ∧ r.message = "missing \"\x7d\"".toList ∧
      ∃ j found, RejectsNext (keptLines unclosedBlock) j found r) ∧
    (∃ r, parse strayLine = .error r ∧
      r.message = "unexpected line 3: \"say \\\"a\\\\b\\tc\\\" 'd'\"".toList ∧
      ∃ j found, RejectsNext (keptLines strayLine) j found r) ∧
    ∃ r, parse strayElseIf = .error r ∧ r.message = "not a condition: \"if (x)\"".toList ∧
      ∃ j found, RejectsNext (keptLines strayElseIf) j found r := by
  have unclosed : parse unclosedBlock = .error ⟨4, [], .missing ['}']⟩ := by decide +kernel
  have stray : parse strayLine =
      .error ⟨3, "say \"a\\b\tc\" 'd'".toList, .notStatement⟩ := by decide +kernel
  have elseIf : parse strayElseIf = .error ⟨5, "if (x)".toList, .notCondition⟩ := by
    decide +kernel
  exact ⟨⟨_, unclosed, by decide, rejected_at_first_wrong_line unclosed⟩,
    ⟨_, stray, by decide, rejected_at_first_wrong_line stray⟩,
    ⟨_, elseIf, by decide, rejected_at_first_wrong_line elseIf⟩⟩

end KeywordSwitch.Switch
