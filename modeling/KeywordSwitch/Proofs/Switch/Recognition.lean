import KeywordSwitch.Proofs.Switch.Moves

/-!
# The reader accepts the grammar

Reading succeeds on the lines that spell a switch, and on no others, and yields the
switch that they spell.

## Implementation notes

That spelled lines are read is by induction on how they are spelled. For the
converse, `Completes` says of every progress which lines may follow it: the rest of
the phrase that is being read, and then what closes the statement lists on the
stack. One move carries it from the progress after a line to the one before.
-/

namespace KeywordSwitch.Switch

variable {cases : Switch} {chain : Chain} {conds : List Cond} {before code : Code} {stack : Stack}
  {line : Text} {lines : List Text} {p q : Progress} {w : Switch}

/-! ## Spelled lines are read -/

/-- A line that does not start with `else if (` is read after a branch as after any statement. -/
theorem reads_closed_of_reads_body (first : ∀ line ∈ lines.head?, ¬ "else if (".toList <+: line)
    (holds : Holds cases code stack q)
    (reads : Reads ⟨cases, .body (before ++ chain.code .done) stack⟩ lines q) :
    ∃ r, Holds cases code stack r ∧ Reads ⟨cases, .closed chain before stack⟩ lines r := by
  cases reads with
  | nil =>
      refine ⟨_, ?_, Reads.nil _⟩
      cases holds
      exact Holds.closed rfl
  | cons h tail =>
      have move := step_eq_ok_iff.mp h
      exact ⟨q, holds, Reads.cons (Moves.leave (first _ rfl) move).step_eq tail⟩

/-- The tests of a condition lead to its block. -/
theorem reads_lines (conds : List Cond) (test : Cond) (tests : List Cond) :
    Reads ⟨cases, .condition chain conds before stack⟩ (Cond.lines (test :: tests))
      ⟨cases, .opening (.matched chain (conds ++ test :: tests)) before stack⟩ := by
  induction tests generalizing conds test with
  | nil => exact Reads.single (Moves.condition test true).step_eq
  | cons next tests ih =>
      have tail := ih (conds ++ [test]) next
      rw [List.append_assoc] at tail
      exact Reads.cons (Moves.condition test false).step_eq tail

/-- The tests of a condition lead to its block from its first line on. -/
theorem reads_condition_of_moves {head : Text} {more : List Text} {c : Char} {tests : List Cond}
    (spelled : Cond.lines (.peek c :: tests) = head :: more)
    (start : ∀ last, head = Cond.line (.peek c) last →
      Moves p line ⟨cases, .tested chain [.peek c] before stack last⟩) :
    Reads p (line :: more) ⟨cases, .opening (.matched chain (.peek c :: tests)) before stack⟩ := by
  obtain ⟨rfl, rfl⟩ := List.cons.inj spelled
  apply Reads.cons (start _ rfl).step_eq
  cases tests with
  | nil => exact Reads.nil _
  | cons test tests => exact reads_lines [.peek c] test tests

/-- What reading the lines of a phrase does. -/
def Phrase.LeadsOn : Phrase → List Text → Prop
  | .statements code, lines => ∀ cases before stack,
      ∃ q, Holds cases (before ++ code) stack q ∧ Reads ⟨cases, .body before stack⟩ lines q
  | .afterBlock otherwise next, lines => ∀ cases chain before stack,
      ∃ q, Holds cases (before ++ (chain.code otherwise ++ next)) stack q ∧
        Reads ⟨cases, .closed chain before stack⟩ lines q

/-- The line that closes the innermost list is read as that. -/
theorem Holds.step_terminator (holds : Holds cases code stack p) :
    Switch.step p stack.terminator = .ok (stack.close cases code) := by
  have notElse : stack.terminator ≠ "else".toList := by
    cases stack <;> exact nofun
  have notElseIf : "else if (".toList.isPrefixOf stack.terminator = false := by
    cases stack <;> rfl
  rw [holds.step notElse notElseIf]
  exact readBody_terminator

/-- Reading goes through a block and on with what follows it. -/
theorem reads_block {owner : Owner} {inner : List Text}
    (within : (Phrase.statements code).LeadsOn inner)
    (opens : Moves p ['{'] ⟨cases, .body .done (.push owner before stack)⟩)
    (after : Reads ((Stack.push owner before stack).close cases code) lines q) :
    Reads p (['{'] :: (inner ++ ['}'] :: lines)) q := by
  obtain ⟨r, holds, reads⟩ := within cases .done (.push owner before stack)
  have closes := holds.step_terminator
  exact Reads.cons opens.step_eq (reads.append (Reads.cons closes after))

theorem Spells.leadsOn {phrase : Phrase} (spells : Spells lines phrase) : phrase.LeadsOn lines := by
  induction spells with
  | done =>
      intro cases before stack
      refine ⟨_, ?_, Reads.nil _⟩
      rw [Code.append_done]
      exact Holds.body
  | advance rest ih =>
      intro cases before stack
      obtain ⟨q, holds, reads⟩ := ih cases (before ++ .advance .done) stack
      rw [Code.append_assoc] at holds
      exact ⟨q, holds, Reads.cons (Moves.statement .advance).step_eq reads⟩
  | @assign line token next lines assigns rest ih =>
      intro cases before stack
      obtain ⟨q, holds, reads⟩ := ih cases (before ++ .assign token .done) stack
      rw [Code.append_assoc] at holds
      exact ⟨q, holds, Reads.cons (Moves.statement (.assign assigns)).step_eq reads⟩
  | @block body next inner lines within rest ihWithin ih =>
      intro cases before stack
      obtain ⟨q, holds, reads⟩ := ih cases (before ++ .block body .done) stack
      rw [Code.append_assoc] at holds
      exact ⟨q, holds, reads_block ihWithin (.statement .block) reads⟩
  | @branch c tests matched otherwise next inner lines within rest ihWithin ih =>
      intro cases before stack
      obtain ⟨q, holds, reads⟩ := ih cases [(.peek c :: tests, matched)] before stack
      have condition : Reads ⟨cases, .body before stack⟩ (Cond.lines (.peek c :: tests))
          ⟨cases, .opening (.matched [] (.peek c :: tests)) before stack⟩ := by
        refine reads_condition_of_moves rfl fun last head => ?_
        rw [head]
        exact .statement (.branch c last)
      exact ⟨q, holds, condition.append (reads_block ihWithin .opening reads)⟩
  | noElse first rest ih =>
      intro cases chain before stack
      obtain ⟨q, holds, reads⟩ := ih cases (before ++ chain.code .done) stack
      rw [Code.append_assoc] at holds
      exact reads_closed_of_reads_body first holds reads
  | @elseBlock otherwise next inner lines within rest ihWithin ih =>
      intro cases chain before stack
      obtain ⟨q, holds, reads⟩ := ih cases (before ++ chain.code otherwise) stack
      rw [Code.append_assoc] at holds
      have block : Reads ⟨cases, .opening (.otherwise chain) before stack⟩
          (['{'] :: (inner ++ ['}'] :: lines)) q := reads_block ihWithin .opening reads
      exact ⟨q, holds, Reads.cons Moves.elseBlock.step_eq block⟩
  | @elseIf c tests matched otherwise next head more inner lines spelled within rest ihWithin ih =>
      intro cases chain before stack
      obtain ⟨q, holds, reads⟩ := ih cases ((.peek c :: tests, matched) :: chain) before stack
      have condition : Reads ⟨cases, .closed chain before stack⟩ (("else ".toList ++ head) :: more)
          ⟨cases, .opening (.matched chain (.peek c :: tests)) before stack⟩ := by
        refine reads_condition_of_moves spelled fun last head => ?_
        rw [head]
        exact .elseIf c last
      exact ⟨q, holds, condition.append (reads_block ihWithin .opening reads)⟩

theorem SpellsSwitch.reads (spells : SpellsSwitch lines w) (cases : Switch) :
    Reads ⟨cases, .label⟩ lines ⟨cases ++ w, .label⟩ := by
  induction spells generalizing cases with
  | nil =>
      rw [List.append_nil]
      exact Reads.nil _
  | @case label more code inner lines w within rest ih =>
      obtain ⟨q, holds, reads⟩ := within.leadsOn cases .done (.case label)
      have tail := ih (cases ++ [⟨label, code⟩])
      rw [List.append_assoc] at tail
      exact Reads.cons Moves.label.step_eq (reads.append (Reads.cons holds.step_terminator tail))

/-! ## Lines that are read are spelled -/

/-- The lines end the lists of a stack, whose innermost list is complete with `code`, and spell the
cases after them, so that the cases of `w` are read in all: first comes the line that closes the
innermost list, then the rest of the list below it, and so on. -/
inductive Ends : Stack → Switch → Code → List Text → Switch → Prop
  | case {label : Char} {cases w : Switch} {code : Code} {lines : List Text}
      (spells : SpellsSwitch lines w) :
      Ends (.case label) cases code ("break;".toList :: lines) (cases ++ ⟨label, code⟩ :: w)
  | block {before below cases code next inner lines w} (spells : Spells inner (.statements next))
      (ends : Ends below cases (before ++ .block code next) lines w) :
      Ends (.push .block before below) cases code (['}'] :: (inner ++ lines)) w
  | matched {chain conds before below cases code otherwise next inner lines w}
      (spells : Spells inner (.afterBlock otherwise next))
      (ends : Ends below cases
        (before ++ (Chain.code ((conds, code) :: chain) otherwise ++ next)) lines w) :
      Ends (.push (.matched chain conds) before below) cases code (['}'] :: (inner ++ lines)) w
  | otherwise {chain before below cases code next inner lines w}
      (spells : Spells inner (.statements next))
      (ends : Ends below cases (before ++ (Chain.code chain code ++ next)) lines w) :
      Ends (.push (.otherwise chain) before below) cases code (['}'] :: (inner ++ lines)) w

/-- The lines complete what has been read to the switch: they go on with the phrase that is being
read, and then end the lists on the stack. -/
def Completes (p : Progress) (lines : List Text) (w : Switch) : Prop :=
  match p.state with
  | .label => ∃ v, SpellsSwitch lines v ∧ w = p.cases ++ v
  | .body code stack => ∃ next inner rest, lines = inner ++ rest ∧
      Spells inner (.statements next) ∧ Ends stack p.cases (code ++ next) rest w
  | .closed chain before stack => ∃ otherwise next inner rest, lines = inner ++ rest ∧
      Spells inner (.afterBlock otherwise next) ∧
      Ends stack p.cases (before ++ (chain.code otherwise ++ next)) rest w
  | .condition chain conds before stack => ∃ test tests code inner rest,
      lines = Cond.lines (test :: tests) ++ ['{'] :: (inner ++ rest) ∧
      Spells inner (.statements code) ∧
      Ends (.push (.matched chain (conds ++ test :: tests)) before stack) p.cases code rest w
  | .opening owner before stack => ∃ code inner rest, lines = ['{'] :: (inner ++ rest) ∧
      Spells inner (.statements code) ∧ Ends (.push owner before stack) p.cases code rest w

theorem completes_of_finish (h : finish p = .ok w) : Completes p [] w := by
  obtain ⟨cases, state⟩ := p
  cases state with
  | label =>
      cases h
      exact ⟨[], .nil, (List.append_nil _).symm⟩
  | body | closed | condition | opening => cases h

theorem Completes.close (h : Completes (stack.close cases code) lines w) :
    Completes ⟨cases, .body code stack⟩ (stack.terminator :: lines) w := by
  refine ⟨.done, [], _, rfl, .done, ?_⟩
  rw [Code.append_done]
  match stack, h with
  | .case label, ⟨v, spells, split⟩ =>
      have whole : w = cases ++ ⟨label, code⟩ :: v := split.trans (List.append_assoc ..)
      rw [whole]
      exact .case spells
  | .push .block before below, ⟨next, inner, rest, split, spells, ends⟩ =>
      rw [Code.append_assoc] at ends
      rw [split]
      exact .block spells ends
  | .push (.matched chain conds) before below,
      ⟨otherwise, next, inner, rest, split, spells, ends⟩ =>
      rw [split]
      exact .matched spells ends
  | .push (.otherwise chain) before below, ⟨next, inner, rest, split, spells, ends⟩ =>
      rw [Code.append_assoc] at ends
      rw [split]
      exact .otherwise spells ends

/-- After a test come the tests that are left and the block of the condition. -/
theorem Completes.exists_tests {last : Bool}
    (h : Completes ⟨cases, .tested chain conds before stack last⟩ lines w) :
    ∃ tests code inner rest, last = tests.isEmpty ∧
      lines = Cond.lines tests ++ ['{'] :: (inner ++ rest) ∧ Spells inner (.statements code) ∧
      Ends (.push (.matched chain (conds ++ tests)) before stack) cases code rest w := by
  cases last with
  | true =>
      obtain ⟨code, inner, rest, split, spells, ends⟩ := h
      refine ⟨[], code, inner, rest, rfl, split, spells, ?_⟩
      rw [List.append_nil]
      exact ends
  | false =>
      obtain ⟨test, tests, code, inner, rest, split, spells, ends⟩ := h
      exact ⟨test :: tests, code, inner, rest, rfl, split, spells, ends⟩

/-- After the first test of a branch comes the rest of the branch. -/
theorem Completes.exists_branch {c : Char} {last : Bool}
    (h : Completes ⟨cases, .tested chain [.peek c] before stack last⟩ lines w) :
    ∃ tests matched otherwise next inner after rest, last = tests.isEmpty ∧
      lines = Cond.lines tests ++ ['{'] :: (inner ++ ['}'] :: after) ++ rest ∧
      Spells inner (.statements matched) ∧ Spells after (.afterBlock otherwise next) ∧
      Ends stack cases (before ++
        (chain.code (.branch (.peek c :: tests) matched otherwise .done) ++ next)) rest w := by
  obtain ⟨tests, matched, inner, _, isLast, split, spells, ends⟩ := h.exists_tests
  cases ends with
  | @matched _ _ _ _ _ _ otherwise next after rest _ spellsAfter ends =>
      refine ⟨tests, matched, otherwise, next, inner, after, rest, isLast, ?_, spells,
        spellsAfter, ends⟩
      rw [split]
      simp only [List.cons_append, List.append_assoc]

theorem Completes.statement {s : State} (starts : Starts code stack line s)
    (h : Completes ⟨cases, s⟩ lines w) : Completes ⟨cases, .body code stack⟩ (line :: lines) w := by
  cases starts with
  | advance =>
      obtain ⟨next, inner, rest, rfl, spells, ends⟩ := h
      rw [Code.append_assoc] at ends
      exact ⟨.advance next, _, rest, rfl, .advance spells, ends⟩
  | block =>
      -- The list on top of the stack is the block, so its end gives the statements after it.
      obtain ⟨body, inner, rest, rfl, spells, ends⟩ := h
      cases ends with
      | @block _ _ _ _ next after rest _ spellsNext ends =>
          refine ⟨.block body next, ['{'] :: (inner ++ ['}'] :: after), rest, ?_,
            .block spells spellsNext, ends⟩
          simp only [List.cons_append, List.append_assoc]
  | branch c last =>
      obtain ⟨tests, matched, otherwise, next, inner, after, rest, rfl, rfl, spells, spellsAfter,
        ends⟩ := h.exists_branch
      exact ⟨.branch (.peek c :: tests) matched otherwise next, _, rest, rfl,
        .branch spells spellsAfter, ends⟩
  | assign assigns =>
      obtain ⟨next, inner, rest, rfl, spells, ends⟩ := h
      rw [Code.append_assoc] at ends
      exact ⟨.assign _ next, _, rest, rfl, .assign assigns spells, ends⟩

/-- If lines complete the progress after a line, they do so with that line before it. -/
theorem Completes.of_moves (move : Moves p line q) (h : Completes q lines w) :
    Completes p (line :: lines) w := by
  induction move with
  | @label cases c more =>
      obtain ⟨code, inner, rest, rfl, spells, ends⟩ := h
      cases ends with
      | case spellsSwitch => exact ⟨⟨c, code⟩ :: _, .case spells spellsSwitch, rfl⟩
  | close => exact h.close
  | statement starts => exact h.statement starts
  | elseBlock =>
      obtain ⟨otherwise, inner, rest, rfl, spells, ends⟩ := h
      cases ends with
      | @otherwise _ _ _ _ _ next after rest _ spellsNext ends =>
          refine ⟨otherwise, next, "else".toList :: ['{'] :: (inner ++ ['}'] :: after), rest, ?_,
            .elseBlock spells spellsNext, ends⟩
          simp only [List.cons_append, List.append_assoc]
  | elseIf c last =>
      obtain ⟨tests, matched, otherwise, next, inner, after, rest, rfl, rfl, spells, spellsAfter,
        ends⟩ := h.exists_branch
      exact ⟨.branch (.peek c :: tests) matched otherwise .done, next, _, rest, rfl,
        .elseIf rfl spells spellsAfter, ends⟩
  | @leave cases chain before stack line q notElseIf _ ih =>
      -- The line is the first of the statements after the branch, or it closes their list.
      obtain ⟨next, inner, rest, split, spells, ends⟩ := ih h
      rw [Code.append_assoc] at ends
      refine ⟨.done, next, inner, rest, split, .noElse ?_ spells, ends⟩
      cases inner with
      | nil => exact nofun
      | cons first inner =>
          rintro _ ⟨⟩
          rwa [← (List.cons.inj split).1]
  | condition test last =>
      obtain ⟨tests, code, inner, rest, rfl, rfl, spells, ends⟩ := h.exists_tests
      rw [List.append_assoc] at ends
      exact ⟨test, tests, code, inner, rest, rfl, spells, ends⟩
  | opening =>
      obtain ⟨code, inner, rest, rfl, spells, ends⟩ := h
      exact ⟨code, inner, rest, rfl, spells, ends⟩

/-- Lines that are read to the end complete what has been read before them. -/
theorem completes_of_reads (reads : Reads p lines q) (last : finish q = .ok w) :
    Completes p lines w := by
  induction reads with
  | nil => exact completes_of_finish last
  | cons h tail ih => exact (ih last).of_moves (step_eq_ok_iff.mp h)

/-! ## Reading -/

/-- Reading succeeds exactly on the lines that spell a switch, with that switch. -/
theorem readFrom_eq_ok_iff_spells {n : Nat} :
    readFrom n ⟨[], .label⟩ lines = .ok w ↔ SpellsSwitch lines w := by
  rw [readFrom_eq_ok_iff]
  constructor
  · rintro ⟨q, reads, last⟩
    obtain ⟨v, spells, rfl⟩ := completes_of_reads reads last
    exact spells
  · intro spells
    exact ⟨⟨w, .label⟩, spells.reads [], rfl⟩

/-- Lines spell at most one switch. -/
theorem SpellsSwitch.unique {v : Switch} (first : SpellsSwitch lines w)
    (second : SpellsSwitch lines v) : w = v := by
  have h : Except.ok w = Except.ok v :=
    (readFrom_eq_ok_iff_spells (n := 1).mpr first).symm.trans (readFrom_eq_ok_iff_spells.mpr second)
  exact Except.ok.inj h

/-- A rejection names a line, or the one after the last. -/
theorem le_line_of_readFrom {n : Nat} {r : Rejection} (h : readFrom n p lines = .error r) :
    n ≤ r.line ∧ r.line ≤ n + lines.length := by
  obtain ⟨first, rest, q, rfl, -, -, count⟩ := exists_stuck_of_readFrom h
  rw [count, List.length_append]
  omega

theorem reads_of_parse (h : parse lines = .ok w) :
    Reads ⟨[], .label⟩ (keptLines lines) ⟨w, .label⟩ := by
  obtain ⟨⟨cases, state⟩, reads, last⟩ := parse_eq_ok_iff.mp h
  cases state with
  | label =>
      cases last
      exact reads
  | body | closed | condition | opening => cases last

/-- Reading accepts exactly the lines whose kept lines spell a switch, and it yields the only switch
that they spell, having read all of them. Otherwise it ends at one of the kept lines or after the
last. -/
theorem parse_accepts_spelled (lines : List Text) :
    (∀ w, parse lines = .ok w ↔ SpellsSwitch (keptLines lines) w) ∧
      (∀ w v, SpellsSwitch (keptLines lines) w → SpellsSwitch (keptLines lines) v → w = v) ∧
      (∀ w, parse lines = .ok w → Reads ⟨[], .label⟩ (keptLines lines) ⟨w, .label⟩) ∧
      ((∃ w, parse lines = .ok w) ∨
        ∃ r, parse lines = .error r ∧ 1 ≤ r.line ∧ r.line ≤ (keptLines lines).length + 1) := by
  refine ⟨fun w => readFrom_eq_ok_iff_spells, fun w v => SpellsSwitch.unique,
    fun w => reads_of_parse, ?_⟩
  cases h : parse lines with
  | ok w => exact .inl ⟨w, rfl⟩
  | error r =>
      obtain ⟨least, most⟩ := le_line_of_readFrom h
      exact .inr ⟨r, rfl, least, Nat.add_comm 1 _ ▸ most⟩

-- A line that starts with `else if (` may be an assignment, but not right after a branch.
example :
    parse ["case 'a':".toList, "else if (b) = c;".toList, "break;".toList] =
        .ok [⟨'a', .assign ['c'] .done⟩] ∧
      parse ["case 'a':".toList, "if (PeekChar() == 'a')".toList, ['{'], ['}'],
          "else if (b) = c;".toList, "break;".toList] =
        .error ⟨5, "if (b) = c;".toList, .notCondition⟩ := by
  decide +kernel

end KeywordSwitch.Switch
