import KeywordSwitch.Proofs.Switch.KeptLines
import KeywordSwitch.Proofs.Switch.Recognition
import KeywordSwitch.Proofs.Text.Trimming

/-!
# Viable lines

Lines are viable if some lines after them make them a switch. The reader never goes
on in vain: whatever it has read can be completed, by closing what is open. So the
viable lines are those that it reads through.
-/

namespace KeywordSwitch.Switch

variable {cases : Switch} {chain : Chain} {conds : List Cond} {before code : Code} {stack : Stack}
  {line : Text} {lines : List Text} {p q : Progress} {w : Switch}

/-! ## Kept lines are kept again -/

theorem isKept_of_mem_keptLines (mem : line ∈ keptLines lines) : IsKept line := by
  obtain ⟨mem, counts⟩ := List.mem_filter.mp mem
  obtain ⟨whole, -, rfl⟩ := List.mem_map.mp mem
  obtain ⟨filled, noComment⟩ : whole.trim ≠ [] ∧ "//".toList.isPrefixOf whole.trim = false := by
    simpa using counts
  have trimmed := Text.isTrimmed_trim whole
  exact ⟨Text.trim_eq_self trimmed.first trimmed.last, filled, noComment⟩

theorem keptLines_cons (kept : IsKept line) (rest : List Text) :
    keptLines (line :: rest) = line :: keptLines rest :=
  keptLines_tabs_cons kept 0 rest

theorem keptLines_eq_self (kept : ∀ line ∈ lines, IsKept line) : keptLines lines = lines := by
  induction lines with
  | nil => rfl
  | cons line lines ih =>
      obtain ⟨first, rest⟩ := List.forall_mem_cons.mp kept
      rw [keptLines_cons first, ih rest]

/-! ## Everything read can be completed -/

/-- Some kept lines lead from the progress to the end of a switch. -/
def CanFinish (p : Progress) : Prop :=
  ∃ more w, keptLines more = more ∧ Reads p more ⟨w, .label⟩

theorem CanFinish.label (cases : Switch) : CanFinish ⟨cases, .label⟩ :=
  ⟨[], cases, rfl, Reads.nil _⟩

theorem CanFinish.of_step (h : CanFinish q) (kept : IsKept line) (read : step p line = .ok q) :
    CanFinish p := by
  obtain ⟨more, w, keptMore, reads⟩ := h
  refine ⟨line :: more, w, ?_, Reads.cons read reads⟩
  rw [keptLines_cons kept, keptMore]

theorem isKept_terminator (stack : Stack) : IsKept stack.terminator := by
  cases stack with
  | case label => exact (by decide : IsKept "break;".toList)
  | push owner before below => exact (by decide : IsKept ['}'])

/-- When a block closes, the statement that it ends stands in the list below. -/
theorem exists_holds_close (owner : Owner) (before code : Code) (below : Stack) :
    ∃ code', Holds cases code' below ((Stack.push owner before below).close cases code) :=
  match owner with
  | .block => ⟨_, .body⟩
  | .matched _ _ => ⟨_, .closed rfl⟩
  | .otherwise _ => ⟨_, .body⟩

/-- The lines that close the open lists, from the innermost on, end the case. -/
theorem Holds.canFinish (holds : Holds cases code stack p) : CanFinish p := by
  induction stack generalizing code p with
  | case label => exact (CanFinish.label _).of_step (isKept_terminator _) holds.step_terminator
  | push owner before below ih =>
      obtain ⟨code', closed⟩ := exists_holds_close owner before code below
      exact (ih closed).of_step (isKept_terminator _) holds.step_terminator

theorem canFinish_opening (cases : Switch) (owner : Owner) (before : Code) (stack : Stack) :
    CanFinish ⟨cases, .opening owner before stack⟩ := by
  have inside : CanFinish ⟨cases, .body .done (.push owner before stack)⟩ := Holds.body.canFinish
  exact inside.of_step (by decide) Moves.opening.step_eq

theorem canFinish (p : Progress) : CanFinish p := by
  obtain ⟨cases, state⟩ := p
  cases state with
  | label => exact CanFinish.label cases
  | body code stack => exact Holds.body.canFinish
  | closed chain before stack => exact (Holds.closed rfl).canFinish
  | condition chain conds before stack =>
      have kept : IsKept ((Cond.peekNext 'a').line true) := by decide
      exact (canFinish_opening ..).of_step kept (Moves.condition (.peekNext 'a') true).step_eq
  | opening owner before stack => exact canFinish_opening cases owner before stack

/-! ## Viable lines -/

/-- Some further lines make the lines a switch. -/
def Viable (lines : List Text) : Prop :=
  ∃ more w, parse (lines ++ more) = .ok w

/-- The viable lines are those that the reader reads through. -/
theorem viable_iff (kept : ∀ line ∈ lines, IsKept line) :
    Viable lines ↔ ∃ p, Reads ⟨[], .label⟩ lines p := by
  constructor
  · rintro ⟨more, w, h⟩
    have reads := reads_of_parse h
    rw [keptLines_append, keptLines_eq_self kept] at reads
    obtain ⟨p, before, -⟩ := reads.exists_of_append
    exact ⟨p, before⟩
  · rintro ⟨p, reads⟩
    obtain ⟨more, w, keptMore, after⟩ := canFinish p
    refine ⟨more, w, parse_eq_ok_iff.mpr ⟨⟨w, .label⟩, ?_, rfl⟩⟩
    rw [keptLines_append, keptLines_eq_self kept, keptMore]
    exact reads.append after

/-- The first `j` of the lines are viable, and no more of them are. -/
structure IsLongestViable (lines : List Text) (j : Nat) : Prop where
  le : j ≤ lines.length
  viable : Viable (lines.take j)
  longest : ∀ i ≤ lines.length, Viable (lines.take i) → i ≤ j

end KeywordSwitch.Switch
