import KeywordSwitch.Switch.Parser

/-!
# Runs of the reader

A run takes the reader through kept lines, one step a line. A list of lines is a
switch exactly if some run through its kept lines ends where reading may end.
-/

namespace KeywordSwitch.Switch

/-- Reading the lines in turn leads from the first progress to the second. -/
inductive Reads : Progress → List Text → Progress → Prop
  | nil (p : Progress) : Reads p [] p
  | cons {p q r : Progress} {line : Text} {lines : List Text} (h : step p line = .ok q)
      (tail : Reads q lines r) : Reads p (line :: lines) r

theorem Reads.single {p q : Progress} {line : Text} (h : step p line = .ok q) :
    Reads p [line] q :=
  Reads.cons h (Reads.nil q)

theorem Reads.append {p q r : Progress} {first second : List Text} (before : Reads p first q)
    (after : Reads q second r) : Reads p (first ++ second) r := by
  induction before with
  | nil => exact after
  | cons h _ ih => exact Reads.cons h (ih after)

theorem Reads.exists_of_append {p r : Progress} {first second : List Text}
    (reads : Reads p (first ++ second) r) : ∃ q, Reads p first q ∧ Reads q second r := by
  induction first generalizing p with
  | nil => exact ⟨p, Reads.nil p, reads⟩
  | cons line first ih =>
      cases reads with
      | cons h tail =>
          obtain ⟨q, before, after⟩ := ih tail
          exact ⟨q, Reads.cons h before, after⟩

/-- The lines determine where reading leads. -/
theorem Reads.deterministic {p q r : Progress} {lines : List Text} (first : Reads p lines q)
    (second : Reads p lines r) : q = r := by
  induction first with
  | nil =>
      cases second
      rfl
  | cons h _ ih =>
      cases second with
      | cons h' tail =>
          obtain rfl := Except.ok.inj (h.symm.trans h')
          exact ih tail

/-- Reading succeeds exactly if a run reaches a progress at which the lines may end. -/
theorem readFrom_eq_ok_iff {n : Nat} {p : Progress} {lines : List Text} {w : Switch} :
    readFrom n p lines = .ok w ↔ ∃ q, Reads p lines q ∧ finish q = .ok w := by
  induction lines generalizing n p with
  | nil =>
      rw [readFrom]
      constructor
      · intro h
        refine ⟨p, Reads.nil p, ?_⟩
        cases hp : finish p with
        | error e =>
            rw [hp] at h
            cases h
        | ok v =>
            rw [hp] at h
            exact congrArg Except.ok (Except.ok.inj h)
      · rintro ⟨q, reads, h⟩
        cases reads
        rw [h]
        rfl
  | cons line lines ih =>
      rw [readFrom]
      constructor
      · intro h
        cases hp : step p line with
        | error e => simp [hp] at h
        | ok q =>
            obtain ⟨r, reads, last⟩ := ih.mp (by simpa [hp] using h)
            exact ⟨r, Reads.cons hp reads, last⟩
      · rintro ⟨r, reads, last⟩
        cases reads with
        | cons hp tail =>
            rw [hp]
            exact ih.mpr ⟨r, tail, last⟩

theorem parse_eq_ok_iff {lines : List Text} {w : Switch} :
    parse lines = .ok w ↔ ∃ q, Reads ⟨[], .label⟩ (keptLines lines) q ∧ finish q = .ok w :=
  readFrom_eq_ok_iff

/-- Reading fails in front of the lines. -/
inductive Stuck (p : Progress) : List Text → Text × Fault → Prop
  | line {line : Text} {rest : List Text} {e : Text × Fault} (h : step p line = .error e) :
      Stuck p (line :: rest) e
  | last {e : Text × Fault} (h : finish p = .error e) : Stuck p [] e

/-- A rejection counts the lines that were read before reading failed. -/
theorem exists_stuck_of_readFrom {n : Nat} {p : Progress} {lines : List Text} {r : Rejection}
    (h : readFrom n p lines = .error r) : ∃ first rest q, lines = first ++ rest ∧
      Reads p first q ∧ Stuck q rest (r.found, r.fault) ∧ r.line = n + first.length := by
  induction lines generalizing n p with
  | nil =>
      rw [readFrom] at h
      cases last : finish p with
      | ok w =>
          rw [last] at h
          cases h
      | error e =>
          rw [last] at h
          cases h
          exact ⟨[], [], p, rfl, Reads.nil p, .last last, rfl⟩
  | cons line lines ih =>
      rw [readFrom] at h
      cases read : step p line with
      | error e =>
          rw [read] at h
          cases h
          exact ⟨[], line :: lines, p, rfl, Reads.nil p, .line read, rfl⟩
      | ok q =>
          rw [read] at h
          obtain ⟨first, rest, r', rfl, reads, stuck, count⟩ := ih h
          refine ⟨line :: first, rest, r', rfl, Reads.cons read reads, stuck, ?_⟩
          rw [count, List.length_cons]
          omega

/-- The open statement list holds `code`, and a statement or the closing line may follow. The last
statement of `code` may be a chain that an `else` would continue. -/
inductive Holds (cases : Switch) (code : Code) (stack : Stack) : Progress → Prop
  | body : Holds cases code stack ⟨cases, .body code stack⟩
  | closed {chain : Chain} {before : Code} (h : before ++ chain.code .done = code) :
      Holds cases code stack ⟨cases, .closed chain before stack⟩

/-- A line that is no `else` is read alike whether a chain has just been closed or not. -/
theorem Holds.step {cases : Switch} {code : Code} {stack : Stack} {p : Progress}
    (holds : Holds cases code stack p) {line : Text} (notElse : line ≠ "else".toList)
    (notElseIf : "else if (".toList.isPrefixOf line = false) :
    Switch.step p line = readBody cases code stack line := by
  cases holds with
  | body => rfl
  | closed h =>
      subst h
      rw [Switch.step]
      dsimp only
      rw [if_neg notElse, notElseIf]
      rfl

end KeywordSwitch.Switch
