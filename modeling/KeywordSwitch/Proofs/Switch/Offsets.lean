import KeywordSwitch.Proofs.Switch.Peeking
import KeywordSwitch.Proofs.Switch.Recognition

/-!
# Peek offsets left behind

A condition that fails half-way leaves a peek offset behind. The first test of a chain of
peeks clears it, and so does that of every branch that can be read from lines. Hence the
input and the position alone tell which part of a branch runs.

## Implementation notes

A branch that has been read may test the current character again in the middle of its
condition, which no matcher does. So the characters that a condition asks for are listed
with their distances from the position.
-/

namespace KeywordSwitch

namespace Cond

/-- The characters that tests ask for in turn, each with its distance from the position of the
cursor, if the peek offset is `n` before the first test. -/
def asked (n : Nat) : List Cond → List (Nat × Char)
  | [] => []
  | peek c :: conds => (0, c) :: asked 0 conds
  | peekNext c :: conds => (n + 1, c) :: asked (n + 1) conds

end Cond

namespace Cursor

/-- The tests hold exactly if each character asked for stands at its distance. -/
theorem tests_iff_asked (k : Cursor) (conds : List Cond) :
    (k.tests conds).1 = true ↔
      ∀ p ∈ Cond.asked k.peeked conds, k.charAt (k.pos + p.1) = p.2 := by
  induction conds generalizing k with
  | nil => simp [tests, Cond.asked]
  | cons cond conds ih =>
      have step : (k.tests (cond :: conds)).1 = true ↔
          k.seen cond = cond.char ∧ ((k.look cond).tests conds).1 = true := by
        rw [tests]
        split
        case isTrue same => exact (and_iff_right same).symm
        case isFalse other => exact iff_of_false Bool.false_ne_true fun h => other h.1
      rw [step, ih]
      cases cond with
      | peek c =>
          rw [Cond.asked, List.forall_mem_cons]
          rfl
      | peekNext c =>
          rw [Cond.asked, List.forall_mem_cons]
          rfl

/-- A condition that tests the current character first is made alike whatever the offset. -/
theorem tests_peek_cons (k : Cursor) (n : Nat) (c : Char) (conds : List Cond) :
    ({ k with peeked := n } : Cursor).tests (.peek c :: conds) = k.tests (.peek c :: conds) :=
  rfl

/-- A chain of peeks holds exactly if its characters stand at the cursor. It leaves the cursor where
it is, and after it has held the next advance consumes its characters and clears the offset. -/
theorem tests_path (k : Cursor) (c : Char) (path : Text) :
    ((k.tests (Cond.ofPath (c :: path))).1 = true ↔
      ∀ i (h : i < (c :: path).length), k.charAt (k.pos + i) = (c :: path)[i]) ∧
    (k.tests (Cond.ofPath (c :: path))).2.input = k.input ∧
    (k.tests (Cond.ofPath (c :: path))).2.pos = k.pos ∧
    ((k.tests (Cond.ofPath (c :: path))).1 = true →
      (k.tests (Cond.ofPath (c :: path))).2.advance =
        ⟨k.input, k.pos + (c :: path).length, 0⟩) := by
  have filled : c :: path ≠ [] := List.cons_ne_nil c path
  have holds := k.tests_ofPath filled
  obtain ⟨input, pos⟩ := k.tests_frame (Cond.ofPath (c :: path))
  refine ⟨holds, input, pos, fun held => ?_⟩
  rw [tests_ofPath_of_standsAt filled (holds.mp held)]
  rfl

end Cursor

/-- The branch statements of code and of the code nested in it, each with what follows it. -/
def Code.branches : Code → List Code
  | done => []
  | advance next => next.branches
  | assign _ next => next.branches
  | block body next => body.branches ++ next.branches
  | branch conds matched otherwise next =>
      .branch conds matched otherwise next ::
        (matched.branches ++ otherwise.branches ++ next.branches)

/-- A branch clears the offset before its condition looks at anything. -/
def Code.LooksAfresh : Code → Prop
  | branch conds _ _ _ => ∃ c tests, conds = .peek c :: tests
  | _ => False

namespace Switch

/-- The branch statements of a phrase. -/
def Phrase.branches : Phrase → List Code
  | statements code => code.branches
  | afterBlock otherwise next => otherwise.branches ++ next.branches

/-- Whatever lines spell, its branches test the current character first. -/
theorem Spells.looksAfresh {lines : List Text} {phrase : Phrase} (spells : Spells lines phrase) :
    ∀ b ∈ phrase.branches, b.LooksAfresh := by
  induction spells with
  | done => exact fun b mem => absurd mem List.not_mem_nil
  | advance _ ih => exact ih
  | assign _ _ ih => exact ih
  | block _ _ ihWithin ihRest => exact List.forall_mem_append.mpr ⟨ihWithin, ihRest⟩
  | branch _ _ ihWithin ihRest =>
      refine List.forall_mem_cons.mpr ⟨⟨_, _, rfl⟩, ?_⟩
      rw [List.append_assoc]
      exact List.forall_mem_append.mpr ⟨ihWithin, ihRest⟩
  | noElse _ _ ih => exact ih
  | elseBlock _ _ ihWithin ihRest => exact List.forall_mem_append.mpr ⟨ihWithin, ihRest⟩
  | elseIf _ _ _ ihWithin ihRest =>
      obtain ⟨ihOtherwise, ihNext⟩ := List.forall_mem_append.mp ihRest
      refine List.forall_mem_cons.mpr ⟨⟨_, _, rfl⟩, List.forall_mem_append.mpr ⟨?_, ihNext⟩⟩
      have inner := List.forall_mem_append.mpr ⟨ihWithin, ihOtherwise⟩
      exact List.forall_mem_append.mpr ⟨inner, fun b mem => absurd mem List.not_mem_nil⟩

theorem SpellsSwitch.looksAfresh {lines : List Text} {w : Switch} (spells : SpellsSwitch lines w) :
    ∀ a ∈ w, ∀ b ∈ a.code.branches, b.LooksAfresh := by
  induction spells with
  | nil => exact fun a mem => absurd mem List.not_mem_nil
  | case within _ ih => exact List.forall_mem_cons.mpr ⟨within.looksAfresh, ih⟩

end Switch

/-- The tests of a chain of peeks hold together or leave the cursor where it is, and once they have
held the next advance consumes their characters. Which part of a branch runs, and what the branch
does, is told by the input and the position in every switch that is read from lines, whatever peek
offset earlier conditions have left. -/
theorem branches_ignore_offset :
    (∀ (k : Cursor) (c : Char) (path : Text),
      ((k.tests (Cond.ofPath (c :: path))).1 = true ↔
        ∀ i (h : i < (c :: path).length), k.charAt (k.pos + i) = (c :: path)[i]) ∧
      (k.tests (Cond.ofPath (c :: path))).2.input = k.input ∧
      (k.tests (Cond.ofPath (c :: path))).2.pos = k.pos ∧
      ((k.tests (Cond.ofPath (c :: path))).1 = true →
        (k.tests (Cond.ofPath (c :: path))).2.advance =
          ⟨k.input, k.pos + (c :: path).length, 0⟩)) ∧
    ∀ (lines : List Text) (w : Switch), Switch.parse lines = .ok w → ∀ a ∈ w,
      ∀ (conds : List Cond) (matched otherwise next : Code),
      .branch conds matched otherwise next ∈ a.code.branches → ∀ k : Cursor,
        ((k.tests conds).1 = true ↔
          ∀ p ∈ Cond.asked 0 conds, k.charAt (k.pos + p.1) = p.2) ∧
        ∀ n, (Code.branch conds matched otherwise next).exec { k with peeked := n } =
          (Code.branch conds matched otherwise next).exec k := by
  refine ⟨Cursor.tests_path, ?_⟩
  intro lines w read a inSwitch conds matched otherwise next mem k
  have spells : Switch.SpellsSwitch (Switch.keptLines lines) w :=
    Switch.readFrom_eq_ok_iff_spells.mp read
  obtain ⟨c, tests, rfl⟩ := spells.looksAfresh a inSwitch _ mem
  refine ⟨k.tests_iff_asked _, fun n => ?_⟩
  rw [Code.exec, Cursor.tests_peek_cons, Code.exec]

/-- The lines of a case with two conditions in turn. -/
def twoConditions : List Text :=
  ["case 'a':".toList, "if (PeekChar() == 'a'".toList, "&& PeekNextChar() == 'b')".toList, ['{'],
    ['}'], "if (PeekChar() == 'a')".toList, ['{'], "kind = A;".toList, ['}'], "break;".toList]

/-- The second of the two conditions with its block. -/
def secondCondition : Code :=
  .branch [.peek 'a'] (.assign ['A'] .done) .done .done

/-- Before "ax" the first condition fails half-way with an offset of one, and the second holds. -/
theorem secondCondition_ignores_offset :
    Switch.parse twoConditions =
      .ok [⟨'a', .branch [.peek 'a', .peekNext 'b'] .done .done secondCondition⟩] ∧
    secondCondition ∈
      (Code.branch [.peek 'a', .peekNext 'b'] .done .done secondCondition).branches ∧
    (Cursor.start "ax".toList).tests [.peek 'a', .peekNext 'b'] = (false, ⟨"ax".toList, 0, 1⟩) ∧
    (((⟨"ax".toList, 0, 1⟩ : Cursor).tests [.peek 'a']).1 = true ↔
      ∀ p ∈ Cond.asked 0 [.peek 'a'], (⟨"ax".toList, 0, 1⟩ : Cursor).charAt (0 + p.1) = p.2) ∧
    ∀ n, secondCondition.exec ⟨"ax".toList, 0, n⟩ = secondCondition.exec ⟨"ax".toList, 0, 1⟩ := by
  have read : Switch.parse twoConditions =
      .ok [⟨'a', .branch [.peek 'a', .peekNext 'b'] .done .done secondCondition⟩] := by
    decide +kernel
  have mem : secondCondition ∈
      (Code.branch [.peek 'a', .peekNext 'b'] .done .done secondCondition).branches := by
    decide
  obtain ⟨condition, run⟩ := branches_ignore_offset.2 twoConditions _ read _
    (List.mem_singleton_self _) _ _ _ _ mem ⟨"ax".toList, 0, 1⟩
  exact ⟨read, mem, by decide, condition, run⟩

end KeywordSwitch
