import KeywordSwitch.Switch.Run

/-!
# Peeking at a path

The tests for a path hold exactly if its characters stand ahead of the cursor. They
never move the cursor, and if they hold, the next advance consumes the path. An
offset left by earlier tests does not matter, since the first test clears it.
-/

namespace KeywordSwitch

/-- The bytes of an input as a switch sees them. -/
def Text.bytes (input : Text) : Text :=
  ofLatin1 (utf8 input)

/-- The characters of the text stand in the input from `pos` on. Past the end of the input stands
NUL. -/
def Text.StandsAt (w input : Text) (pos : Nat) : Prop :=
  ∀ i (h : i < w.length), input.getD (pos + i) '\x00' = w[i]

namespace Text

instance (w input : Text) (pos : Nat) : Decidable (w.StandsAt input pos) :=
  inferInstanceAs (Decidable (∀ i (h : i < w.length), input.getD (pos + i) '\x00' = w[i]))

@[simp] theorem standsAt_nil (input : Text) (pos : Nat) : StandsAt [] input pos := by
  intro i h
  simp at h

@[simp] theorem standsAt_cons {c : Char} {w input : Text} {pos : Nat} :
    StandsAt (c :: w) input pos ↔ input.getD pos '\x00' = c ∧ w.StandsAt input (pos + 1) := by
  constructor
  · intro stands
    refine ⟨stands 0 (by simp), fun i h => ?_⟩
    have later := stands (i + 1) (by simpa using h)
    rw [List.getElem_cons_succ] at later
    rw [← later, Nat.add_assoc, Nat.add_comm 1 i]
  · rintro ⟨first, later⟩ i h
    cases i with
    | zero => exact first
    | succ i =>
        rw [List.getElem_cons_succ, ← later i (by simpa using h), Nat.add_assoc, Nat.add_comm 1 i]

/-- Of two texts that stand at one place the shorter one begins the longer one. -/
theorem prefix_of_standsAt {v w input : Text} {pos : Nat} (hv : v.StandsAt input pos)
    (hw : w.StandsAt input pos) (length : v.length ≤ w.length) : v <+: w := by
  induction v generalizing w pos with
  | nil => exact List.nil_prefix
  | cons c v ih =>
      cases w with
      | nil => simp at length
      | cons d w =>
          rw [standsAt_cons] at hv hw
          rw [List.cons_prefix_cons]
          refine ⟨hv.1.symm.trans hw.1, ih hv.2 hw.2 ?_⟩
          simpa using length

end Text

namespace Cursor

/-- Tests neither change the input nor move the cursor. -/
theorem tests_frame (k : Cursor) (conds : List Cond) :
    (k.tests conds).2.input = k.input ∧ (k.tests conds).2.pos = k.pos := by
  induction conds generalizing k with
  | nil => exact ⟨rfl, rfl⟩
  | cons cond conds ih =>
      have looked : (k.look cond).input = k.input ∧ (k.look cond).pos = k.pos := by
        cases cond <;> exact ⟨rfl, rfl⟩
      rw [tests]
      split
      · exact ⟨(ih _).1.trans looked.1, (ih _).2.trans looked.2⟩
      · exact looked

theorem tests_map_peekNext (k : Cursor) (path : Text) :
    (k.tests (path.map .peekNext)).1 = true ↔
      path.StandsAt k.input (k.pos + (k.peeked + 1)) := by
  induction path generalizing k with
  | nil => simp [tests]
  | cons c path ih =>
      rw [List.map_cons, tests, Text.standsAt_cons]
      have seen : k.seen (.peekNext c) = k.input.getD (k.pos + (k.peeked + 1)) '\x00' := rfl
      rw [seen, Cond.char]
      split
      case isTrue same => exact (ih (k.look (.peekNext c))).trans (and_iff_right same).symm
      case isFalse different => exact iff_of_false Bool.false_ne_true fun h => different h.1

theorem peeked_tests_map_peekNext (k : Cursor) (path : Text)
    (h : (k.tests (path.map .peekNext)).1 = true) :
    (k.tests (path.map .peekNext)).2.peeked = k.peeked + path.length := by
  induction path generalizing k with
  | nil => rfl
  | cons c path ih =>
      rw [List.map_cons, tests] at h ⊢
      split at h
      case isTrue same =>
        rw [if_pos same, ih _ h, List.length_cons, Nat.add_comm path.length 1, ← Nat.add_assoc]
        rfl
      case isFalse => simp at h

/-- The tests for a path hold exactly if the path stands at the cursor. -/
theorem tests_ofPath (k : Cursor) {path : Text} (hPath : path ≠ []) :
    (k.tests (Cond.ofPath path)).1 = true ↔ path.StandsAt k.input k.pos := by
  obtain ⟨c, path, rfl⟩ := List.exists_cons_of_ne_nil hPath
  rw [Cond.ofPath, tests, Text.standsAt_cons]
  have seen : k.seen (.peek c) = k.input.getD k.pos '\x00' := rfl
  rw [seen, Cond.char]
  split
  case isTrue same =>
    exact (tests_map_peekNext (k.look (.peek c)) path).trans (and_iff_right same).symm
  case isFalse different => exact iff_of_false Bool.false_ne_true fun h => different h.1

/-- After the tests for a path have held, its last character is the last one peeked. -/
theorem tests_ofPath_of_standsAt {k : Cursor} {path : Text} (hPath : path ≠ [])
    (stands : path.StandsAt k.input k.pos) :
    k.tests (Cond.ofPath path) = (true, ⟨k.input, k.pos, path.length - 1⟩) := by
  have held := (tests_ofPath k hPath).mpr stands
  have frame := tests_frame k (Cond.ofPath path)
  have peeked : (k.tests (Cond.ofPath path)).2.peeked = path.length - 1 := by
    obtain ⟨c, path, rfl⟩ := List.exists_cons_of_ne_nil hPath
    rw [Cond.ofPath, tests] at held ⊢
    split at held
    case isTrue same =>
      rw [if_pos same, peeked_tests_map_peekNext _ _ held]
      simp [look]
    case isFalse => simp at held
  apply Prod.ext held
  rw [Cursor.mk.injEq]
  exact ⟨frame.1, frame.2, peeked⟩

end Cursor

end KeywordSwitch
