import KeywordSwitch.Switch.Parser
import KeywordSwitch.Switch.Printer

/-!
# Kept lines of written code

Every line of written code is indented with tabs. Reading drops the tabs and keeps
the rest, provided that the rest begins and ends with characters that are not blank
and does not look like a comment.
-/

namespace KeywordSwitch

theorem isTab_of_mem_tabs {d : Nat} : ∀ c ∈ tabs d, decide (c = '\t') = true := by
  intro c mem
  exact decide_eq_true (List.eq_of_mem_replicate mem)

namespace Text

theorem trim_tabs_append (d : Nat) (t : Text) : trim (tabs d ++ t) = trim t := by
  have skipped : trimLeft (tabs d ++ t) = trimLeft t := by
    induction d with
    | zero => rfl
    | succ d ih =>
        rw [tabs, List.replicate_succ, List.cons_append, trimLeft,
          List.dropWhile_cons_of_pos (by decide)]
        exact ih
  rw [trim, skipped, trim]

/-- A text whose first and last characters are not blank has nothing to trim. -/
theorem trim_eq_self {t : Text} (hFirst : ∀ c ∈ t.head?, isBlank c = false)
    (hLast : ∀ c ∈ t.getLast?, isBlank c = false) : trim t = t := by
  have left : trimLeft t = t := by
    cases t with
    | nil => rfl
    | cons c t =>
        have hc : isBlank c = false := hFirst c rfl
        rw [trimLeft, List.dropWhile_cons_of_neg (by simp [hc])]
  rw [trim, left, dropEndWhile]
  rw [← List.head?_reverse] at hLast
  cases h : t.reverse with
  | nil => simpa using h.symm
  | cons c u =>
      have hc : isBlank c = false := hLast c (by rw [h]; rfl)
      rw [List.dropWhile_cons_of_neg (by simp [hc]), ← h, List.reverse_reverse]

/-- Trimming leaves the two slashes of a comment in place. -/
theorem isPrefixOf_trim {t : Text} (h : "//".toList.isPrefixOf t = true) :
    "//".toList.isPrefixOf t.trim = true := by
  obtain ⟨t, rfl⟩ := List.isPrefixOf_iff_prefix.mp h
  have left : trimLeft ("//".toList ++ t) = "//".toList ++ t := by
    rw [trimLeft]
    exact List.dropWhile_cons_of_neg (by decide)
  have slashes : "//".toList.reverse.dropWhile isBlank = "//".toList.reverse := by decide
  rw [List.isPrefixOf_iff_prefix, trim, left, dropEndWhile, List.reverse_append,
    List.dropWhile_append, slashes]
  split
  · simp only [List.reverse_reverse, List.prefix_rfl]
  · rw [List.reverse_append, List.reverse_reverse]
    exact List.prefix_append _ _

end Text

namespace Switch

/-- The line is kept as it is: it has nothing to trim, and is neither empty nor a comment. -/
def IsKept (line : Text) : Prop :=
  line.trim = line ∧ line ≠ [] ∧ "//".toList.isPrefixOf line = false

instance (line : Text) : Decidable (IsKept line) :=
  inferInstanceAs (Decidable (_ ∧ _ ∧ _))

@[simp] theorem keptLines_nil : keptLines [] = [] := rfl

theorem keptLines_append (first second : List Text) :
    keptLines (first ++ second) = keptLines first ++ keptLines second := by
  simp [keptLines]

/-- Indentation does not count. -/
theorem keptLines_tabs_cons {line : Text} (kept : IsKept line) (d : Nat) (rest : List Text) :
    keptLines ((tabs d ++ line) :: rest) = line :: keptLines rest := by
  obtain ⟨trimmed, filled, noComment⟩ := kept
  rw [keptLines, List.map_cons, Text.trim_tabs_append, trimmed,
    List.filter_cons_of_pos (by rw [noComment]; simp [filled]), keptLines]

/-- Blank lines and comments do not count. -/
theorem keptLines_eq_nil {lines : List Text}
    (h : ∀ line ∈ lines, line.trim = [] ∨ "//".toList.isPrefixOf line.trim = true) :
    keptLines lines = [] := by
  rw [keptLines, List.filter_eq_nil_iff]
  intro line mem
  obtain ⟨whole, hWhole, rfl⟩ := List.mem_map.mp mem
  rcases h whole hWhole with blank | comment
  · simp [blank]
  · rw [comment]
    simp

/-- The lines of a block are its braces and what it holds. -/
theorem keptLines_braced (d : Nat) (body : List Text) :
    keptLines (braced d body) = ['{'] :: (keptLines body ++ [['}']]) := by
  rw [braced, List.cons_append, keptLines_tabs_cons (by decide), keptLines_append,
    keptLines_tabs_cons (by decide), keptLines_nil]

end Switch

end KeywordSwitch
