import KeywordSwitch.Proofs.KeywordSet.Pieces
import Mathlib.Data.Set.Basic

/-!
# Keyword lists line by line

A comment ends with its line, so a keyword list can be read one line at a time: what a
line lists is found in the part of it before the first two hyphens, and the entries of
the list are those of its lines, one line after the other.
-/

namespace KeywordSwitch

namespace Text

/-- The part of a text before the first occurrence of `mark`. -/
def cutAt (mark : Text) : Text → Text
  | [] => []
  | c :: t => if mark.isPrefixOf (c :: t) then [] else c :: cutAt mark t

theorem cutAt_of_isPrefix {mark t : Text} {c : Char} (starts : mark <+: c :: t) :
    cutAt mark (c :: t) = [] := by
  rw [cutAt, if_pos (List.isPrefixOf_iff_prefix.mpr starts)]

theorem cutAt_of_not_isPrefix {mark t : Text} {c : Char} (other : ¬ mark <+: c :: t) :
    cutAt mark (c :: t) = c :: cutAt mark t := by
  rw [cutAt, if_neg (mt List.isPrefixOf_iff_prefix.mp other)]

theorem mem_of_mem_cutAt {mark t : Text} {c : Char} (mem : c ∈ cutAt mark t) : c ∈ t := by
  induction t with
  | nil => exact mem
  | cons d t ih =>
      rw [cutAt] at mem
      split at mem
      · cases mem
      · rcases List.mem_cons.mp mem with rfl | later
        · exact List.mem_cons_self
        · exact List.mem_cons_of_mem d (ih later)

/-- Splitting looks at no character but those of the text. -/
theorem splitOnP_congr {p q : Char → Bool} {t : Text} (h : ∀ c ∈ t, p c = q c) :
    t.splitOnP p = t.splitOnP q := by
  induction t with
  | nil => rfl
  | cons c t ih =>
      rw [List.splitOnP_cons_eq_if_modifyHead, List.splitOnP_cons_eq_if_modifyHead,
        h c List.mem_cons_self, ih fun d mem => h d (List.mem_cons_of_mem c mem)]

end Text

namespace KeywordSet

/-- The entries of one line: what stands between commas and carriage returns before the comment,
without blank characters around it. -/
def lineEntries (line : Text) : List Text :=
  (((Text.cutAt "--".toList line).splitOnP fun c => c = ',' || c = '\r').map Text.trim).filter
    (· ≠ [])

/-- The entries of the lines of a text, one line after the other. -/
def listed (text : Text) : List Text :=
  (text.splitOn '\n').flatMap lineEntries

/-- The words of a list: what is left, without the blank characters around it, of a piece between
commas and carriage returns before the comment of a line. -/
def wordsListed (text : Text) : Set Text :=
  {w | w ≠ [] ∧ ∃ line ∈ text.splitOn '\n',
    ∃ piece ∈ (Text.cutAt "--".toList line).splitOnP (fun c => c = ',' || c = '\r'),
      Text.IsTrimmed piece w}

/-- Within a line the separators are the commas and the carriage returns. -/
theorem pieces_cutAt {line : Text} (single : '\n' ∉ line) :
    pieces isSeparator (Text.cutAt "--".toList line) = lineEntries line := by
  have inLine : ∀ c ∈ Text.cutAt "--".toList line,
      isSeparator c = (decide (c = ',') || decide (c = '\r')) := by
    intro c mem
    have other : c ≠ '\n' := by
      rintro rfl
      exact single (Text.mem_of_mem_cutAt mem)
    simp [isSeparator, other]
  rw [pieces, Text.splitOnP_congr inLine, lineEntries]

/-- An open comment swallows the rest of its line. -/
theorem stripComments_inside {line : Text} (single : '\n' ∉ line) (rest : Text)
    (ends : ∀ c ∈ rest.head?, c = '\n') :
    stripComments true (line ++ rest) = stripComments false rest := by
  induction line with
  | nil =>
      cases rest with
      | nil => rfl
      | cons c rest =>
          cases ends c rfl
          rfl
  | cons c line ih =>
      have other : '\n' ≠ c := List.ne_of_not_mem_cons single
      have single : '\n' ∉ line := List.not_mem_of_not_mem_cons single
      rw [List.cons_append, stripComments, if_neg other.symm, if_pos rfl]
      exact ih single

/-- Of a line the part before its first two hyphens is left. -/
theorem stripComments_line {line : Text} (single : '\n' ∉ line) (rest : Text)
    (ends : ∀ c ∈ rest.head?, c = '\n') :
    stripComments false (line ++ rest) = Text.cutAt "--".toList line ++ stripComments false rest := by
  induction line with
  | nil => rfl
  | cons c line ih =>
      have other : '\n' ≠ c := List.ne_of_not_mem_cons single
      have single : '\n' ∉ line := List.not_mem_of_not_mem_cons single
      -- What follows the line is no hyphen, so two hyphens in a row stand in the line itself.
      have hyphens : "--".toList.isPrefixOf (c :: line) = true ↔
          c = '-' ∧ (line ++ rest).head? = some '-' := by
        cases line with
        | nil =>
            have noHyphen : rest.head? ≠ some '-' := by
              intro h
              have hyphen := ends '-' h
              exact absurd hyphen (by decide)
            simp [List.isPrefixOf, noHyphen]
        | cons d line => simp [List.isPrefixOf, eq_comm (a := '-')]
      rw [List.cons_append, stripComments, if_neg other.symm, if_neg Bool.false_ne_true,
        Text.cutAt]
      by_cases opens : c = '-' ∧ (line ++ rest).head? = some '-'
      · rw [if_pos opens, if_pos (hyphens.mpr opens), List.nil_append]
        exact stripComments_inside single rest ends
      · rw [if_neg opens, if_neg (mt hyphens.mp opens), List.cons_append, ih single]

theorem entries_line {line : Text} (single : '\n' ∉ line) : entries line = lineEntries line := by
  have strip := stripComments_line single [] (by simp)
  rw [List.append_nil, stripComments, List.append_nil] at strip
  calc
    entries line = pieces isSeparator (stripComments false line) := rfl
    _ = lineEntries line := by rw [strip, pieces_cutAt single]

theorem entries_line_append {line : Text} (single : '\n' ∉ line) (rest : Text) :
    entries (line ++ '\n' :: rest) = lineEntries line ++ entries rest := by
  have strip := stripComments_line single ('\n' :: rest) (by simp)
  calc
    entries (line ++ '\n' :: rest) =
        pieces isSeparator (stripComments false (line ++ '\n' :: rest)) := rfl
    _ = pieces isSeparator (Text.cutAt "--".toList line ++ '\n' :: stripComments false rest) := by
      rw [strip]
      rfl
    _ = lineEntries line ++ entries rest := by
      rw [pieces_append_cons rfl, pieces_cutAt single]
      rfl

/-- The entries of a text are those of its lines. -/
theorem entries_eq_listed (text : Text) : entries text = listed text := by
  generalize length : text.length = n
  induction n using Nat.strongRecOn generalizing text with
  | ind n ih =>
      by_cases several : '\n' ∈ text
      · obtain ⟨line, rest, rfl, single⟩ := List.eq_append_cons_of_mem several
        have shorter : rest.length < n := by
          rw [List.length_append, List.length_cons] at length
          omega
        rw [entries_line_append single, ih rest.length shorter rest rfl, listed, listed,
          List.splitOn_append_cons_self_of_not_mem single, List.flatMap_cons]
      · rw [entries_line several, listed, List.splitOn_eq_singleton several, List.flatMap_cons,
          List.flatMap_nil, List.append_nil]

/-- The entries of a text are the words that it lists. -/
theorem mem_entries_iff {text w : Text} : w ∈ entries text ↔ w ∈ wordsListed text := by
  rw [entries_eq_listed]
  constructor
  · intro mem
    obtain ⟨line, hLine, entry⟩ := List.mem_flatMap.mp mem
    obtain ⟨trimmed, filled⟩ := List.mem_filter.mp entry
    obtain ⟨piece, hPiece, trimEq⟩ := List.mem_map.mp trimmed
    exact ⟨of_decide_eq_true filled, line, hLine, piece, hPiece, Text.trim_eq_iff.mp trimEq⟩
  · rintro ⟨filled, line, hLine, piece, hPiece, trimmed⟩
    have entry := List.mem_map.mpr ⟨piece, hPiece, trimmed.trim_eq⟩
    exact List.mem_flatMap.mpr
      ⟨line, hLine, List.mem_filter.mpr ⟨entry, decide_eq_true filled⟩⟩

end KeywordSet

end KeywordSwitch
