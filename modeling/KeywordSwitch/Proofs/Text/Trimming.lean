import KeywordSwitch.Text.Blank
import Mathlib.Data.List.TakeWhile

/-!
# Trimming

Trimming takes a text apart into blank characters, what is left of it, and blank
characters. What is left neither begins nor ends with a blank character, and there is
only one such part.
-/

namespace KeywordSwitch.Text

/-- `w` is what is left of `t` without the blank characters at both ends. -/
structure IsTrimmed (t w : Text) : Prop where
  around : ∃ left right, t = left ++ w ++ right ∧ ∀ c ∈ left ++ right, isBlank c = true
  first : ∀ c ∈ w.head?, isBlank c = false
  last : ∀ c ∈ w.getLast?, isBlank c = false

variable {t w : Text}

/-- Dropping stops at the first character that is kept. -/
theorem dropWhile_append_of_stops {p : Char → Bool} {left right : Text}
    (dropped : ∀ c ∈ left, p c = true) (stops : ∀ c ∈ right.head?, p c = false) :
    (left ++ right).dropWhile p = right := by
  rw [List.dropWhile_append_of_pos dropped]
  cases right with
  | nil => rfl
  | cons c right => rw [List.dropWhile_cons_of_neg (by simp [stops c rfl])]

/-- What is kept first is not to be dropped. -/
theorem not_of_mem_head?_dropWhile {p : Char → Bool} {c : Char} (mem : c ∈ (t.dropWhile p).head?) :
    p c = false := by
  have kept := List.head?_dropWhile_not p t
  rwa [Option.mem_def.mp mem] at kept

theorem isTrimmed_trim (t : Text) : IsTrimmed t (trim t) := by
  have cut : trimLeft t = trim t ++ ((trimLeft t).reverse.takeWhile isBlank).reverse := by
    rw [trim, dropEndWhile, ← List.reverse_append, List.takeWhile_append_dropWhile,
      List.reverse_reverse]
  constructor
  case around =>
    refine ⟨t.takeWhile isBlank, ((trimLeft t).reverse.takeWhile isBlank).reverse, ?_, ?_⟩
    · rw [List.append_assoc, ← cut, trimLeft, List.takeWhile_append_dropWhile]
    · intro c mem
      rcases List.mem_append.mp mem with left | right
      · exact List.mem_takeWhile_imp left
      · exact List.mem_takeWhile_imp (List.mem_reverse.mp right)
  case first =>
    intro c mem
    have begins : c ∈ (trimLeft t).head? := by
      rw [cut, List.head?_append, Option.mem_def.mp mem]
      rfl
    exact not_of_mem_head?_dropWhile begins
  case last =>
    intro c mem
    rw [trim, dropEndWhile, List.getLast?_reverse] at mem
    exact not_of_mem_head?_dropWhile mem

theorem IsTrimmed.trim_eq (h : IsTrimmed t w) : trim t = w := by
  obtain ⟨left, right, rfl, blank⟩ := h.around
  have blankLeft : ∀ c ∈ left, isBlank c = true := fun c mem => blank c (List.mem_append_left _ mem)
  have blankRight : ∀ c ∈ right.reverse, isBlank c = true := fun c mem =>
    blank c (List.mem_append_right _ (List.mem_reverse.mp mem))
  cases w with
  | nil =>
      have nothing : trimLeft (left ++ [] ++ right) = [] := by
        rw [List.append_nil, trimLeft, List.dropWhile_eq_nil_iff]
        exact blank
      rw [trim, nothing]
      rfl
  | cons c w =>
      have start : trimLeft (left ++ (c :: w) ++ right) = (c :: w) ++ right := by
        rw [List.append_assoc]
        exact dropWhile_append_of_stops blankLeft h.first
      have stops : ∀ d ∈ (c :: w).reverse.head?, isBlank d = false := by
        rw [List.head?_reverse]
        exact h.last
      rw [trim, dropEndWhile, start, List.reverse_append,
        dropWhile_append_of_stops blankRight stops, List.reverse_reverse]

theorem IsTrimmed.pad {left right : Text} (h : IsTrimmed t w)
    (blank : ∀ c ∈ left ++ right, isBlank c = true) : IsTrimmed (left ++ t ++ right) w := by
  obtain ⟨first, last, rfl, blankInside⟩ := h.around
  refine ⟨⟨left ++ first, last ++ right, ?_, ?_⟩, h.first, h.last⟩
  · simp only [List.append_assoc]
  · simp only [List.forall_mem_append] at blank blankInside ⊢
    exact ⟨⟨blank.1, blankInside.1⟩, blankInside.2, blank.2⟩

/-- Blank characters at both ends make no difference to what is left. -/
theorem trim_pad {left right : Text} (blank : ∀ c ∈ left ++ right, isBlank c = true) :
    trim (left ++ t ++ right) = trim t :=
  ((isTrimmed_trim t).pad blank).trim_eq

theorem trim_eq_iff : trim t = w ↔ IsTrimmed t w := by
  constructor
  · rintro rfl
    exact isTrimmed_trim t
  · exact IsTrimmed.trim_eq

end KeywordSwitch.Text
