import KeywordSwitch.KeywordSet.Basic
import KeywordSwitch.Proofs.Text.Ascending

/-!
# Lists that make no keyword set

A list of words makes a keyword set unless one of its words is faulty, and then the
first faulty word is reported. The fault of a word with characters is the first of them
that no keyword may hold, and there always is one.
-/

namespace KeywordSwitch

/-- `c` is the first character of the word that no keyword may hold. -/
def IsFirstOffence (w : Text) (c : Char) : Prop :=
  isWordChar c = false ∧
    ∃ before after, w = before ++ c :: after ∧ ∀ d ∈ before, isWordChar d = true

variable {w : Text} {ws before after : List Text} {c : Char} {e : KeywordError} {index : Nat}

theorem find?_eq_some_iff_isFirstOffence :
    w.find? (fun d => !isWordChar d) = some c ↔ IsFirstOffence w c := by
  rw [List.find?_eq_some_iff_append]
  simp only [Bool.not_eq_true', Bool.not_not, IsFirstOffence]

theorem IsFirstOffence.not_isKeyword (offence : IsFirstOffence w c) : ¬ IsKeyword w := by
  obtain ⟨invalid, before, after, rfl, -⟩ := offence
  intro keyword
  have valid := keyword.2 c (by simp)
  rw [invalid] at valid
  cases valid

theorem IsFirstOffence.offending_eq (offence : IsFirstOffence w c) : offending w = c := by
  rw [offending, find?_eq_some_iff_isFirstOffence.mpr offence, Option.getD_some]

/-- A word with characters that is no keyword holds a character at fault, so the reported one is
found in it. -/
theorem isFirstOffence_offending (filled : w ≠ []) (faulty : ¬ IsKeyword w) :
    IsFirstOffence w (offending w) := by
  cases found : w.find? fun d => !isWordChar d with
  | none =>
      have valid : ∀ c ∈ w, isWordChar c = true := by simpa using found
      exact absurd ⟨filled, valid⟩ faulty
  | some c =>
      have offence := find?_eq_some_iff_isFirstOffence.mp found
      rwa [offence.offending_eq]

/-- A word is at fault for having no characters, or else for the first that no keyword may hold. -/
theorem fault?_eq_some_iff :
    fault? index w = some e ↔
      w = [] ∧ e = .empty index ∨ w ≠ [] ∧ ∃ c, IsFirstOffence w c ∧ e = .invalid w c := by
  by_cases empty : w = []
  · simp [fault?, empty, eq_comm]
  · by_cases keyword : IsKeyword w
    · have faultless : fault? index w = none := fault?_eq_none_iff.mpr keyword
      simp only [faultless, empty, false_and, false_or, ne_eq, not_false_eq_true, true_and,
        reduceCtorEq, false_iff]
      rintro ⟨c, offence, -⟩
      exact offence.not_isKeyword keyword
    · have fault : fault? index w = some (.invalid w (offending w)) := by
        rw [fault?, if_neg empty, if_neg keyword]
      simp only [fault, empty, false_and, false_or, ne_eq, not_false_eq_true, true_and,
        Option.some.injEq]
      constructor
      · rintro rfl
        exact ⟨offending w, isFirstOffence_offending empty keyword, rfl⟩
      · rintro ⟨c, offence, rfl⟩
        rw [offence.offending_eq]

/-- A list of which not all words are keywords has a first one that is none. -/
theorem exists_first_of_not_forall_isKeyword (faulty : ¬ ∀ w ∈ ws, IsKeyword w) :
    ∃ before w after, ws = before ++ w :: after ∧ (∀ v ∈ before, IsKeyword v) ∧ ¬ IsKeyword w := by
  cases found : ws.find? fun w => !decide (IsKeyword w) with
  | none =>
      have keywords : ∀ w ∈ ws, IsKeyword w := by simpa using found
      exact absurd keywords faulty
  | some w =>
      obtain ⟨other, before, after, parts, keywords⟩ := List.find?_eq_some_iff_append.mp found
      exact ⟨before, w, after, parts, by simpa using keywords, by simpa using other⟩

namespace KeywordSet

variable {s : KeywordSet}

theorem pushAll_cons_of_isKeyword (keyword : IsKeyword w) :
    s.pushAll index (w :: ws) = (s.push w keyword).pushAll (index + 1) ws := by
  rw [pushAll]
  split
  case h_1 e fault =>
    rw [fault?_eq_none_iff.mpr keyword] at fault
    cases fault
  case h_2 => rfl

theorem pushAll_cons_of_fault (fault : fault? index w = some e) :
    s.pushAll index (w :: ws) = .error e := by
  rw [pushAll]
  split
  case h_1 e' fault' =>
    rw [fault] at fault'
    cases fault'
    rfl
  case h_2 faultless =>
    rw [fault] at faultless
    cases faultless

variable {seen : List Text}

/-- If a set holds the first occurrences of the words seen, then so it does after one more. -/
theorem words_push (firsts : s.words = seen.eraseDups) (keyword : IsKeyword w) :
    (s.push w keyword).words = (seen ++ [w]).eraseDups := by
  have known : w ∈ s ↔ w ∈ seen := by rw [← mem_words, firsts, List.mem_eraseDups]
  rw [eraseDups_concat]
  by_cases old : w ∈ s
  · rw [push_of_mem old, if_pos (known.mp old), firsts]
  · rw [words_push_of_not_mem old, if_neg (mt known.mpr old), firsts]

/-- Keywords at the start of a list are all taken, each where it occurs first, and the rest of the
list is gone through from there. -/
theorem pushAll_append (index : Nat) (firsts : s.words = seen.eraseDups)
    (keywords : ∀ w ∈ ws, IsKeyword w) :
    ∃ K : KeywordSet, K.words = (seen ++ ws).eraseDups ∧
      ∀ rest, s.pushAll index (ws ++ rest) = K.pushAll (index + ws.length) rest := by
  induction ws generalizing s seen index with
  | nil => exact ⟨s, by rw [firsts, List.append_nil], fun rest => rfl⟩
  | cons w ws ih =>
      obtain ⟨keyword, keywords⟩ := List.forall_mem_cons.mp keywords
      obtain ⟨K, words, run⟩ := ih (index + 1) (words_push firsts keyword) keywords
      refine ⟨K, by rw [words, List.append_assoc, List.singleton_append], fun rest => ?_⟩
      rw [List.cons_append, pushAll_cons_of_isKeyword keyword, run, List.length_cons]
      congr 1
      omega

theorem ofList_of_forall_isKeyword (keywords : ∀ w ∈ ws, IsKeyword w) :
    ∃ K, ofList ws = .ok K ∧ K.words = ws.eraseDups := by
  have start : (∅ : KeywordSet).words = ([] : List Text).eraseDups := rfl
  obtain ⟨K, words, run⟩ := pushAll_append 0 start keywords
  have whole := run []
  rw [List.append_nil] at whole
  exact ⟨K, whole, words⟩

/-- The first faulty word decides what is reported, and what comes after it does not matter. -/
theorem ofList_of_fault (keywords : ∀ v ∈ before, IsKeyword v)
    (fault : fault? before.length w = some e) : ofList (before ++ w :: after) = .error e := by
  have start : (∅ : KeywordSet).words = ([] : List Text).eraseDups := rfl
  obtain ⟨K, -, run⟩ := pushAll_append 0 start keywords
  rw [ofList, run, Nat.zero_add, pushAll_cons_of_fault fault]

end KeywordSet

end KeywordSwitch
