import KeywordSwitch.Proofs.KeywordSet.Faults
import KeywordSwitch.Proofs.KeywordSet.Lines
import KeywordSwitch.Proofs.Text.Ascending
import Mathlib.Data.List.Lex
import Mathlib.Data.List.Sort

/-!
# Reading keyword lists

Reading a keyword list gives the entries of its lines as a set, in strictly ascending
order. If some entry is no keyword, the least such entry is reported, since the entries
are sorted before they are looked at.
-/

namespace KeywordSwitch

/-- `w` is the least of the words that hold a character which no keyword may hold, and `c` is its
first such character. -/
structure IsLeastInvalid (words : Set Text) (w : Text) (c : Char) : Prop where
  mem : w ∈ words
  offence : IsFirstOffence w c
  least : ∀ v ∈ words, (∃ d ∈ v, isWordChar d = false) → w = v ∨ List.Lex (· < ·) w v

theorem IsLeastInvalid.not_forall_isWordChar {words : Set Text} {w : Text} {c : Char}
    (least : IsLeastInvalid words w c) : ¬ ∀ v ∈ words, ∀ d ∈ v, isWordChar d = true := by
  intro valid
  obtain ⟨invalid, before, after, parts, -⟩ := least.offence
  have word := valid w least.mem c (by simp [parts])
  rw [invalid] at word
  cases word

theorem IsFirstOffence.mem {w : Text} {c : Char} (offence : IsFirstOffence w c) : c ∈ w := by
  obtain ⟨-, before, after, rfl, -⟩ := offence
  exact List.mem_append_right before List.mem_cons_self

theorem IsLeastInvalid.unique {words : Set Text} {v w : Text} {c d : Char}
    (first : IsLeastInvalid words v c) (second : IsLeastInvalid words w d) : v = w ∧ c = d := by
  have same : v = w := by
    rcases first.least w second.mem ⟨d, second.offence.mem, second.offence.1⟩ with same | before
    · exact same
    · rcases second.least v first.mem ⟨c, first.offence.mem, first.offence.1⟩ with same | after
      · exact same.symm
      · exact absurd after (List.lt_asymm before)
  subst same
  exact ⟨rfl, first.offence.offending_eq.symm.trans second.offence.offending_eq⟩

namespace KeywordSet

variable {text text' : Text} {ws : List Text}

/-- In a sorted list the first faulty word is the least one. -/
theorem isLeastInvalid_of_sorted {before after : List Text} {w : Text} {c : Char}
    (sorted : (before ++ w :: after).Pairwise fun v w => Text.le v w = true)
    (keywords : ∀ v ∈ before, IsKeyword v) (offence : IsFirstOffence w c) :
    IsLeastInvalid {v | v ∈ before ++ w :: after} w c where
  mem := List.mem_append_right before List.mem_cons_self
  offence := offence
  least := by
    rintro v mem ⟨d, hd, invalid⟩
    rcases List.mem_append.mp mem with early | late
    · have valid := (keywords v early).2 d hd
      rw [invalid] at valid
      cases valid
    · rcases List.mem_cons.mp late with rfl | later
      · exact Or.inl rfl
      · have fromHere := (List.pairwise_append.mp sorted).2.1
        exact Text.le_iff_eq_or_lex.mp ((List.pairwise_cons.mp fromHere).1 v later)

/-- A sorted list of words with characters is either a list of keywords, which are kept once each,
or the least invalid word is reported. -/
theorem ofList_sorted_cases (sorted : ws.Pairwise fun v w => Text.le v w = true)
    (filled : ∀ w ∈ ws, w ≠ []) :
    ((∀ w ∈ ws, ∀ c ∈ w, isWordChar c = true) ∧
        ∃ K, ofList ws = .ok K ∧ K.words.Pairwise (List.Lex (· < ·)) ∧ ∀ w, w ∈ K ↔ w ∈ ws) ∨
      ∃ w c, ofList ws = .error (.invalid w c) ∧ IsLeastInvalid {v | v ∈ ws} w c := by
  by_cases keywords : ∀ w ∈ ws, IsKeyword w
  · obtain ⟨K, made, words⟩ := ofList_of_forall_isKeyword keywords
    refine Or.inl ⟨fun w mem => (keywords w mem).2, K, made, ?_, fun w => ?_⟩
    · rw [words]
      exact Text.pairwise_lex_eraseDups sorted
    · rw [← mem_words, words, List.mem_eraseDups]
  · obtain ⟨before, w, after, rfl, keywords, faulty⟩ :=
      exists_first_of_not_forall_isKeyword keywords
    have offence := isFirstOffence_offending (filled w (by simp)) faulty
    have fault : fault? before.length w = some (.invalid w (offending w)) :=
      fault?_eq_some_iff.mpr (Or.inr ⟨filled w (by simp), _, offence, rfl⟩)
    exact Or.inr ⟨w, offending w, ofList_of_fault keywords fault,
      isLeastInvalid_of_sorted sorted keywords offence⟩

/-- A text is read as the set of the words that it lists, or the least invalid one is reported. -/
theorem parse_cases (text : Text) :
    ((∀ w ∈ wordsListed text, ∀ c ∈ w, isWordChar c = true) ∧
        ∃ K, parse text = .ok K ∧ K.words.Pairwise (List.Lex (· < ·)) ∧
          ∀ w, w ∈ K ↔ w ∈ wordsListed text) ∨
      ∃ w c, parse text = .error (.invalid w c) ∧ IsLeastInvalid (wordsListed text) w c := by
  have same (w : Text) : w ∈ (entries text).mergeSort Text.le ↔ w ∈ wordsListed text := by
    rw [List.mem_mergeSort, mem_entries_iff]
  have filled : ∀ w ∈ (entries text).mergeSort Text.le, w ≠ [] := fun w mem =>
    ((same w).mp mem).1
  have sorted := Text.pairwise_mergeSort_le (entries text)
  rw [← Set.ext same]
  exact ofList_sorted_cases sorted filled

/-- Sets in ascending order are told by their members. -/
theorem eq_of_ascending {K J : KeywordSet} (hK : K.words.Pairwise (List.Lex (· < ·)))
    (hJ : J.words.Pairwise (List.Lex (· < ·))) (same : ∀ w, w ∈ K ↔ w ∈ J) : K = J :=
  ext (hK.eq_of_mem_iff hJ same)

/-- What is read depends on the entries alone, in whatever order and however often they stand. -/
theorem parse_congr (same : ∀ w, w ∈ entries text ↔ w ∈ entries text') :
    parse text = parse text' := by
  have listed : wordsListed text = wordsListed text' := by
    ext w
    rw [← mem_entries_iff, ← mem_entries_iff, same]
  obtain ⟨valid, K, read, ascending, members⟩ | ⟨w, c, failed, least⟩ := parse_cases text
  · obtain ⟨-, J, read', ascending', members'⟩ | ⟨v, d, -, least'⟩ := parse_cases text'
    · have equal : K = J :=
        eq_of_ascending ascending ascending' fun w => by rw [members, members', listed]
      rw [read, read', equal]
    · rw [listed] at valid
      exact absurd valid least'.not_forall_isWordChar
  · obtain ⟨valid', -⟩ | ⟨v, d, failed', least'⟩ := parse_cases text'
    · rw [listed] at least
      exact absurd valid' least.not_forall_isWordChar
    · rw [listed] at least
      obtain ⟨rfl, rfl⟩ := least.unique least'
      rw [failed, failed']

/-- Reading a text gives the words that it lists in strictly ascending order if all of them are
keywords. Otherwise it reports the least of the others and the first character at fault in it, and
never an empty word. -/
theorem parse_reads_listed (text : Text) :
    ((∀ w ∈ wordsListed text, ∀ c ∈ w, isWordChar c = true) ∧
          (∃ K, parse text = .ok K ∧ K.words.Pairwise (List.Lex (· < ·)) ∧
            ∀ w, w ∈ K.words ↔ w ∈ wordsListed text) ∨
        ¬ (∀ w ∈ wordsListed text, ∀ c ∈ w, isWordChar c = true) ∧
          ∃ w c, parse text = .error (.invalid w c) ∧ IsLeastInvalid (wordsListed text) w c) ∧
      ∀ index, parse text ≠ .error (.empty index) := by
  obtain ⟨valid, K, made, ascending, mem_iff⟩ | ⟨w, c, failed, least⟩ := parse_cases text
  · constructor
    · exact Or.inl ⟨valid, K, made, ascending, mem_iff⟩
    · intro index
      rw [made]
      simp
  · constructor
    · exact Or.inr ⟨least.not_forall_isWordChar, w, c, failed, least⟩
    · intro index
      rw [failed]
      simp

end KeywordSet

end KeywordSwitch
