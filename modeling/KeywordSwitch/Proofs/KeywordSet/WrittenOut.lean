import KeywordSwitch.Proofs.KeywordSet.Reading
import KeywordSwitch.Proofs.Text.WordBytes

/-!
# Writing out a keyword set

The keywords of a set can be written out as a list in any order, with any blank characters
and commas around them, as long as a separator stands between neighbours. Reading the list
gives the set in ascending order. So a set that has been read comes back from its keywords
joined by commas or by line feeds.
-/

namespace KeywordSwitch

/-- No word character is blank. -/
theorem isBlank_of_isWordChar {c : Char} (word : isWordChar c = true) : Text.isBlank c = false :=
  of_isWordChar (fun c => Text.isBlank c = false) (by decide) word

namespace KeywordSet

/-- A text of blank characters and commas. -/
def IsGap (gap : Text) : Prop :=
  ∀ c ∈ gap, c = ',' ∨ Text.isBlank c = true

/-- A list in which the keywords of a set are written out, each at least once. -/
structure WrittenOut (K : KeywordSet) where
  /-- What stands before the first word. -/
  start : Text
  /-- The words in the order of the text, each with the gap that follows it. -/
  items : List (Text × Text)
  isGap_start : IsGap start
  isGap_items : ∀ i ∈ items, IsGap i.2
  /-- Between neighbours there is a separator. -/
  separated : ∀ i ∈ items.dropLast, ∃ c ∈ i.2, isSeparator c = true
  mem_iff (w : Text) : w ∈ items.map Prod.fst ↔ w ∈ K

/-- The text of a list. -/
def WrittenOut.text {K : KeywordSet} (l : K.WrittenOut) : Text :=
  l.start ++ l.items.flatMap fun i => i.1 ++ i.2

/-- The words of a list, with the same gap between any two neighbours. -/
def withGaps (gap : Text) : List Text → List (Text × Text)
  | [] => []
  | [w] => [(w, [])]
  | w :: v :: ws => (w, gap) :: withGaps gap (v :: ws)

variable {K : KeywordSet} {t gap w : Text} {ws : List Text} {c : Char} {items : List (Text × Text)}

theorem stripComments_of_not_mem (plain : '-' ∉ t) : stripComments false t = t := by
  induction t with
  | nil => rfl
  | cons c t ih =>
      have other : c ≠ '-' := (List.ne_of_not_mem_cons plain).symm
      have noComment : ¬ (c = '-' ∧ t.head? = some '-') := fun opens => other opens.1
      rw [stripComments, ih (List.not_mem_of_not_mem_cons plain), if_neg Bool.false_ne_true,
        if_neg noComment, ite_self]

theorem IsGap.isFiller (isGap : IsGap gap) : ∀ c ∈ gap, IsFiller isSeparator c := by
  intro c mem
  rcases isGap c mem with rfl | blank
  · exact Or.inl rfl
  · exact Or.inr blank

theorem isGap_of_isSeparator (separator : isSeparator c = true) : IsGap [c] := by
  simp only [isSeparator, Bool.or_eq_true, decide_eq_true_eq] at separator
  rw [IsGap, List.forall_mem_singleton]
  rcases separator with (rfl | rfl) | rfl
  · exact Or.inl rfl
  · exact Or.inr (by decide)
  · exact Or.inr (by decide)

/-- A keyword is a piece of its own. -/
theorem pieces_of_isKeyword (keyword : IsKeyword w) : pieces isSeparator w = [w] := by
  have whole : ∀ c ∈ w, isSeparator c = false := by
    intro c mem
    have word := keyword.2 c mem
    rw [Bool.eq_false_iff]
    intro separator
    rcases isGap_of_isSeparator separator c List.mem_cons_self with rfl | blank
    · exact absurd word (by decide)
    · rw [isBlank_of_isWordChar word] at blank
      cases blank
  have trimmed : Text.trim w = w := by
    apply Text.IsTrimmed.trim_eq
    refine ⟨⟨[], [], by simp, by simp⟩, fun c mem => ?_, fun c mem => ?_⟩
    · exact isBlank_of_isWordChar (keyword.2 c (List.mem_of_head? mem))
    · exact isBlank_of_isWordChar (keyword.2 c (List.mem_of_getLast? mem))
  rw [pieces_of_forall_not whole, trimmed, List.filter_cons_of_pos (by simpa using keyword.1),
    List.filter_nil]

/-- A gap with a separator in it ends the piece of the word before it. -/
theorem pieces_word_gap_append (keyword : IsKeyword w) (isGap : IsGap gap)
    (separated : ∃ c ∈ gap, isSeparator c = true) (rest : Text) :
    pieces isSeparator (w ++ gap ++ rest) = w :: pieces isSeparator rest := by
  obtain ⟨c, mem, separator⟩ := separated
  obtain ⟨left, right, rfl⟩ := List.append_of_mem mem
  have fillers := isGap.isFiller
  rw [List.forall_mem_append, List.forall_mem_cons] at fillers
  calc
    pieces isSeparator (w ++ (left ++ c :: right) ++ rest) =
        pieces isSeparator ((w ++ left) ++ c :: (right ++ rest)) := by simp
    _ = pieces isSeparator w ++ pieces isSeparator rest := by
      rw [pieces_append_cons separator, pieces_append_fillers fillers.1,
        pieces_fillers_append fillers.2.2]
    _ = w :: pieces isSeparator rest := by rw [pieces_of_isKeyword keyword, List.singleton_append]

theorem pieces_items (keywords : ∀ i ∈ items, IsKeyword i.1) (gaps : ∀ i ∈ items, IsGap i.2)
    (separated : ∀ i ∈ items.dropLast, ∃ c ∈ i.2, isSeparator c = true) :
    pieces isSeparator (items.flatMap fun i => i.1 ++ i.2) = items.map Prod.fst := by
  induction items with
  | nil => rfl
  | cons i items ih =>
      obtain ⟨keyword, keywords⟩ := List.forall_mem_cons.mp keywords
      obtain ⟨gap, gaps⟩ := List.forall_mem_cons.mp gaps
      rw [List.flatMap_cons, List.map_cons]
      cases items with
      | nil =>
          rw [List.flatMap_nil, List.append_nil, pieces_append_fillers gap.isFiller,
            pieces_of_isKeyword keyword, List.map_nil]
      | cons j items =>
          rw [List.dropLast_cons_cons, List.forall_mem_cons] at separated
          rw [pieces_word_gap_append keyword gap separated.1, ih keywords gaps separated.2]

theorem map_fst_withGaps (gap : Text) (ws : List Text) :
    (withGaps gap ws).map Prod.fst = ws := by
  fun_induction withGaps gap ws with
  | case1 => rfl
  | case2 w => rfl
  | case3 w v ws ih => rw [List.map_cons, ih]

theorem snd_of_mem_withGaps {i : Text × Text} (mem : i ∈ withGaps gap ws) :
    i.2 = gap ∨ i.2 = [] := by
  fun_induction withGaps gap ws with
  | case1 => cases mem
  | case2 w =>
      rw [List.mem_singleton.mp mem]
      exact Or.inr rfl
  | case3 w v ws ih =>
      rcases List.mem_cons.mp mem with rfl | later
      · exact Or.inl rfl
      · exact ih later

/-- Only the last word has no gap after it. -/
theorem snd_of_mem_dropLast_withGaps {i : Text × Text} (mem : i ∈ (withGaps gap ws).dropLast) :
    i.2 = gap := by
  fun_induction withGaps gap ws with
  | case1 => cases mem
  | case2 w => cases mem
  | case3 w v ws ih =>
      have more : withGaps gap (v :: ws) ≠ [] := by
        intro none
        have words := map_fst_withGaps gap (v :: ws)
        rw [none] at words
        cases words
      rw [List.dropLast_cons_of_ne_nil more] at mem
      rcases List.mem_cons.mp mem with rfl | later
      · rfl
      · exact ih later

theorem flatMap_withGaps (gap : Text) (ws : List Text) :
    ((withGaps gap ws).flatMap fun i => i.1 ++ i.2) = gap.intercalate ws := by
  fun_induction withGaps gap ws with
  | case1 => rfl
  | case2 w => simp
  | case3 w v ws ih => rw [List.flatMap_cons, ih, List.intercalate_cons_cons]

namespace WrittenOut

theorem isKeyword (l : K.WrittenOut) : ∀ i ∈ l.items, IsKeyword i.1 := by
  intro i mem
  exact K.isKeyword i.1 ((l.mem_iff i.1).mp (List.mem_map_of_mem mem))

/-- No hyphen stands in the text, so it has no comment. -/
theorem hyphen_not_mem_text (l : K.WrittenOut) : '-' ∉ l.text := by
  have noGap {gap : Text} (isGap : IsGap gap) : '-' ∉ gap := by
    intro mem
    rcases isGap '-' mem with comma | blank
    · exact absurd comma (by decide)
    · exact absurd blank (by decide)
  rw [text, List.mem_append, List.mem_flatMap]
  rintro (inStart | ⟨i, mem, inItem⟩)
  · exact noGap l.isGap_start inStart
  · rcases List.mem_append.mp inItem with inWord | inGap
    · exact absurd ((l.isKeyword i mem).2 '-' inWord) (by decide)
    · exact noGap (l.isGap_items i mem) inGap

/-- The entries are the words as they are written out. -/
theorem entries_text (l : K.WrittenOut) : entries l.text = l.items.map Prod.fst := by
  calc
    entries l.text = pieces isSeparator (stripComments false l.text) := rfl
    _ = pieces isSeparator (l.items.flatMap fun i => i.1 ++ i.2) := by
      rw [stripComments_of_not_mem l.hyphen_not_mem_text, text,
        pieces_fillers_append l.isGap_start.isFiller]
    _ = l.items.map Prod.fst := pieces_items l.isKeyword l.isGap_items l.separated

/-- Reading gives the set that is written out, in ascending order. -/
theorem parse_text (l : K.WrittenOut) :
    ∃ J, parse l.text = .ok J ∧ J.words.Pairwise (List.Lex (· < ·)) ∧ ∀ w, w ∈ J ↔ w ∈ K := by
  have listed (w : Text) : w ∈ wordsListed l.text ↔ w ∈ K := by
    rw [← mem_entries_iff, entries_text, l.mem_iff]
  obtain ⟨-, J, read, ascending, members⟩ | ⟨w, c, -, least⟩ := parse_cases l.text
  · exact ⟨J, read, ascending, fun w => (members w).trans (listed w)⟩
  · exact absurd (K.isKeyword w ((listed w).mp least.mem)) least.offence.not_isKeyword

/-- The keywords of a set joined by a separator. -/
def joined (K : KeywordSet) (c : Char) (separator : isSeparator c = true) : K.WrittenOut where
  start := []
  items := withGaps [c] K.words
  isGap_start := by simp [IsGap]
  isGap_items := by
    intro i mem
    rcases snd_of_mem_withGaps mem with gap | gap
    · rw [gap]
      exact isGap_of_isSeparator separator
    · rw [gap]
      simp [IsGap]
  separated := by
    intro i mem
    rw [snd_of_mem_dropLast_withGaps mem]
    exact ⟨c, List.mem_singleton_self c, separator⟩
  mem_iff w := by rw [map_fst_withGaps, mem_words]

theorem text_joined (K : KeywordSet) (separator : isSeparator c = true) :
    (joined K c separator).text = [c].intercalate K.words :=
  flatMap_withGaps [c] K.words

end WrittenOut

/-- A set that has been read comes back from its keywords joined by a separator. -/
theorem parse_intercalate_words (text : Text) (separator : isSeparator c = true) :
    ((parse text).bind fun K => parse ([c].intercalate K.words)) = parse text := by
  obtain ⟨-, K, read, ascending, -⟩ | ⟨w, d, failed, -⟩ := parse_cases text
  · obtain ⟨J, again, ascending', members⟩ := (WrittenOut.joined K c separator).parse_text
    rw [WrittenOut.text_joined] at again
    rw [read]
    calc
      parse ([c].intercalate K.words) = .ok J := again
      _ = .ok K := by rw [eq_of_ascending ascending' ascending members]
  · rw [failed]
    rfl

/-- However the keywords of a set are written out, reading gives the set in ascending order. The
keywords of a set that has been read give this set again when they are joined by commas or by line
feeds. -/
theorem parse_writtenOut :
    (∀ (K : KeywordSet) (l : K.WrittenOut),
      ∃ J, parse l.text = .ok J ∧ J.words.Pairwise (List.Lex (· < ·)) ∧ ∀ w, w ∈ J ↔ w ∈ K) ∧
    ∀ text : Text,
      ((parse text).bind fun K => parse ([','].intercalate K.words)) = parse text ∧
      ((parse text).bind fun K => parse (['\n'].intercalate K.words)) = parse text :=
  ⟨fun _ l => l.parse_text,
    fun text => ⟨parse_intercalate_words text rfl, parse_intercalate_words text rfl⟩⟩

end KeywordSet

end KeywordSwitch
