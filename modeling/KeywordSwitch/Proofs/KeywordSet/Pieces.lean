import KeywordSwitch.KeywordSet.Listing
import KeywordSwitch.Proofs.Text.Trimming

/-!
# Pieces between separators

The pieces of a text are what stands between its separators, without the blank characters
around it and as far as anything is left. Blank characters and separators at the ends of
a text make no difference to its pieces.
-/

namespace KeywordSwitch.KeywordSet

/-- The trimmed pieces between separators, as far as they are not empty. -/
def pieces (separates : Char → Bool) (t : Text) : List Text :=
  ((t.splitOnP separates).map Text.trim).filter (· ≠ [])

variable {separates : Char → Bool} {t left right : Text} {c : Char}

@[simp] theorem pieces_nil : pieces separates [] = [] := rfl

theorem pieces_append_cons (separator : separates c = true) (first second : Text) :
    pieces separates (first ++ c :: second) = pieces separates first ++ pieces separates second := by
  rw [pieces, List.splitOnP_append_cons first second separator, List.map_append,
    List.filter_append, pieces, pieces]

/-- The pieces of texts that are joined by a separator. -/
theorem pieces_intercalate (separator : separates c = true) (ts : List Text) :
    pieces separates ([c].intercalate ts) = ts.flatMap (pieces separates) := by
  induction ts with
  | nil => rfl
  | cons t ts ih =>
      cases ts with
      | nil => simp
      | cons u ts =>
          rw [List.flatMap_cons, ← ih, List.intercalate_cons_cons, List.append_assoc,
            List.singleton_append, pieces_append_cons separator]

/-- A text without a separator is one piece, if anything of it is left. -/
theorem pieces_of_forall_not (whole : ∀ c ∈ t, separates c = false) :
    pieces separates t = [Text.trim t].filter (· ≠ []) := by
  rw [pieces, List.splitOnP_eq_singleton whole, List.map_singleton]

/-- A text has no separator or a first one. -/
theorem forall_not_or_exists_separator (separates : Char → Bool) (t : Text) :
    (∀ c ∈ t, separates c = false) ∨
      ∃ first c rest, t = first ++ c :: rest ∧ separates c = true ∧
        ∀ d ∈ first, separates d = false := by
  cases found : t.find? separates with
  | none => exact Or.inl (by simpa using found)
  | some c =>
      obtain ⟨separator, first, rest, parts, whole⟩ := List.find?_eq_some_iff_append.mp found
      exact Or.inr ⟨first, c, rest, parts, separator, by simpa using whole⟩

/-- A character that separates, or is blank, belongs to no piece. -/
def IsFiller (separates : Char → Bool) (c : Char) : Prop :=
  separates c = true ∨ Text.isBlank c = true

theorem pieces_cons_of_isFiller (filler : IsFiller separates c) (t : Text) :
    pieces separates (c :: t) = pieces separates t := by
  by_cases separator : separates c = true
  · exact pieces_append_cons separator [] t
  have blank : Text.isBlank c = true := filler.resolve_left separator
  have single {u : Text} (whole : ∀ d ∈ u, separates d = false) :
      pieces separates (c :: u) = pieces separates u := by
    have wholeToo : ∀ d ∈ c :: u, separates d = false :=
      List.forall_mem_cons.mpr ⟨Bool.eq_false_iff.mpr separator, whole⟩
    have trimmed : Text.trim ([c] ++ u ++ []) = Text.trim u :=
      Text.trim_pad (by simpa using blank)
    rw [List.append_nil, List.singleton_append] at trimmed
    rw [pieces_of_forall_not wholeToo, pieces_of_forall_not whole, trimmed]
  rcases forall_not_or_exists_separator separates t with whole | ⟨first, s, rest, rfl, next, whole⟩
  · exact single whole
  · rw [← List.cons_append, pieces_append_cons next, pieces_append_cons next, single whole]

theorem pieces_concat_of_isFiller (filler : IsFiller separates c) (t : Text) :
    pieces separates (t ++ [c]) = pieces separates t := by
  by_cases separator : separates c = true
  · rw [pieces_append_cons separator, pieces_nil, List.append_nil]
  have blank : Text.isBlank c = true := filler.resolve_left separator
  generalize length : t.length = n
  induction n using Nat.strongRecOn generalizing t with
  | ind n ih =>
      rcases forall_not_or_exists_separator separates t with
        whole | ⟨first, s, rest, rfl, next, -⟩
      · have wholeToo : ∀ d ∈ t ++ [c], separates d = false := by
          rw [List.forall_mem_append, List.forall_mem_singleton]
          exact ⟨whole, Bool.eq_false_iff.mpr separator⟩
        have trimmed : Text.trim ([] ++ t ++ [c]) = Text.trim t :=
          Text.trim_pad (by simpa using blank)
        rw [List.nil_append] at trimmed
        rw [pieces_of_forall_not wholeToo, pieces_of_forall_not whole, trimmed]
      · have shorter : rest.length < n := by
          rw [List.length_append, List.length_cons] at length
          omega
        rw [List.append_assoc, List.cons_append, pieces_append_cons next,
          pieces_append_cons next, ih rest.length shorter rest rfl]

/-- Fillers before a text make no difference to its pieces. -/
theorem pieces_fillers_append (fillers : ∀ c ∈ left, IsFiller separates c) (t : Text) :
    pieces separates (left ++ t) = pieces separates t := by
  induction left with
  | nil => rfl
  | cons c left ih =>
      obtain ⟨filler, fillers⟩ := List.forall_mem_cons.mp fillers
      rw [List.cons_append, pieces_cons_of_isFiller filler, ih fillers]

/-- Fillers after a text make no difference to its pieces. -/
theorem pieces_append_fillers (fillers : ∀ c ∈ right, IsFiller separates c) (t : Text) :
    pieces separates (t ++ right) = pieces separates t := by
  induction right generalizing t with
  | nil => rw [List.append_nil]
  | cons c right ih =>
      obtain ⟨filler, fillers⟩ := List.forall_mem_cons.mp fillers
      calc
        pieces separates (t ++ c :: right) = pieces separates (t ++ [c] ++ right) := by
          rw [List.append_assoc, List.singleton_append]
        _ = pieces separates t := by rw [ih fillers, pieces_concat_of_isFiller filler]

/-- There are no pieces of fillers. -/
theorem pieces_of_fillers (fillers : ∀ c ∈ t, IsFiller separates c) : pieces separates t = [] := by
  have none := pieces_append_fillers fillers []
  rwa [List.nil_append, pieces_nil] at none

end KeywordSwitch.KeywordSet
