import KeywordSwitch.Text.Basic

/-!
# The order of texts

Texts are ordered by their first difference: the smaller code point there comes
first, and a text comes before every longer text that starts with it. The order of
the UTF-8 forms, byte by byte, is the same.
-/

namespace KeywordSwitch.Text

/-- Whether `s` is `t` or comes before it. -/
def le : Text → Text → Bool
  | [], _ => true
  | _ :: _, [] => false
  | c :: s, d :: t => c < d || (c = d && le s t)

@[simp] theorem nil_le (t : Text) : le [] t = true := by
  cases t <;> rfl

@[simp] theorem not_cons_le_nil (c : Char) (s : Text) : le (c :: s) [] = false := rfl

theorem cons_le_cons_iff {c d : Char} {s t : Text} :
    le (c :: s) (d :: t) = true ↔ c < d ∨ c = d ∧ le s t = true := by
  simp [le]

/-- Of two texts one comes no later than the other. -/
theorem le_total (s t : Text) : (le s t || le t s) = true := by
  induction s generalizing t with
  | nil => simp
  | cons c s ih =>
      cases t with
      | nil => simp
      | cons d t =>
          rw [Bool.or_eq_true, cons_le_cons_iff, cons_le_cons_iff]
          by_cases equal : c = d
          · subst equal
            simpa using ih t
          · rcases Char.le_total c d with before | after
            · have strict : ¬ d ≤ c := fun after => equal (Char.le_antisymm before after)
              exact Or.inl (Or.inl (Char.not_le.mp strict))
            · have strict : ¬ c ≤ d := fun before => equal (Char.le_antisymm before after)
              exact Or.inr (Or.inl (Char.not_le.mp strict))

/-- Of two different texts one comes later than the other. -/
theorem le_antisymm {s t : Text} (first : le s t = true) (second : le t s = true) : s = t := by
  induction s generalizing t with
  | nil =>
      cases t with
      | nil => rfl
      | cons d t => simp at second
  | cons c s ih =>
      cases t with
      | nil => simp at first
      | cons d t =>
          rw [cons_le_cons_iff] at first second
          rcases first with before | ⟨rfl, first⟩
          · rcases second with after | ⟨rfl, -⟩
            · exact absurd (Char.lt_trans before after) (Char.lt_irrefl c)
            · exact absurd before (Char.lt_irrefl d)
          · rcases second with after | ⟨-, second⟩
            · exact absurd after (Char.lt_irrefl c)
            · rw [ih first second]

/-- A text that comes no later than a second one comes no later than any after that. -/
theorem le_trans {s t u : Text} (first : le s t = true) (second : le t u = true) :
    le s u = true := by
  induction s generalizing t u with
  | nil => simp
  | cons c s ih =>
      cases t with
      | nil => simp at first
      | cons d t =>
          cases u with
          | nil => simp at second
          | cons e u =>
              rw [cons_le_cons_iff] at first second ⊢
              rcases first with first | ⟨rfl, first⟩
              · rcases second with second | ⟨rfl, _⟩
                · exact Or.inl (Char.lt_trans first second)
                · exact Or.inl first
              · rcases second with second | ⟨rfl, second⟩
                · exact Or.inl second
                · exact Or.inr ⟨rfl, ih first second⟩

/-- A list sorted by the order of texts. -/
theorem pairwise_mergeSort_le (ws : List Text) :
    (ws.mergeSort le).Pairwise fun v w => le v w = true := by
  apply List.pairwise_mergeSort
  · intro s t u first second
    exact le_trans first second
  · exact le_total

/-- A list in order and without repetitions is what sorting makes of its words, whatever order they
come in. -/
theorem eraseReps_mergeSort_eq {ws sorted : List Text} (same : ws.Perm sorted)
    (ascending : sorted.Pairwise fun v w => le v w = true) (distinct : sorted.eraseReps = sorted) :
    (ws.mergeSort le).eraseReps = sorted := by
  have inOrder : ws.mergeSort le = sorted :=
    List.Perm.eq_of_pairwise (fun _ _ _ _ first second => le_antisymm first second)
      (pairwise_mergeSort_le ws) ascending ((List.mergeSort_perm ws le).trans same)
  rw [inOrder, distinct]

end KeywordSwitch.Text
