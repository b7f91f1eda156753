import KeywordSwitch.Switch.OfTrie

/-!
# Arms

An arm is made either by joining an entry with its only arm or by giving the entry
code of its own. What both ways preserve holds for all arms of a trie.
-/

namespace KeywordSwitch

namespace Arm

/-- An unmarked entry with one way on is joined with its arm; any other entry has code of its own. -/
theorem extend_cases (c : Char) (word : Text) (terminal : Bool) (arms : List Arm) :
    (∃ arm, terminal = false ∧ arms = [arm] ∧
        extend c word terminal arms = ⟨c :: arm.path, arm.code⟩) ∨
      (terminal = true ∨ arms.length ≠ 1) ∧
        extend c word terminal arms = ⟨[c], .ofArms word terminal arms⟩ := by
  rw [extend.eq_def]
  split
  case h_1 arm => exact Or.inl ⟨arm, rfl, rfl, rfl⟩
  case h_2 notCollapsed =>
    refine Or.inr ⟨?_, rfl⟩
    cases terminal with
    | true => exact Or.inl rfl
    | false =>
        apply Or.inr
        intro length
        obtain ⟨arm, rfl⟩ := List.length_eq_one_iff.mp length
        exact notCollapsed arm rfl rfl

theorem path_extend_ne_nil (c : Char) (word : Text) (terminal : Bool) (arms : List Arm) :
    (extend c word terminal arms).path ≠ [] := by
  obtain ⟨arm, -, -, h⟩ | ⟨-, h⟩ := extend_cases c word terminal arms <;>
    rw [h] <;> exact List.cons_ne_nil _ _

end Arm

theorem Branches.isEmpty_arms (word : Text) (b : Branches) :
    (b.arms word).isEmpty = b.toList.isEmpty := by
  cases b <;> rfl

/-- What holds for an entry if it holds for the arms below it holds for every arm. -/
theorem Branches.forall_arms {P : Arm → Prop}
    (extend : ∀ c word terminal arms, (∀ arm ∈ arms, P arm) → P (.extend c word terminal arms))
    (word : Text) (b : Branches) : ∀ arm ∈ b.arms word, P arm := by
  induction b generalizing word with
  | nil => simp [arms]
  | cons c terminal below rest ihBelow ihRest =>
      intro arm mem
      rw [arms, List.mem_cons] at mem
      rcases mem with rfl | mem
      · exact extend c (word ++ [c]) terminal _ (ihBelow (word ++ [c]))
      · exact ihRest word arm mem

/-- Collapsed or not, an arm asks for at least one character. -/
theorem Branches.path_arms_ne_nil (word : Text) (b : Branches) :
    ∀ arm ∈ b.arms word, arm.path ≠ [] :=
  forall_arms (fun c word terminal arms _ => Arm.path_extend_ne_nil c word terminal arms) word b

end KeywordSwitch
