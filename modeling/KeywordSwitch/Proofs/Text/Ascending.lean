import KeywordSwitch.Text.Order
import Mathlib.Data.List.Induction

/-!
# Ascending lists of texts

The order of texts is the lexicographic order of their code points. Dropping repetitions
leaves the words in the order of their first occurrences, so a sorted list from which
repetitions are dropped ascends strictly.
-/

namespace KeywordSwitch

/-- Keeping the first of equal words leaves them in their places. -/
theorem eraseDups_sublist (ws : List Text) : ws.eraseDups.Sublist ws := by
  generalize length : ws.length = n
  induction n using Nat.strongRecOn generalizing ws with
  | ind n ih =>
      cases ws with
      | nil => exact List.Sublist.refl _
      | cons w ws =>
          have shorter : (ws.filter fun v => !v == w).length < n := by
            have := List.length_filter_le (fun v => !v == w) ws
            simp only [List.length_cons] at length
            omega
          rw [List.eraseDups_cons]
          apply List.Sublist.cons_cons
          exact (ih _ shorter _ rfl).trans List.filter_sublist

/-- A word at the end of a list is dropped if it occurs before and kept otherwise. -/
theorem eraseDups_concat (ws : List Text) (w : Text) :
    (ws ++ [w]).eraseDups = if w ∈ ws then ws.eraseDups else ws.eraseDups ++ [w] := by
  rw [List.eraseDups_append]
  by_cases old : w ∈ ws
  · have nothing : [w].removeAll ws = [] := by simp [List.removeAll, old]
    rw [nothing, if_pos old, List.eraseDups_nil, List.append_nil]
  · have single : [w].removeAll ws = [w] := by simp [List.removeAll, old]
    rw [single, if_neg old]
    rfl

/-- Keeping the first of equal words leaves them in the order in which they occur first. -/
theorem pairwise_idxOf_eraseDups (ws : List Text) :
    ws.eraseDups.Pairwise fun v w => ws.idxOf v < ws.idxOf w := by
  induction ws using List.reverseRecOn with
  | nil => simp
  | append_singleton ws w ih =>
      have early {v : Text} (mem : v ∈ ws.eraseDups) : (ws ++ [w]).idxOf v = ws.idxOf v := by
        rw [List.idxOf_append, if_pos (List.mem_eraseDups.mp mem)]
      have before : ws.eraseDups.Pairwise fun u v =>
          (ws ++ [w]).idxOf u < (ws ++ [w]).idxOf v := by
        refine ih.imp_of_mem fun {u v} memU memV before => ?_
        rwa [early memU, early memV]
      rw [eraseDups_concat]
      by_cases old : w ∈ ws
      · rwa [if_pos old]
      · rw [if_neg old, List.pairwise_append]
        refine ⟨before, List.pairwise_singleton _ w, fun v mem u last => ?_⟩
        rw [List.mem_singleton.mp last, early mem, List.idxOf_append, if_neg old]
        have inside := List.idxOf_lt_length_of_mem (List.mem_eraseDups.mp mem)
        omega

namespace Text

/-- A text comes no later than another if it is equal to it or lexicographically smaller. -/
theorem le_iff_eq_or_lex {s t : Text} : le s t = true ↔ s = t ∨ List.Lex (· < ·) s t := by
  induction s generalizing t with
  | nil =>
      cases t with
      | nil => simp
      | cons d t => simp
  | cons c s ih =>
      cases t with
      | nil => simp
      | cons d t =>
          rw [cons_le_cons_iff, ih, List.cons_lex_cons_iff, List.cons_eq_cons]
          constructor
          · rintro (before | ⟨same, rfl | smaller⟩)
            · exact Or.inr (Or.inl before)
            · exact Or.inl ⟨same, rfl⟩
            · exact Or.inr (Or.inr ⟨same, smaller⟩)
          · rintro (⟨same, rfl⟩ | before | ⟨same, smaller⟩)
            · exact Or.inr ⟨same, Or.inl rfl⟩
            · exact Or.inl before
            · exact Or.inr ⟨same, Or.inr smaller⟩

/-- Sorting and dropping repetitions leaves a strictly ascending list. -/
theorem pairwise_lex_eraseDups {ws : List Text} (sorted : ws.Pairwise fun v w => le v w = true) :
    ws.eraseDups.Pairwise (List.Lex (· < ·)) := by
  have ordered := sorted.sublist (eraseDups_sublist ws)
  refine (ordered.and (pairwise_idxOf_eraseDups ws)).imp ?_
  rintro v w ⟨before, earlier⟩
  have different : v ≠ w := by
    rintro rfl
    exact Nat.lt_irrefl _ earlier
  exact (le_iff_eq_or_lex.mp before).resolve_left different

end Text

end KeywordSwitch
