import KeywordSwitch.Matcher
import KeywordSwitch.Proofs.Switch.Arms
import KeywordSwitch.Proofs.Switch.RoundTrip

/-!
# Matchers are read back

The banner and the warning of a matcher are comments, and the code of every trie asks
for paths. So reading a matcher in a readable style never fails, and it gives the
switch of the trie with the tokens of the style.
-/

namespace KeywordSwitch

theorem Code.asksForPaths_select {arms : List Arm} {final : Code}
    (hPath : ∀ arm ∈ arms, arm.path ≠ []) (hCode : ∀ arm ∈ arms, arm.code.AsksForPaths)
    (hFinal : final.AsksForPaths) : (select arms final).AsksForPaths := by
  induction arms with
  | nil => exact hFinal
  | cons arm arms ih =>
      obtain ⟨c, path, first⟩ := List.exists_cons_of_ne_nil (hPath arm List.mem_cons_self)
      refine ⟨⟨c, path, by rw [first]⟩, hCode arm List.mem_cons_self, ?_, trivial⟩
      exact ih (fun arm mem => hPath arm (List.mem_cons_of_mem _ mem))
        fun arm mem => hCode arm (List.mem_cons_of_mem _ mem)

theorem Code.asksForPaths_ofArms {arms : List Arm} (hPath : ∀ arm ∈ arms, arm.path ≠ [])
    (hCode : ∀ arm ∈ arms, arm.code.AsksForPaths) (word : Text) (terminal : Bool) :
    (ofArms word terminal arms).AsksForPaths := by
  apply asksForPaths_select hPath hCode
  cases terminal <;> trivial

theorem Branches.asksForPaths_arms (word : Text) (b : Branches) :
    ∀ arm ∈ b.arms word, arm.path ≠ [] ∧ arm.code.AsksForPaths := by
  refine forall_arms (fun c word terminal arms hArms => ?_) word b
  refine ⟨Arm.path_extend_ne_nil c word terminal arms, ?_⟩
  obtain ⟨arm, -, rfl, h⟩ | ⟨-, h⟩ := Arm.extend_cases c word terminal arms
  · rw [h]
    exact (hArms arm (List.mem_singleton_self arm)).2
  · rw [h]
    exact Code.asksForPaths_ofArms (fun arm mem => (hArms arm mem).1)
      (fun arm mem => (hArms arm mem).2) word terminal

theorem Switch.asksForPaths_ofTrie (t : Trie) :
    ∀ k ∈ ofTrie t, k.code.AsksForPaths := by
  intro k mem
  obtain ⟨p, -, rfl⟩ := List.mem_map.mp mem
  have hArms := Branches.asksForPaths_arms [p.1] p.2.branches
  exact Code.asksForPaths_ofArms (fun arm mem => (hArms arm mem).1)
    (fun arm mem => (hArms arm mem).2) [p.1] p.2.terminal

namespace Switch

variable {s : Style}

/-- The lines of a case are read back as the case. -/
theorem reads_caseLines (hs : s.Readable) {k : Case} (hCode : k.code.AsksForPaths)
    (cases : Switch) :
    Reads ⟨cases, .label⟩ (keptLines (s.caseLines k))
      ⟨cases ++ [⟨k.label, k.code.mapTokens s.token⟩], .label⟩ := by
  let labelLine : Text := "case '".toList ++ k.label :: "':".toList
  have hLabel : step ⟨cases, .label⟩ labelLine = .ok ⟨cases, .body .done (.case k.label)⟩ := by
    have hRead : label? labelLine = some k.label := by
      simp [labelLine, label?, List.isPrefixOf?, List.isSuffixOf?]
    simp only [step, hRead]
  have keptLabel : IsKept labelLine :=
    isKept_of_ends (c := 'c') rfl (by decide) ⟨"case '".toList ++ [k.label, '\''], by
      simp [labelLine]⟩ (d := ':') (by decide)
  have keptBreak : keptLines ["\tbreak;".toList, []] = ["break;".toList] := by decide
  obtain ⟨q, holds, body⟩ :=
    (readsBack hs hCode).1 1 cases .done (.case k.label) _ Holds.body
  rw [Code.done_append] at holds
  have last : step q "break;".toList =
      .ok ⟨cases ++ [⟨k.label, k.code.mapTokens s.token⟩], .label⟩ := by
    rw [holds.step (by decide) (by decide)]
    rfl
  have lines : keptLines (s.caseLines k) =
      labelLine :: (keptLines (s.lines 1 [] k.code) ++ ["break;".toList]) := by
    have whole : s.caseLines k =
        (tabs 0 ++ labelLine) :: (s.lines 1 [] k.code ++ ["\tbreak;".toList, []]) := rfl
    rw [whole, keptLines_tabs_cons keptLabel, keptLines_append, keptBreak]
  rw [lines]
  exact Reads.cons hLabel (body.append (Reads.single last))

theorem reads_switchLines (hs : s.Readable) {w : Switch} (hCode : ∀ k ∈ w, k.code.AsksForPaths)
    (cases : Switch) :
    Reads ⟨cases, .label⟩ (keptLines (s.switchLines w))
      ⟨cases ++ mapTokens s.token w, .label⟩ := by
  induction w generalizing cases with
  | nil =>
      rw [mapTokens, List.map_nil, List.append_nil]
      exact Reads.nil _
  | cons k w ih =>
      have first := reads_caseLines hs (hCode k List.mem_cons_self) cases
      have rest := ih (fun k mem => hCode k (List.mem_cons_of_mem _ mem))
        (cases ++ [⟨k.label, k.code.mapTokens s.token⟩])
      rw [List.append_assoc] at rest
      have lines : s.switchLines (k :: w) = s.caseLines k ++ s.switchLines w := rfl
      rw [lines, keptLines_append]
      exact first.append rest

/-- Nothing of a matcher counts but its cases. -/
theorem keptLines_matcher (hs : s.Readable) (t : Trie) :
    keptLines (s.matcher t) = keptLines (s.switchLines (ofTrie t)) := by
  have warning : keptLines ([] :: generatedWarning) = [] := by
    apply keptLines_eq_nil
    intro line mem
    rcases List.mem_cons.mp mem with rfl | mem
    · exact Or.inl rfl
    · exact Or.inr (Style.isPrefixOf_trim_boxed (by decide) line mem)
  rw [Style.matcher, keptLines_append, keptLines_append, keptLines_eq_nil hs.banner, warning]
  rfl

/-- A matcher in a readable style is read back as the switch of its trie. -/
theorem parse_matcher (hs : s.Readable) (t : Trie) :
    parse (s.matcher t) = .ok (mapTokens s.token (ofTrie t)) := by
  rw [parse_eq_ok_iff, keptLines_matcher hs]
  exact ⟨_, reads_switchLines hs (asksForPaths_ofTrie t) [], rfl⟩

end Switch

end KeywordSwitch
