import KeywordSwitch.Proofs.Switch.Arms
import KeywordSwitch.Proofs.Trie.Stops

/-!
# What the switch of a trie does

Run on an input, the switch of a canonical trie consumes the longest stop that stands
at the start of the input, and assigns it if it is a word of the trie.

## Implementation notes

An arm with several characters is tested at once, while the walk down the trie goes
node by node. The two are compared arm by arm: the first arm that fits leads to the
stop that the walk finds, from every cursor whose next advance consumes the arm.
-/

namespace KeywordSwitch

/-- What code assigns and where it leaves the cursor. -/
def Code.outcome (code : Code) (k : Cursor) : Outcome :=
  ⟨(code.exec k).1, (code.exec k).2.pos⟩

theorem Code.outcome_branch (conds : List Cond) (matched otherwise : Code) (k : Cursor) :
    (branch conds matched otherwise .done).outcome k =
      if (k.tests conds).1 then matched.outcome (k.tests conds).2
      else otherwise.outcome (k.tests conds).2 := by
  simp only [outcome, exec, List.append_nil]
  split <;> rfl

namespace Arm

/-- The first arm whose characters stand in the input. -/
def firstFit? (arms : List Arm) (input : Text) (pos : Nat) : Option Arm :=
  arms.find? fun arm => arm.path.StandsAt input pos

theorem firstFit?_cons_of_standsAt {arm : Arm} {input : Text} {pos : Nat}
    (fits : arm.path.StandsAt input pos) (arms : List Arm) :
    firstFit? (arm :: arms) input pos = some arm := by
  exact List.find?_cons_of_pos (decide_eq_true fits)

theorem firstFit?_cons_of_not_standsAt {arm : Arm} {input : Text} {pos : Nat}
    (fails : ¬ arm.path.StandsAt input pos) (arms : List Arm) :
    firstFit? (arm :: arms) input pos = firstFit? arms input pos := by
  exact List.find?_cons_of_neg (by rwa [decide_eq_true_eq])

theorem firstFit?_cons_of_none {arms : List Arm} {input : Text} {pos : Nat}
    (h : firstFit? arms input pos = none) (arm : Arm) :
    firstFit? (arm :: arms) input pos = firstFit? [arm] input pos := by
  by_cases fits : arm.path.StandsAt input pos
  · rw [firstFit?_cons_of_standsAt fits, firstFit?_cons_of_standsAt fits]
  · rw [firstFit?_cons_of_not_standsAt fits, firstFit?_cons_of_not_standsAt fits, h]
    rfl

theorem firstFit?_singleton {arm fit : Arm} {input : Text} {pos : Nat}
    (h : firstFit? [arm] input pos = some fit) : arm.path.StandsAt input pos ∧ arm = fit := by
  have fits := List.find?_some h
  have mem := List.mem_singleton.mp (List.mem_of_find?_eq_some h)
  subst mem
  exact ⟨of_decide_eq_true fits, rfl⟩

/-- Collapsed or not, the arm of an entry asks for the character of the entry first. -/
theorem standsAt_extend {c : Char} {word : Text} {terminal : Bool} {arms : List Arm}
    {input : Text} {pos : Nat} (stands : (extend c word terminal arms).path.StandsAt input pos) :
    input.getD pos '\x00' = c := by
  obtain ⟨arm, -, -, h⟩ | ⟨-, h⟩ := extend_cases c word terminal arms <;> rw [h] at stands <;>
    exact (Text.standsAt_cons.mp stands).1

/-- From every cursor whose next advance consumes the characters of the arm, its code has the given
outcome. -/
def LeadsTo (arm : Arm) (input : Text) (pos : Nat) (o : Outcome) : Prop :=
  ∀ k : Cursor, k.input = input → k.pos + (k.peeked + 1) = pos + arm.path.length →
    arm.code.outcome k = o

/-- One more character in front of the arm is consumed by the same advance. -/
theorem LeadsTo.collapse {arm : Arm} {input : Text} {pos : Nat} {o : Outcome}
    (leads : arm.LeadsTo input (pos + 1) o) (c : Char) :
    (⟨c :: arm.path, arm.code⟩ : Arm).LeadsTo input pos o := by
  intro k hInput hPos
  apply leads k hInput
  rw [List.length_cons] at hPos
  omega

end Arm

/-- Selection runs the first arm that fits, with its last character peeked; if there is none, the
word is assigned if it ends here. -/
theorem Code.outcome_select {arms : List Arm} (hArms : ∀ arm ∈ arms, arm.path ≠ []) (word : Text)
    (terminal : Bool) (k : Cursor) :
    (select arms (if terminal then .assign word .done else .done)).outcome k =
      match Arm.firstFit? arms k.input k.pos with
      | some arm => arm.code.outcome ⟨k.input, k.pos, arm.path.length - 1⟩
      | none => ⟨if terminal then [word] else [], k.pos⟩ := by
  induction arms generalizing k with
  | nil => cases terminal <;> rfl
  | cons arm arms ih =>
      have hPath := hArms arm List.mem_cons_self
      rw [select, outcome_branch]
      by_cases fits : arm.path.StandsAt k.input k.pos
      · rw [Arm.firstFit?_cons_of_standsAt fits, Cursor.tests_ofPath_of_standsAt hPath fits]
        rfl
      · have failed : (k.tests (Cond.ofPath arm.path)).1 = false := by
          rwa [← Bool.not_eq_true, Cursor.tests_ofPath k hPath]
        obtain ⟨hInput, hPos⟩ := k.tests_frame (Cond.ofPath arm.path)
        rw [Arm.firstFit?_cons_of_not_standsAt fits, failed, if_neg Bool.false_ne_true,
          ih fun arm mem => hArms arm (List.mem_cons_of_mem _ mem), hInput, hPos]

namespace Branches

/-- What a run has done at the end of the path `p` below the node of `word`. -/
def reached (word : Text) (b : Branches) (pos : Nat) (p : Text) : Outcome :=
  ⟨if (⟨false, b⟩ : Trie).contains p then [word ++ p] else [], pos + p.length⟩

theorem reached_cons_same {terminal : Bool} {p : Text} (h : terminal = false ∨ p ≠ [])
    (word : Text) (c : Char) (below rest : Branches) (pos : Nat) :
    (cons c terminal below rest).reached word pos (c :: p) =
      below.reached (word ++ [c]) (pos + 1) p := by
  have same : (⟨false, cons c terminal below rest⟩ : Trie).contains (c :: p) =
      (⟨false, below⟩ : Trie).contains p := by
    cases p with
    | nil => simpa [child?] using h
    | cons d p => simp [child?]
  simp only [reached, same, List.append_assoc, List.singleton_append, List.length_cons,
    Nat.add_assoc, Nat.add_comm 1]

theorem reached_cons_of_ne {c d : Char} (different : d ≠ c) (word : Text) (terminal : Bool)
    (below rest : Branches) (pos : Nat) (p : Text) :
    (cons c terminal below rest).reached word pos (d :: p) = rest.reached word pos (d :: p) := by
  simp [reached, child?, different]

theorem reached_singleton (word : Text) (c : Char) (terminal : Bool) (below rest : Branches)
    (pos : Nat) :
    (cons c terminal below rest).reached word pos [c] =
      ⟨if terminal then [word ++ [c]] else [], pos + 1⟩ := by
  simp [reached, child?]

/-- The arm that fits and the stop that the walk finds belong together: the code of the arm consumes
the stop and assigns it if it is a word. -/
def Agree (word : Text) (b : Branches) (input : Text) (pos : Nat) :
    Option Arm → Option Text → Prop :=
  Option.Rel fun arm p => arm.LeadsTo input pos (b.reached word pos p)

theorem Agree.cases {word : Text} {b : Branches} {input : Text} {pos : Nat} {fit : Option Arm}
    {stop : Option Text} (agree : b.Agree word input pos fit stop) :
    fit = none ∧ stop = none ∨
      ∃ arm p, fit = some arm ∧ stop = some p ∧ arm.LeadsTo input pos (b.reached word pos p) := by
  cases agree with
  | none => exact Or.inl ⟨rfl, rfl⟩
  | some leads => exact Or.inr ⟨_, _, rfl, rfl, leads⟩

/-- An entry with code of its own consumes its character. From there the longest stop below it is
consumed, and if there is none, its word is assigned if it ends at the entry. -/
theorem leadsTo_ofArms {word : Text} {below : Branches} {input : Text} {pos : Nat}
    (agree : below.Agree word input (pos + 1)
      (Arm.firstFit? (below.arms word) input (pos + 1)) (below.lastStop? input (pos + 1)))
    (c : Char) (terminal : Bool) :
    (⟨[c], .ofArms word terminal (below.arms word)⟩ : Arm).LeadsTo input pos
      (match below.lastStop? input (pos + 1) with
      | some p => below.reached word (pos + 1) p
      | none => ⟨if terminal then [word] else [], pos + 1⟩) := by
  intro k hInput hPos
  have advanced : k.advance = ⟨input, pos + 1, 0⟩ := by
    rw [Cursor.advance, hInput, hPos]
    rfl
  have code : (Code.ofArms word terminal (below.arms word)).outcome k =
      (Code.select (below.arms word) (if terminal then .assign word .done else .done)).outcome
        ⟨input, pos + 1, 0⟩ := by
    calc
      (Code.ofArms word terminal (below.arms word)).outcome k =
          (Code.select (below.arms word) (if terminal then .assign word .done else .done)).outcome
            k.advance := rfl
      _ = _ := by rw [advanced]
  rw [code, Code.outcome_select (path_arms_ne_nil word below)]
  obtain ⟨hFit, hStop⟩ | ⟨arm, p, hFit, hStop, leads⟩ := agree.cases
  · simp only [hFit, hStop]
  · have filled := path_arms_ne_nil word below arm (List.mem_of_find?_eq_some hFit)
    have length := List.length_pos_iff.mpr filled
    simp only [hFit, hStop]
    refine leads ⟨input, pos + 1, arm.path.length - 1⟩ rfl ?_
    simp only
    omega

/-- The arm of the entry for the current character leads to the longest stop through the entry. -/
theorem agree_extend {word : Text} {c : Char} {terminal : Bool} {below : Branches} {input : Text}
    {pos : Nat} (here : input.getD pos '\x00' = c)
    (agree : below.Agree (word ++ [c]) input (pos + 1)
      (Arm.firstFit? (below.arms (word ++ [c])) input (pos + 1))
      (below.lastStop? input (pos + 1)))
    (rest : Branches) :
    (cons c terminal below rest).Agree word input pos
      (Arm.firstFit? [.extend c (word ++ [c]) terminal (below.arms (word ++ [c]))] input pos)
      ((cons c terminal below rest).lastStop? input pos) := by
  rw [lastStop?, if_pos here]
  obtain ⟨arm, rfl, single, collapsed⟩ | ⟨halts, own⟩ :=
    Arm.extend_cases c (word ++ [c]) terminal (below.arms (word ++ [c]))
  · -- The joined arm fits exactly if the arm below fits after the character.
    have passed : (⟨false, below⟩ : Trie).halts = false := by
      rw [Trie.halts, Trie.children, ← length_arms (word ++ [c]), single]
      rfl
    rw [collapsed]
    rw [single] at agree
    obtain ⟨hFit, hStop⟩ | ⟨_, p, hFit, hStop, leads⟩ := agree.cases
    · have fails : ¬ Text.StandsAt (c :: arm.path) input pos := fun stands => by
        rw [Arm.firstFit?_cons_of_standsAt (Text.standsAt_cons.mp stands).2] at hFit
        cases hFit
      rw [Arm.firstFit?_cons_of_not_standsAt fails, hStop, passed]
      exact Option.Rel.none
    · obtain ⟨fits, rfl⟩ := Arm.firstFit?_singleton hFit
      rw [Arm.firstFit?_cons_of_standsAt (Text.standsAt_cons.mpr ⟨here, fits⟩), hStop]
      apply Option.Rel.some
      rw [reached_cons_same (Or.inl rfl)]
      exact leads.collapse c
  · -- Code of its own is entered with the character alone.
    have halting : (⟨terminal, below⟩ : Trie).halts = true := by
      rw [Trie.halts, Trie.children, ← length_arms (word ++ [c])]
      simpa using halts
    have stands : Text.StandsAt [c] input pos :=
      Text.standsAt_cons.mpr ⟨here, Text.standsAt_nil input (pos + 1)⟩
    have leads := leadsTo_ofArms agree c terminal
    rw [own, Arm.firstFit?_cons_of_standsAt stands, halting, if_pos rfl]
    cases hStop : below.lastStop? input (pos + 1) with
    | none =>
        rw [hStop] at leads
        apply Option.Rel.some
        rw [reached_singleton]
        exact leads
    | some p =>
        rw [hStop] at leads
        apply Option.Rel.some
        rw [reached_cons_same (Or.inr (lastStop?_isStop hStop).1.1)]
        exact leads

/-- The first arm that fits leads to the longest stop that stands in the input. -/
theorem agree_arms {b : Branches} (canonical : b.Canonical) (word input : Text) (pos : Nat) :
    b.Agree word input pos (Arm.firstFit? (b.arms word) input pos) (b.lastStop? input pos) := by
  induction b generalizing word pos with
  | nil => exact Option.Rel.none
  | cons c terminal below rest ihBelow ihRest =>
      obtain ⟨hBelow, hRest, above, -⟩ := canonical
      have agreeBelow := ihBelow hBelow (word ++ [c]) (pos + 1)
      have agreeRest := ihRest hRest word pos
      rw [arms]
      by_cases here : input.getD pos '\x00' = c
      · -- No other entry fits, since all of them come after this one.
        have restStop := lastStop?_eq_none_of_above (here ▸ above)
        obtain ⟨hFit, -⟩ | ⟨_, _, -, hStop, -⟩ := agreeRest.cases
        · rw [Arm.firstFit?_cons_of_none hFit]
          exact agree_extend here agreeBelow rest
        · rw [restStop] at hStop
          cases hStop
      · have fails : ¬ (Arm.extend c (word ++ [c]) terminal
            (below.arms (word ++ [c]))).path.StandsAt input pos :=
          fun stands => here (Arm.standsAt_extend stands)
        rw [Arm.firstFit?_cons_of_not_standsAt fails, lastStop?, if_neg here]
        obtain ⟨hFit, hStop⟩ | ⟨arm, p, hFit, hStop, leads⟩ := agreeRest.cases
        · rw [hFit, hStop]
          exact Option.Rel.none
        · -- The stop does not go through the entry either.
          obtain ⟨d, p, rfl⟩ := List.exists_cons_of_ne_nil (lastStop?_isStop hStop).1.1
          have stands := Text.standsAt_cons.mp (lastStop?_isStop hStop).2
          rw [hFit, hStop]
          apply Option.Rel.some
          rwa [reached_cons_of_ne (stands.1 ▸ here)]

/-- The entry of a character is the first one found for it. -/
theorem find?_toList (b : Branches) (c : Char) :
    (b.toList.find? fun entry => entry.1 = c) = (b.child? c).map fun n => (c, n) := by
  induction b with
  | nil => rfl
  | cons d terminal below rest _ ih =>
      rw [toList, child?]
      split
      case isTrue same =>
        subst same
        exact List.find?_cons_of_pos (decide_eq_true rfl)
      case isFalse different =>
        rw [List.find?_cons_of_neg (by simpa using Ne.symm different), ih]

end Branches

namespace Switch

theorem find?_ofTrie (t : Trie) (c : Char) :
    (ofTrie t).find? (fun k => k.label = c) = (t.branches.child? c).map (Case.ofChild c) := by
  rw [ofTrie, Trie.children, List.find?_map]
  change (t.branches.toList.find? fun entry => entry.1 = c).map _ = _
  rw [Branches.find?_toList, Option.map_map]
  rfl

/-- The switch of a canonical trie consumes the longest stop and assigns it if it is a word. -/
theorem run_ofTrie {t : Trie} (canonical : t.Canonical) (input : Text) :
    (ofTrie t).run input =
      match t.lastStop? input.bytes with
      | some p => ⟨if t.contains p then [p] else [], p.length⟩
      | none => ⟨[], 0⟩ := by
  have whole : (ofTrie t).run input = ⟨((ofTrie t).exec (.start input.bytes)).1,
      ((ofTrie t).exec (.start input.bytes)).2.pos⟩ := rfl
  generalize input.bytes = bytes at whole ⊢
  have first : (Cursor.start bytes).charAt (Cursor.start bytes).pos = bytes.getD 0 '\x00' := rfl
  rw [whole, exec, first, find?_ofTrie, Trie.lastStop?]
  cases hChild : t.branches.child? (bytes.getD 0 '\x00') with
  | none => rfl
  | some n =>
      generalize bytes.getD 0 '\x00' = c at hChild ⊢
      have belowCanonical := (Branches.canonical_of_child? canonical hChild).1
      have leads := Branches.leadsTo_ofArms (Branches.agree_arms belowCanonical [c] bytes 1) c
        n.terminal (Cursor.start bytes) rfl rfl
      apply Eq.trans leads
      cases hStop : n.branches.lastStop? bytes 1 with
      | none => simp [hChild, hStop]
      | some p =>
          have filled := (Branches.lastStop?_isStop hStop).1.1
          have same : t.contains (c :: p) = (⟨false, n.branches⟩ : Trie).contains p := by
            rw [Trie.contains_cons, hChild, Option.any_some, Trie.contains_of_ne_nil filled]
          simp [Branches.reached, hStop, same, Nat.add_comm]

end Switch

end KeywordSwitch
