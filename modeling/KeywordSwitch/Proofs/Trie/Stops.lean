import KeywordSwitch.Proofs.Switch.Peeking
import KeywordSwitch.Proofs.Trie.Words

/-!
# Stops

A stop is a place where the switch of a trie consumes what it has tested: every node
of the first level, and below it every node that is marked or does not have exactly
one way on. The longest stop that stands at the start of an input is found by walking
down the trie along the input.
-/

namespace KeywordSwitch

/-- A node halts a run of collapsed nodes unless it is unmarked and has one way on. -/
def Trie.halts (t : Trie) : Bool :=
  t.terminal || t.children.length != 1

/-- A non-empty path that has one character or leads to a node that halts. -/
def Trie.IsStop (t : Trie) (p : Text) : Prop :=
  p ≠ [] ∧ ∃ n, t.descend? p = some n ∧ (p.length = 1 ∨ n.halts = true)

/-- The longest of the stops that stand at the start of the input. -/
structure Trie.IsLongestStop (t : Trie) (input p : Text) : Prop where
  isStop : t.IsStop p
  standsAt : p.StandsAt input 0
  longest : ∀ q, t.IsStop q → q.StandsAt input 0 → q.length ≤ p.length

namespace Branches

/-- The longest path from this level to a node that halts, among those that stand in the input. -/
def lastStop? : Branches → Text → Nat → Option Text
  | nil, _, _ => none
  | cons c terminal below rest, input, pos =>
      if input.getD pos '\x00' = c then
        match below.lastStop? input (pos + 1) with
        | some p => some (c :: p)
        | none => if (⟨terminal, below⟩ : Trie).halts then some [c] else none
      else rest.lastStop? input pos

/-- A path from this level that leads to a node that halts. -/
def IsStop (b : Branches) (p : Text) : Prop :=
  p ≠ [] ∧ ∃ n, (⟨false, b⟩ : Trie).descend? p = some n ∧ n.halts = true

theorem isStop_cons_iff {b : Branches} {c : Char} {p : Text} :
    b.IsStop (c :: p) ↔
      ∃ n, b.child? c = some n ∧ (p = [] ∧ n.halts = true ∨ n.branches.IsStop p) := by
  constructor
  · rintro ⟨-, n, h, halts⟩
    rw [Trie.descend?_cons, Option.bind_eq_some_iff] at h
    obtain ⟨m, hm, h⟩ := h
    refine ⟨m, hm, ?_⟩
    cases p with
    | nil => cases h; exact Or.inl ⟨rfl, halts⟩
    | cons d p => exact Or.inr ⟨List.cons_ne_nil d p, n, h, halts⟩
  · rintro ⟨n, hn, ⟨rfl, halts⟩ | ⟨hp, m, h, halts⟩⟩
    · exact ⟨List.cons_ne_nil c [], n, by simp [hn], halts⟩
    · refine ⟨List.cons_ne_nil c p, m, ?_, halts⟩
      obtain ⟨d, p, rfl⟩ := List.exists_cons_of_ne_nil hp
      rw [Trie.descend?_cons, hn]
      exact h

theorem lastStop?_isStop {b : Branches} {input p : Text} {pos : Nat}
    (h : b.lastStop? input pos = some p) : b.IsStop p ∧ p.StandsAt input pos := by
  induction b generalizing p pos with
  | nil => simp [lastStop?] at h
  | cons c terminal below rest ihBelow ihRest =>
      rw [lastStop?] at h
      split at h
      case isTrue here =>
        have entry : (cons c terminal below rest).child? c = some ⟨terminal, below⟩ := by
          simp [child?]
        split at h
        case h_1 q hq =>
          cases h
          obtain ⟨stop, stands⟩ := ihBelow hq
          exact ⟨isStop_cons_iff.mpr ⟨_, entry, Or.inr stop⟩, Text.standsAt_cons.mpr ⟨here, stands⟩⟩
        case h_2 =>
          split at h
          case isTrue halts =>
            cases h
            refine ⟨isStop_cons_iff.mpr ⟨_, entry, Or.inl ⟨rfl, halts⟩⟩, ?_⟩
            exact Text.standsAt_cons.mpr ⟨here, Text.standsAt_nil input (pos + 1)⟩
          case isFalse => cases h
      case isFalse elsewhere =>
        obtain ⟨stop, stands⟩ := ihRest h
        refine ⟨?_, stands⟩
        cases p with
        | nil => exact absurd rfl stop.1
        | cons d p =>
            have different : d ≠ c := by
              rintro rfl
              exact elsewhere (Text.standsAt_cons.mp stands).1
            rw [isStop_cons_iff] at stop ⊢
            rwa [child?, if_neg different]

/-- Every stop that stands in the input is found, or a longer one. -/
theorem exists_lastStop? {b : Branches} {input q : Text} {pos : Nat} (stop : b.IsStop q)
    (stands : q.StandsAt input pos) :
    ∃ p, b.lastStop? input pos = some p ∧ q.length ≤ p.length := by
  induction b generalizing q pos with
  | nil =>
      cases q with
      | nil => exact absurd rfl stop.1
      | cons d q => simp [isStop_cons_iff, child?] at stop
  | cons c terminal below rest ihBelow ihRest =>
      cases q with
      | nil => exact absurd rfl stop.1
      | cons d q =>
          have here := Text.standsAt_cons.mp stands
          rw [lastStop?, here.1]
          rw [isStop_cons_iff, child?] at stop
          split
          case isTrue same =>
            subst same
            rw [if_pos rfl] at stop
            obtain ⟨n, hn, stop⟩ := stop
            cases hn
            cases hBelow : below.lastStop? input (pos + 1) with
            | some p =>
                refine ⟨d :: p, rfl, ?_⟩
                rcases stop with ⟨rfl, -⟩ | stop
                · simp
                · obtain ⟨p', hp', length⟩ := ihBelow stop here.2
                  cases hBelow.symm.trans hp'
                  simpa using length
            | none =>
                rcases stop with ⟨rfl, halts⟩ | stop
                · exact ⟨[d], by simp [halts], Nat.le_refl 1⟩
                · obtain ⟨p', hp', -⟩ := ihBelow stop here.2
                  rw [hBelow] at hp'
                  cases hp'
          case isFalse different =>
            rw [if_neg different] at stop
            exact ihRest (isStop_cons_iff.mpr stop) stands

theorem lastStop?_eq_none_of_above {b : Branches} {input : Text} {pos : Nat}
    (above : b.Above (input.getD pos '\x00')) : b.lastStop? input pos = none := by
  cases h : b.lastStop? input pos with
  | none => rfl
  | some p =>
      obtain ⟨stop, stands⟩ := lastStop?_isStop h
      cases p with
      | nil => exact absurd rfl stop.1
      | cons d p =>
          obtain ⟨n, hn, -⟩ := isStop_cons_iff.mp stop
          rw [(Text.standsAt_cons.mp stands).1] at above
          rw [child?_eq_none_of_above above] at hn
          cases hn

end Branches

namespace Trie

/-- The longest stop that stands at the start of the input. -/
def lastStop? (t : Trie) (input : Text) : Option Text :=
  (t.branches.child? (input.getD 0 '\x00')).map fun n =>
    input.getD 0 '\x00' :: (n.branches.lastStop? input 1).getD []

theorem isStop_cons_iff {t : Trie} {c : Char} {p : Text} :
    t.IsStop (c :: p) ↔ ∃ n, t.branches.child? c = some n ∧ (p = [] ∨ n.branches.IsStop p) := by
  constructor
  · rintro ⟨-, n, h, stops⟩
    rw [descend?_cons, Option.bind_eq_some_iff] at h
    obtain ⟨m, hm, h⟩ := h
    refine ⟨m, hm, ?_⟩
    cases p with
    | nil => exact Or.inl rfl
    | cons d p =>
        refine Or.inr ⟨List.cons_ne_nil d p, n, h, stops.resolve_left ?_⟩
        simp
  · rintro ⟨n, hn, rfl | ⟨hp, m, h, halts⟩⟩
    · exact ⟨List.cons_ne_nil c [], n, by simp [hn], Or.inl rfl⟩
    · refine ⟨List.cons_ne_nil c p, m, ?_, Or.inr halts⟩
      obtain ⟨d, p, rfl⟩ := List.exists_cons_of_ne_nil hp
      rw [descend?_cons, hn]
      exact h

/-- The node at a path halts if the path is a word or words go on from it differently. -/
theorem halts_iff {t n : Trie} (canonical : t.Canonical) {p : Text} (hp : p ≠ [])
    (h : t.descend? p = some n) :
    n.halts = true ↔
      t.contains p = true ∨
        ∃ c d, c ≠ d ∧ (∃ v, t.contains (p ++ c :: v) = true) ∧
          ∃ w, t.contains (p ++ d :: w) = true := by
  have marked : t.contains p = n.terminal := by rw [contains, h, Option.any_some]
  rw [marked, halts, Bool.or_eq_true]
  cases unmarked : n.terminal with
  | true => simp
  | false =>
      rw [← length_children_ne_one_iff canonical hp h unmarked]
      simp

/-- The stops of a canonical trie are the paths of one character, the words, and the paths after
which words go on differently. -/
theorem isStop_iff {t : Trie} (canonical : t.Canonical) {p : Text} (hp : p ≠ []) :
    t.IsStop p ↔
      (∃ w, t.contains (p ++ w) = true) ∧
        (p.length = 1 ∨ t.contains p = true ∨
          ∃ c d, c ≠ d ∧ (∃ v, t.contains (p ++ c :: v) = true) ∧
            ∃ w, t.contains (p ++ d :: w) = true) := by
  rw [← isSome_descend?_iff canonical hp, Option.isSome_iff_exists, IsStop, and_iff_right hp]
  constructor
  · rintro ⟨n, hn, stops⟩
    exact ⟨⟨n, hn⟩, stops.imp_right (halts_iff canonical hp hn).mp⟩
  · rintro ⟨⟨n, hn⟩, stops⟩
    exact ⟨n, hn, stops.imp_right (halts_iff canonical hp hn).mpr⟩

/-- The walk along the input ends at the longest stop. -/
theorem isLongestStop_of_lastStop? {t : Trie} {input p : Text}
    (h : t.lastStop? input = some p) : t.IsLongestStop input p := by
  obtain ⟨n, hn, rfl⟩ := Option.map_eq_some_iff.mp h
  constructor
  · rw [isStop_cons_iff]
    refine ⟨n, hn, ?_⟩
    cases h : n.branches.lastStop? input 1 with
    | none => exact Or.inl rfl
    | some p => exact Or.inr (Branches.lastStop?_isStop h).1
  · rw [Text.standsAt_cons]
    refine ⟨rfl, ?_⟩
    cases h : n.branches.lastStop? input 1 with
    | none => exact Text.standsAt_nil input 1
    | some p => exact (Branches.lastStop?_isStop h).2
  · intro q stop stands
    cases q with
    | nil => exact Nat.zero_le _
    | cons d q =>
        rw [Text.standsAt_cons] at stands
        obtain ⟨m, hm, stop⟩ := isStop_cons_iff.mp stop
        rw [← stands.1, hn] at hm
        cases hm
        rcases stop with rfl | stop
        · simp
        · obtain ⟨p, hp, length⟩ := Branches.exists_lastStop? stop stands.2
          rw [hp]
          simpa using length

theorem not_standsAt_of_lastStop? {t : Trie} {input p : Text}
    (h : t.lastStop? input = none) (stop : t.IsStop p) : ¬ p.StandsAt input 0 := by
  intro stands
  cases p with
  | nil => exact stop.1 rfl
  | cons c p =>
      obtain ⟨n, hn, -⟩ := isStop_cons_iff.mp stop
      rw [Text.standsAt_cons] at stands
      rw [lastStop?, stands.1, hn] at h
      cases h

end Trie

end KeywordSwitch
