import KeywordSwitch.Proofs.Trie.Words

/-!
# Equality of tries

A canonical trie is determined by its words: the first entry of a level is the least
character with which words begin, and what remains of a level or lies below an entry is
determined in the same way. So the trie of a list depends on neither the order nor the
repetitions of the list.
-/

namespace KeywordSwitch

namespace Branches

variable {a b : Branches} {c d : Char}

/-- Levels with the same words have entries for the same characters. -/
theorem mem_chars_iff_of_contains (ha : a.Canonical) (hb : b.Canonical)
    (same : ∀ w, (⟨false, a⟩ : Trie).contains w = (⟨false, b⟩ : Trie).contains w) :
    c ∈ a.toList.map Prod.fst ↔ c ∈ b.toList.map Prod.fst := by
  have goes {b : Branches} (hb : b.Canonical) :
      c ∈ b.toList.map Prod.fst ↔ ∃ w, (⟨false, b⟩ : Trie).contains (c :: w) = true :=
    mem_chars_iff.trans (Trie.isSome_child?_iff (t := ⟨false, b⟩) hb (Trie.descend?_nil _) c)
  rw [goes ha, goes hb]
  simp only [same]

/-- The first of ascending entries is the least one, so two such levels with the same characters
begin with the same one. -/
theorem first_char_eq {terminal terminal' : Bool} {below below' rest rest' : Branches}
    (above : rest.Above c) (above' : rest'.Above d)
    (chars : ∀ e, e ∈ (cons c terminal below rest).toList.map Prod.fst ↔
      e ∈ (cons d terminal' below' rest').toList.map Prod.fst) : c = d := by
  simp only [toList, List.map_cons, List.mem_cons] at chars
  rcases (chars c).mp (Or.inl rfl) with first | later
  · exact first
  · rcases (chars d).mpr (Or.inl rfl) with first' | later'
    · exact first'.symm
    · exact absurd (lt_of_above above later') (Char.lt_asymm (lt_of_above above' later))

section SameFirst

variable {terminal terminal' : Bool} {below below' rest rest' : Branches}
  (same : ∀ w, (⟨false, cons c terminal below rest⟩ : Trie).contains w =
    (⟨false, cons c terminal' below' rest'⟩ : Trie).contains w)
include same

/-- The words that begin with the first character are those of the nodes that it leads to. -/
theorem contains_first (w : Text) :
    (⟨terminal, below⟩ : Trie).contains w = (⟨terminal', below'⟩ : Trie).contains w := by
  have along := same (c :: w)
  rwa [Trie.contains_cons, Trie.contains_cons, child?, child?, if_pos rfl, if_pos rfl] at along

/-- The other words are those of the entries after the first one. -/
theorem contains_others (above : rest.Above c) (above' : rest'.Above c) (w : Text) :
    (⟨false, rest⟩ : Trie).contains w = (⟨false, rest'⟩ : Trie).contains w := by
  cases w with
  | nil => rfl
  | cons e w =>
      rw [Trie.contains_cons, Trie.contains_cons]
      by_cases here : e = c
      · subst here
        rw [child?_eq_none_of_above above, child?_eq_none_of_above above']
      · have along := same (e :: w)
        rwa [Trie.contains_cons, Trie.contains_cons, child?, child?, if_neg here, if_neg here]
          at along

end SameFirst

/-- Below a node the mark of the node itself does not show. -/
theorem contains_unmarked {terminal terminal' : Bool}
    (same : ∀ w, (⟨terminal, a⟩ : Trie).contains w = (⟨terminal', b⟩ : Trie).contains w) (w : Text) :
    (⟨false, a⟩ : Trie).contains w = (⟨false, b⟩ : Trie).contains w := by
  cases w with
  | nil => rfl
  | cons c w => exact same (c :: w)

/-- A level in which every entry leads to a word is determined by its words. -/
theorem eq_of_contains (ha : a.Canonical) (hb : b.Canonical)
    (same : ∀ w, (⟨false, a⟩ : Trie).contains w = (⟨false, b⟩ : Trie).contains w) : a = b := by
  induction a generalizing b with
  | nil =>
      cases b with
      | nil => rfl
      | cons d terminal below rest =>
          have entry := mem_chars_iff_of_contains (c := d) ha hb same
          simp [toList] at entry
  | cons c terminal below rest ihBelow ihRest =>
      have chars (e : Char) := mem_chars_iff_of_contains (c := e) ha hb same
      cases b with
      | nil =>
          have entry := chars c
          simp [toList] at entry
      | cons d terminal' below' rest' =>
          obtain ⟨hBelow, hRest, above, -⟩ := ha
          obtain ⟨hBelow', hRest', above', -⟩ := hb
          have first : c = d := first_char_eq above above' chars
          subst first
          have node := contains_first same
          have sameMark : terminal = terminal' := node []
          have sameBelow : below = below' := ihBelow hBelow hBelow' (contains_unmarked node)
          have sameRest : rest = rest' :=
            ihRest hRest hRest' (contains_others same above above')
          rw [sameMark, sameBelow, sameRest]

end Branches

namespace Trie

theorem eq_of_terminal_of_branches {t u : Trie} (mark : t.terminal = u.terminal)
    (branches : t.branches = u.branches) : t = u := by
  cases t
  cases u
  cases mark
  cases branches
  rfl

/-- Canonical tries with the same words are equal. -/
theorem eq_of_contains {t u : Trie} (ht : t.Canonical) (hu : u.Canonical)
    (same : ∀ w, t.contains w = u.contains w) : t = u := by
  have mark : t.terminal = u.terminal := same []
  have branches : t.branches = u.branches :=
    Branches.eq_of_contains ht hu (Branches.contains_unmarked same)
  exact eq_of_terminal_of_branches mark branches

/-- A path from which the same words go on leads to equal nodes. -/
theorem descend?_eq_of_contains {t u : Trie} (ht : t.Canonical) (hu : u.Canonical) {p : Text}
    (filled : p ≠ []) (same : ∀ w, t.contains (p ++ w) = u.contains (p ++ w)) :
    t.descend? p = u.descend? p := by
  have exist : (t.descend? p).isSome = true ↔ (u.descend? p).isSome = true := by
    rw [isSome_descend?_iff ht filled, isSome_descend?_iff hu filled]
    simp only [same]
  cases inT : t.descend? p with
  | none =>
      cases inU : u.descend? p with
      | none => rfl
      | some m => simp [inT, inU] at exist
  | some n =>
      cases inU : u.descend? p with
      | none => simp [inT, inU] at exist
      | some m =>
          apply congrArg some
          apply eq_of_contains (canonical_of_descend? ht inT) (canonical_of_descend? hu inU)
          intro w
          rw [← contains_append inT, ← contains_append inU, same]

/-- The entry of a character is told by the words that begin with it. -/
theorem child?_ofList_eq {ws vs : List Text} {c : Char}
    (same : ∀ w, c :: w ∈ ws ↔ c :: w ∈ vs) :
    (ofList ws).branches.child? c = (ofList vs).branches.child? c := by
  rw [← descend?_singleton, ← descend?_singleton]
  apply descend?_eq_of_contains (canonical_ofList ws) (canonical_ofList vs) (List.cons_ne_nil c [])
  intro w
  rw [Bool.eq_iff_iff, contains_ofList, contains_ofList]
  exact same w

theorem ofList_eq_ofList_iff {ws vs : List Text} :
    ofList ws = ofList vs ↔ ∀ w, w ∈ ws ↔ w ∈ vs := by
  constructor
  · intro same w
    rw [← contains_ofList ws, ← contains_ofList vs, same]
  · intro same
    apply eq_of_contains (canonical_ofList ws) (canonical_ofList vs)
    intro w
    rw [Bool.eq_iff_iff, contains_ofList, contains_ofList]
    exact same w

example : ofList ["if".toList, [], "on".toList] = ofList [[], "on".toList, "if".toList, []] := by
  decide

end Trie

end KeywordSwitch
