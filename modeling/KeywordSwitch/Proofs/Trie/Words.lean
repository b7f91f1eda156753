import KeywordSwitch.Proofs.Trie.Canonical

/-!
# The words of a trie

A trie built by insertions contains exactly the inserted words. Its paths are the
prefixes of these words, and the words of the node at a path are what the words of
the trie have after that path.
-/

namespace KeywordSwitch.Trie

/-- Every level of the trie ascends, and every node but the top one has a word at or below it. -/
def Canonical (t : Trie) : Prop :=
  t.branches.Canonical

theorem canonical_empty : (∅ : Trie).Canonical := trivial

theorem Canonical.insert {t : Trie} (canonical : t.Canonical) (w : Text) :
    (t.insert w).Canonical :=
  Branches.canonical_insert canonical w

@[simp] theorem contains_nil (t : Trie) : t.contains [] = t.terminal := rfl

@[simp] theorem contains_cons (t : Trie) (c : Char) (w : Text) :
    t.contains (c :: w) = (t.branches.child? c).any (·.contains w) := by
  simp only [contains, descend?_cons]
  cases t.branches.child? c <;> rfl

/-- The mark of the node itself does not matter to a path from it. -/
theorem contains_of_ne_nil {w : Text} (hw : w ≠ []) (t : Trie) :
    t.contains w = (⟨false, t.branches⟩ : Trie).contains w := by
  obtain ⟨c, w, rfl⟩ := List.exists_cons_of_ne_nil hw
  rw [contains_cons, contains_cons]

@[simp] theorem not_contains_empty (w : Text) : (∅ : Trie).contains w = false := by
  cases w with
  | nil => rfl
  | cons c w => rw [contains_cons]; rfl

/-- Insertion adds the word and no other. -/
theorem contains_insert {t : Trie} (canonical : t.Canonical) (w v : Text) :
    (t.insert w).contains v = true ↔ v = w ∨ t.contains v = true := by
  induction w generalizing t v with
  | nil =>
      cases v with
      | nil => simp [Trie.insert]
      | cons c v => simp [Trie.insert]
  | cons d w ih =>
      cases v with
      | nil => simp [Trie.insert]
      | cons c v =>
          rw [contains_cons, contains_cons]
          change (((t.branches.insert (d :: w)).child? c).any (·.contains v)) = true ↔ _
          rw [Branches.child?_insert canonical]
          by_cases same : c = d
          · subst same
            rw [if_pos rfl, Option.any_some]
            cases h : t.branches.child? c with
            | none => simpa using ih canonical_empty v
            | some n => simpa using ih (Branches.canonical_of_child? canonical h).1 v
          · simp [same]

theorem canonical_foldl_insert {t : Trie} (canonical : t.Canonical) (ws : List Text) :
    (ws.foldl Trie.insert t).Canonical := by
  induction ws generalizing t with
  | nil => exact canonical
  | cons w ws ih => exact ih (canonical.insert w)

theorem contains_foldl_insert {t : Trie} (canonical : t.Canonical) (ws : List Text) (v : Text) :
    (ws.foldl Trie.insert t).contains v = true ↔ v ∈ ws ∨ t.contains v = true := by
  induction ws generalizing t with
  | nil => simp
  | cons w ws ih =>
      rw [List.foldl_cons, ih (canonical.insert w), contains_insert canonical, List.mem_cons,
        ← or_assoc, or_comm (a := v = w)]

theorem canonical_ofList (ws : List Text) : (ofList ws).Canonical :=
  canonical_foldl_insert canonical_empty ws

/-- The trie of a list contains the words of the list. -/
theorem contains_ofList (ws : List Text) (v : Text) :
    (ofList ws).contains v = true ↔ v ∈ ws := by
  rw [ofList, contains_foldl_insert canonical_empty]
  simp

theorem descend?_singleton (t : Trie) (c : Char) : t.descend? [c] = t.branches.child? c :=
  Option.bind_fun_some (t.branches.child? c)

/-- Two paths in turn lead where the joint path leads. -/
theorem descend?_append (t : Trie) (p q : Text) :
    t.descend? (p ++ q) = (t.descend? p).bind (·.descend? q) := by
  induction p generalizing t with
  | nil => rfl
  | cons c p ih =>
      simp only [List.cons_append, descend?_cons]
      cases t.branches.child? c with
      | none => rfl
      | some n => exact ih n

/-- The node at a path contains what the trie contains after the path. -/
theorem contains_append {t n : Trie} {p : Text} (h : t.descend? p = some n) (w : Text) :
    t.contains (p ++ w) = n.contains w := by
  rw [contains, descend?_append, h, Option.bind_some, contains]

theorem canonical_of_descend? {t n : Trie} (canonical : t.Canonical) {p : Text}
    (h : t.descend? p = some n) : n.Canonical := by
  induction p generalizing t with
  | nil => cases h; exact canonical
  | cons c p ih =>
      rw [descend?_cons, Option.bind_eq_some_iff] at h
      obtain ⟨m, hm, h⟩ := h
      exact ih (Branches.canonical_of_child? canonical hm).1 h

/-- A node that is marked or has entries has a word at or below it. -/
theorem exists_contains {t : Trie} (canonical : t.Canonical)
    (live : t.terminal = true ∨ t.branches ≠ .nil) : ∃ w, t.contains w = true := by
  obtain ⟨terminal, b⟩ := t
  induction b generalizing terminal with
  | nil => exact ⟨[], by simpa using live⟩
  | cons c marked below rest ihBelow _ =>
      obtain ⟨hBelow, -, -, liveBelow⟩ := canonical
      obtain ⟨w, hw⟩ := ihBelow marked hBelow liveBelow
      exact ⟨c :: w, by simpa [Branches.child?] using hw⟩

/-- No path ends at a dead end. -/
theorem live_of_descend? {t n : Trie} (canonical : t.Canonical) {p : Text} (hp : p ≠ [])
    (h : t.descend? p = some n) : n.terminal = true ∨ n.branches ≠ .nil := by
  obtain ⟨p, c, rfl⟩ := (List.eq_nil_or_concat p).resolve_left hp
  rw [List.concat_eq_append, descend?_append, Option.bind_eq_some_iff] at h
  obtain ⟨m, hm, h⟩ := h
  rw [descend?_cons, Option.bind_eq_some_iff] at h
  obtain ⟨m', hm', h⟩ := h
  cases h
  exact (Branches.canonical_of_child? (canonical_of_descend? canonical hm) hm').2

/-- The paths of a canonical trie are the non-empty beginnings of its words. -/
theorem isSome_descend?_iff {t : Trie} (canonical : t.Canonical) {p : Text} (hp : p ≠ []) :
    (t.descend? p).isSome = true ↔ ∃ w, t.contains (p ++ w) = true := by
  constructor
  · intro h
    obtain ⟨n, hn⟩ := Option.isSome_iff_exists.mp h
    obtain ⟨w, hw⟩ := exists_contains (canonical_of_descend? canonical hn)
      (live_of_descend? canonical hp hn)
    exact ⟨w, by rw [contains_append hn, hw]⟩
  · rintro ⟨w, hw⟩
    rw [contains, descend?_append] at hw
    cases h : t.descend? p with
    | none => simp [h] at hw
    | some n => rfl

/-- An entry of the node at a path goes on towards a word. -/
theorem isSome_child?_iff {t n : Trie} (canonical : t.Canonical) {p : Text}
    (h : t.descend? p = some n) (c : Char) :
    (n.branches.child? c).isSome = true ↔ ∃ w, t.contains (p ++ c :: w) = true := by
  have path := isSome_descend?_iff (canonical_of_descend? canonical h) (List.cons_ne_nil c [])
  rw [descend?_cons] at path
  simp only [contains_append h]
  cases hc : n.branches.child? c with
  | none => simp [hc]
  | some m => simpa [hc] using path

/-- The number of entries differs from one below an unmarked node exactly if two words go on
differently from there. -/
theorem length_children_ne_one_iff {t n : Trie} (canonical : t.Canonical) {p : Text} (hp : p ≠ [])
    (h : t.descend? p = some n) (unmarked : n.terminal = false) :
    n.children.length ≠ 1 ↔
      ∃ c d, c ≠ d ∧ (∃ v, t.contains (p ++ c :: v) = true) ∧
        ∃ w, t.contains (p ++ d :: w) = true := by
  have ascending := Branches.pairwise_chars (canonical_of_descend? canonical h)
  have mem_iff (c : Char) :
      c ∈ n.children.map Prod.fst ↔ ∃ v, t.contains (p ++ c :: v) = true :=
    Branches.mem_chars_iff.trans (isSome_child?_iff canonical h c)
  constructor
  · intro length
    have live := (live_of_descend? canonical hp h).resolve_left (by simp [unmarked])
    cases hb : n.branches with
    | nil => exact absurd hb live
    | cons c terminal below rest =>
        cases hr : rest with
        | nil => simp [children, hb, hr, Branches.toList] at length
        | cons d terminal' below' rest' =>
            rw [hb, hr] at ascending
            have different : c < d := by
              simp only [Branches.toList, List.map_cons, List.pairwise_cons] at ascending
              exact ascending.1 d List.mem_cons_self
            refine ⟨c, d, Char.ne_of_lt different, (mem_iff c).mp ?_, (mem_iff d).mp ?_⟩ <;>
              simp [children, hb, hr, Branches.toList]
  · rintro ⟨c, d, different, hc, hd⟩ length
    obtain ⟨entry, single⟩ := List.length_eq_one_iff.mp length
    have hc := (mem_iff c).mpr hc
    have hd := (mem_iff d).mpr hd
    rw [single, List.map_singleton, List.mem_singleton] at hc hd
    exact different (hc.trans hd.symm)

end KeywordSwitch.Trie
