import KeywordSwitch.Proofs.KeywordSet.Faults

/-!
# Keyword sets from words

A list of keywords makes the set of its words in the order in which they occur first. Any
other list makes the fault of its first word that is no keyword: the words before it
count for its position, and the words after it do not matter.

The words of a set make the same set again, so a set is never faulty and each set is
made from some list.
-/

namespace KeywordSwitch

/-- The words `kept` are those of the list, each once, in the order in which they occur first. -/
structure IsFirstOccurrences (ws kept : List Text) : Prop where
  nodup : kept.Nodup
  mem_iff (w : Text) : w ∈ kept ↔ w ∈ ws
  ordered : kept.Pairwise fun v w => ws.idxOf v < ws.idxOf w

theorem isFirstOccurrences_eraseDups (ws : List Text) : IsFirstOccurrences ws ws.eraseDups where
  nodup := by
    apply (pairwise_idxOf_eraseDups ws).imp
    rintro v _ before rfl
    exact Nat.lt_irrefl _ before
  mem_iff _ := List.mem_eraseDups
  ordered := pairwise_idxOf_eraseDups ws

/-- Nothing is dropped from a list of distinct words. -/
theorem eraseDups_of_nodup {ws : List Text} (distinct : ws.Nodup) : ws.eraseDups = ws := by
  induction ws using List.reverseRecOn with
  | nil => rfl
  | append_singleton ws w ih =>
      obtain ⟨distinct, -, apart⟩ := List.nodup_append.mp distinct
      have new : w ∉ ws := fun old => apart w old w (List.mem_singleton_self w) rfl
      rw [eraseDups_concat, if_neg new, ih distinct]

namespace KeywordSet

/-- What a list of words makes. -/
inductive Makes (ws : List Text) : Except KeywordError KeywordSet → Prop where
  /-- All words are keywords, and they make the set of their first occurrences. -/
  | set {s : KeywordSet} (keywords : ∀ w ∈ ws, IsKeyword w)
      (firsts : IsFirstOccurrences ws s.words) : Makes ws (.ok s)
  /-- The first word that is no keyword has no characters. -/
  | empty {before after : List Text} (parts : ws = before ++ [] :: after)
      (keywords : ∀ v ∈ before, IsKeyword v) : Makes ws (.error (.empty before.length))
  /-- The first word that is no keyword holds a character that no keyword may hold. -/
  | invalid {before after : List Text} {w : Text} {c : Char} (parts : ws = before ++ w :: after)
      (keywords : ∀ v ∈ before, IsKeyword v) (filled : w ≠ []) (offence : IsFirstOffence w c) :
      Makes ws (.error (.invalid w c))

theorem makes_ofList (ws : List Text) : Makes ws (ofList ws) := by
  by_cases keywords : ∀ w ∈ ws, IsKeyword w
  · obtain ⟨s, made, words⟩ := ofList_of_forall_isKeyword keywords
    rw [made]
    refine .set keywords ?_
    rw [words]
    exact isFirstOccurrences_eraseDups ws
  · obtain ⟨before, w, after, parts, keywords, faulty⟩ :=
      exists_first_of_not_forall_isKeyword keywords
    obtain ⟨e, fault⟩ := Option.ne_none_iff_exists'.mp (mt fault?_eq_none_iff.mp faulty)
    have made : ofList ws = .error e := by
      rw [parts]
      exact ofList_of_fault keywords fault
    rw [made]
    obtain ⟨rfl, rfl⟩ | ⟨filled, c, offence, rfl⟩ := fault?_eq_some_iff.mp fault
    · exact .empty parts keywords
    · exact .invalid parts keywords filled offence

/-- The words of a set make this set. -/
theorem ofList_words (s : KeywordSet) : ofList s.words = .ok s := by
  obtain ⟨t, made, words⟩ := ofList_of_forall_isKeyword s.isKeyword
  rw [eraseDups_of_nodup s.nodup] at words
  rw [made, ext words]

/-- A list of words makes the set of its first occurrences, or the fault of its first word that is
no keyword. The words of a set are distinct keywords and make the set again. -/
theorem ofList_makes_firstOccurrences :
    (∀ ws : List Text, Makes ws (ofList ws)) ∧
      ∀ s : KeywordSet, s.words.Nodup ∧ (∀ w ∈ s.words, IsKeyword w) ∧ ofList s.words = .ok s :=
  ⟨makes_ofList, fun s => ⟨s.nodup, s.isKeyword, ofList_words s⟩⟩

example : ofList ["if".toList, "on".toList, "if".toList, "a-b".toList, [], "c d".toList] =
    .error (.invalid "a-b".toList '-') := by decide

end KeywordSet

end KeywordSwitch
