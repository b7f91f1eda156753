import KeywordSwitch.KeywordSet.Basic
import KeywordSwitch.Proofs.Switch.Peeking

/-!
# Word characters in bytes

A switch sees the bytes of an input, and a character that is not ASCII becomes bytes
that are not ASCII either. So the bytes begin with the same word characters as the
input itself, and a word stands at their start exactly if the input begins with it.
-/

namespace KeywordSwitch

/-- Word characters are ASCII. -/
theorem toNat_lt_of_isWordChar {c : Char} (h : isWordChar c = true) : c.toNat < 128 := by
  rw [isWordChar, Bool.or_eq_true, decide_eq_true_eq] at h
  rcases h with h | rfl
  · change ((decide (c.val ≥ 'A'.val ∧ c.val ≤ 'Z'.val) ||
      (decide (c.val ≥ 'a'.val) && decide (c.val ≤ 'z'.val))) ||
      (decide (c.val ≥ '0'.val) && decide (c.val ≤ '9'.val))) = true at h
    simp only [Bool.or_eq_true, Bool.and_eq_true, decide_eq_true_eq, ge_iff_le,
      UInt32.le_iff_toNat_le] at h
    change ((65 ≤ c.toNat ∧ c.toNat ≤ 90) ∨ (97 ≤ c.toNat ∧ c.toNat ≤ 122)) ∨
      (48 ≤ c.toNat ∧ c.toNat ≤ 57) at h
    omega
  · decide

/-- What holds of the word characters among the ASCII characters holds of all word characters. -/
theorem of_isWordChar (P : Char → Prop)
    (ascii : ∀ n < 128, isWordChar (Char.ofNat n) = true → P (Char.ofNat n)) {c : Char}
    (word : isWordChar c = true) : P c := by
  have holds := ascii c.toNat (toNat_lt_of_isWordChar word)
  rw [Char.ofNat_toNat] at holds
  exact holds word

namespace Text

/-- A word character between apostrophes is shown as it is. -/
theorem quotedChar_of_isWordChar {c : Char} (word : isWordChar c = true) :
    quotedChar c = ['\'', c, '\''] :=
  of_isWordChar (fun c => quotedChar c = ['\'', c, '\'']) (by decide +kernel) word

theorem bytes_cons_of_ascii {c : Char} (ascii : c.toNat < 128) (t : Text) :
    bytes (c :: t) = c :: bytes t := by
  have encoded : String.utf8EncodeChar c = [UInt8.ofNat c.toNat] := by
    have small : c.val.toNat ≤ 127 := Nat.le_of_lt_succ ascii
    rw [String.utf8EncodeChar]
    exact if_pos small
  have decoded : Char.ofUInt8 (UInt8.ofNat c.toNat) = c := by
    apply Char.ext
    apply UInt32.toNat_inj.mp
    change (UInt8.ofNat c.toNat).toUInt32.toNat = c.toNat
    rw [UInt8.toNat_toUInt32, UInt8.toNat_ofNat']
    omega
  rw [bytes, utf8_cons, encoded, ofLatin1, List.map_append, List.map_singleton, decoded]
  rfl

/-- The first byte of a character that is not ASCII is not ASCII. -/
theorem bytes_cons_of_not_ascii {c : Char} (other : 128 ≤ c.toNat) (t : Text) :
    ∃ d rest, bytes (c :: t) = d :: rest ∧ 128 ≤ d.toNat := by
  have encoded : ∃ n more, String.utf8EncodeChar c = UInt8.ofNat n :: more ∧
      128 ≤ n ∧ n < 256 := by
    have large : ¬ c.val.toNat ≤ 127 := Nat.not_le_of_lt other
    rw [String.utf8EncodeChar]
    split
    · contradiction
    · split
      · exact ⟨_, _, rfl, by omega, by omega⟩
      · split
        · exact ⟨_, _, rfl, by omega, by omega⟩
        · exact ⟨_, _, rfl, by omega, by omega⟩
  obtain ⟨n, more, encoded, lower, upper⟩ := encoded
  refine ⟨Char.ofUInt8 (UInt8.ofNat n), ofLatin1 more ++ bytes t, ?_, ?_⟩
  · rw [bytes, utf8_cons, encoded, ofLatin1, List.map_append]
    rfl
  · change 128 ≤ (UInt8.ofNat n).toUInt32.toNat
    rw [UInt8.toNat_toUInt32, UInt8.toNat_ofNat']
    omega

/-- The bytes of an input begin with the word characters that the input begins with. -/
theorem takeWhile_bytes (input : Text) :
    (bytes input).takeWhile isWordChar = input.takeWhile isWordChar := by
  induction input with
  | nil => rfl
  | cons c t ih =>
      by_cases ascii : c.toNat < 128
      · rw [bytes_cons_of_ascii ascii, List.takeWhile_cons, List.takeWhile_cons, ih]
      · obtain ⟨d, rest, hBytes, high⟩ := bytes_cons_of_not_ascii (Nat.le_of_not_lt ascii) t
        have hc : ¬ isWordChar c = true := fun h => ascii (toNat_lt_of_isWordChar h)
        have hd : ¬ isWordChar d = true := fun h =>
          Nat.not_lt_of_le high (toNat_lt_of_isWordChar h)
        rw [hBytes, List.takeWhile_cons_of_neg hd, List.takeWhile_cons_of_neg hc]

theorem prefix_takeWhile_iff {w t : Text} (hw : ∀ c ∈ w, isWordChar c = true) :
    w <+: t.takeWhile isWordChar ↔ w <+: t := by
  constructor
  · intro h
    exact h.trans (List.takeWhile_prefix isWordChar)
  · rintro ⟨rest, rfl⟩
    rw [List.takeWhile_append_of_pos hw]
    exact List.prefix_append w _

/-- A word that no word character follows is all that the text begins with. -/
theorem takeWhile_eq_of_prefix {w t : Text} (hw : ∀ c ∈ w, isWordChar c = true) (h : w <+: t)
    (stops : ∀ c ∈ t[w.length]?, isWordChar c = false) : t.takeWhile isWordChar = w := by
  obtain ⟨rest, rfl⟩ := h
  rw [List.takeWhile_append_of_pos hw]
  cases rest with
  | nil => exact List.append_nil w
  | cons c rest =>
      have last : isWordChar c = false := stops c (by simp)
      rw [List.takeWhile_cons_of_neg (by simp [last]), List.append_nil]

/-- No word character follows the word characters that a text begins with. -/
theorem getElem?_length_takeWhile (t : Text) :
    ∀ c ∈ t[(t.takeWhile isWordChar).length]?, isWordChar c = false := by
  induction t with
  | nil => simp
  | cons d t ih =>
      by_cases word : isWordChar d = true
      · simpa [List.takeWhile_cons, word] using ih
      · simp [word]

/-- Words hold no NUL, so they do not reach past the end of a text. -/
theorem standsAt_zero_iff {w t : Text} (hw : ∀ c ∈ w, isWordChar c = true) :
    w.StandsAt t 0 ↔ w <+: t := by
  rw [List.prefix_iff_getElem?]
  constructor
  · intro stands i h
    have here := stands i h
    rw [Nat.zero_add, List.getD_eq_getElem?_getD] at here
    cases hi : t[i]? with
    | some c => rw [hi] at here; exact congrArg some here
    | none =>
        rw [hi, Option.getD_none] at here
        have nul := hw w[i] (List.getElem_mem h)
        rw [← here] at nul
        exact absurd nul (by decide)
  · intro begins i h
    rw [Nat.zero_add, List.getD_eq_getElem?_getD, begins i h, Option.getD_some]

/-- A word stands at the start of the bytes exactly if the input begins with it. -/
theorem standsAt_bytes_iff {w input : Text} (hw : ∀ c ∈ w, isWordChar c = true) :
    w.StandsAt (bytes input) 0 ↔ w <+: input := by
  rw [standsAt_zero_iff hw, ← prefix_takeWhile_iff hw, takeWhile_bytes, prefix_takeWhile_iff hw]

end Text

end KeywordSwitch
