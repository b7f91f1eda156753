import KeywordSwitch.Proofs.Switch.KeptLines
import Mathlib.Data.List.Basic

/-!
# Readable styles

A style is readable if it leaves the cursor operations as they are and its lines
cannot be taken for others. The lines of tests and assignments in such a style are
kept as they are, and an assignment is neither of the other statements.
-/

namespace KeywordSwitch

/-- The text before the first occurrence of a mark may be anything without its first character. -/
theorem Text.after?_append {a : Char} {t : Text} (h : a ∉ t) (mark rest : Text) :
    after? (a :: mark) (t ++ (a :: mark ++ rest)) = some rest := by
  induction t with
  | nil =>
      have here : (a :: mark).isPrefixOf? (a :: mark ++ rest) = some rest :=
        List.isPrefixOf?_eq_some_iff_append_eq.mpr rfl
      rw [List.nil_append, List.cons_append, after?, ← List.cons_append, here, Option.some_or]
  | cons c t ih =>
      rw [List.mem_cons, not_or] at h
      rw [List.cons_append, after?, ih h.2]
      have other : (a :: mark).isPrefixOf? (c :: (t ++ (a :: mark ++ rest))) = none := by
        simp [List.isPrefixOf?, h.1]
      rw [other, Option.none_or]

namespace Style

/-- The style keeps the cursor operations, its token variable is a word that starts no comment, and
its banner is a comment. -/
structure Readable (s : Style) : Prop where
  peekChar : s.peekChar = ({} : Style).peekChar
  peekNextChar : s.peekNextChar = ({} : Style).peekNextChar
  advance : s.advance = ({} : Style).advance
  target_ne_nil : s.tokenTarget ≠ []
  target_not_blank : ∀ c ∈ s.tokenTarget, Text.isBlank c = false
  target_not_comment : "//".toList.isPrefixOf s.tokenTarget = false
  banner : ∀ line ∈ s.banner, line.trim = [] ∨ "//".toList.isPrefixOf line.trim = true

instance (s : Style) : Decidable s.Readable :=
  decidable_of_iff
    (s.peekChar = ({} : Style).peekChar ∧ s.peekNextChar = ({} : Style).peekNextChar ∧
      s.advance = ({} : Style).advance ∧ s.tokenTarget ≠ [] ∧
      s.tokenTarget.any Text.isBlank = false ∧ "//".toList.isPrefixOf s.tokenTarget = false ∧
      ∀ line ∈ s.banner, line.trim = [] ∨ "//".toList.isPrefixOf line.trim = true)
    ⟨fun ⟨peek, next, advance, filled, notBlank, notComment, banner⟩ =>
        ⟨peek, next, advance, filled, by simpa using notBlank, notComment, banner⟩,
      fun h => ⟨h.peekChar, h.peekNextChar, h.advance, h.target_ne_nil,
        by simpa using h.target_not_blank, h.target_not_comment, h.banner⟩⟩

/-- The lines of a box around a comment are comments. -/
theorem isPrefixOf_trim_boxed {title : Text} (h : "//".toList.isPrefixOf title = true) :
    ∀ line ∈ boxed title, "//".toList.isPrefixOf line.trim = true := by
  have edge : "//".toList.isPrefixOf boxEdge = true := by decide
  have gap : "//".toList.isPrefixOf boxGap = true := by decide
  have comments : ∀ line ∈ boxed title, "//".toList.isPrefixOf line = true := by
    simp only [boxed, List.forall_mem_cons, edge, gap, h]
    simp
  intro line mem
  exact Text.isPrefixOf_trim (comments line mem)

/-- A style that chooses nothing but the prefix of its tokens is readable. -/
theorem readable_of_tokenPrefix (pre : Text) : ({ tokenPrefix := pre } : Style).Readable := by
  have noBlank : ({} : Style).tokenTarget.any Text.isBlank = false := by decide
  have default : ({} : Style).Readable := by
    refine ⟨rfl, rfl, rfl, by decide, ?_, by decide, ?_⟩
    · intro c mem
      exact eq_false_of_ne_true (List.any_eq_false.mp noBlank c mem)
    · intro line mem
      exact Or.inr (isPrefixOf_trim_boxed (by decide) line mem)
  exact { default with }

/-- The token of a word: the prefix of the style and the word, less the semicolons at the end. -/
def token (s : Style) (w : Text) : Text :=
  Text.dropEndWhile (· = ';') (s.tokenPrefix ++ w)

/-- The line of a test, without its indentation; `last` tells whether it closes the condition. -/
def testLine (s : Style) (lead : Text) (cond : Cond) (last : Bool) : Text :=
  lead ++ s.test cond ++ if last then [')'] else []

theorem head?_testLine (s : Style) {lead : Text} {c : Char} (hHead : lead.head? = some c)
    (cond : Cond) (last : Bool) : (s.testLine lead cond last).head? = some c := by
  rw [testLine, List.append_assoc, List.head?_append, hHead, Option.some_or]

theorem condition_cons (s : Style) (d : Nat) (lead : Text) (cond : Cond) (conds : List Cond) :
    s.condition d lead (cond :: conds) =
      (tabs d ++ s.testLine (lead ++ "if (".toList) cond conds.isEmpty) ::
        s.furtherTests d conds := by
  simp only [condition, testLine, List.append_assoc]

theorem furtherTests_cons (s : Style) (d : Nat) (cond : Cond) (conds : List Cond) :
    s.furtherTests d (cond :: conds) =
      (tabs (d + 1) ++ s.testLine "&& ".toList cond conds.isEmpty) :: s.furtherTests d conds := by
  simp only [furtherTests, testLine, List.append_assoc]

/-- The token variable of a readable style holds no space. -/
theorem Readable.space_not_mem {s : Style} (hs : s.Readable) : ' ' ∉ s.tokenTarget := by
  intro mem
  exact absurd (hs.target_not_blank ' ' mem) (by decide)

theorem after?_assignment {s : Style} (hs : s.Readable) (word : Text) :
    Text.after? " = ".toList (s.assignment word) = some (s.tokenPrefix ++ word ++ [';']) := by
  simp only [assignment, List.append_assoc]
  exact Text.after?_append hs.space_not_mem "= ".toList _

/-- The first space of an assignment stands before its equals sign. -/
theorem dropWhile_assignment {s : Style} (hs : s.Readable) (word : Text) :
    (s.assignment word).dropWhile (· ≠ ' ') =
      " = ".toList ++ (s.tokenPrefix ++ word ++ [';']) := by
  have noSpace : ∀ c ∈ s.tokenTarget, decide (c ≠ ' ') = true := by
    intro c mem
    rw [decide_eq_true_eq]
    rintro rfl
    exact hs.space_not_mem mem
  simp only [assignment, List.append_assoc]
  rw [List.dropWhile_append_of_pos noSpace]
  rfl

/-- A line without a space is no assignment. -/
theorem assignment_ne (s : Style) (word : Text) {line : Text} (noSpace : ' ' ∉ line) :
    s.assignment word ≠ line := by
  rintro rfl
  apply noSpace
  simp [assignment]

/-- An assignment does not begin with a text that has something else than an equals sign after its
first space. -/
theorem isPrefixOf_assignment {s : Style} (hs : s.Readable) (word : Text) {t : Text} {c : Char}
    (gap : [' ', c] <+: t.dropWhile (· ≠ ' ')) (other : c ≠ '=') :
    t.isPrefixOf (s.assignment word) = false := by
  rw [Bool.eq_false_iff, ne_eq, List.isPrefixOf_iff_prefix]
  rintro ⟨rest, h⟩
  have filled : (t.dropWhile (· ≠ ' ')).isEmpty = false := by
    obtain ⟨more, hMore⟩ := gap
    rw [← hMore]
    rfl
  have whole := dropWhile_assignment hs word
  rw [← h, List.dropWhile_append, filled, if_neg Bool.false_ne_true] at whole
  have begins := gap.trans (List.prefix_append _ rest)
  rw [whole] at begins
  have same : [' ', c] <+: ' ' :: '=' :: ' ' :: (s.tokenPrefix ++ word ++ [';']) := begins
  rw [List.cons_prefix_cons, List.cons_prefix_cons] at same
  exact other same.2.1

end Style

namespace Switch

variable {s : Style}

/-- A line is kept if its first character neither is blank nor starts a comment and its last
character is not blank. -/
theorem isKept_of_ends {line : Text} {c d : Char} (hHead : line.head? = some c)
    (hFirst : Text.isBlank c = false ∧ c ≠ '/') (hEnds : [d] <:+ line)
    (hLast : Text.isBlank d = false) : IsKept line := by
  refine ⟨Text.trim_eq_self ?_ ?_, ?_, ?_⟩
  · rw [hHead]
    rintro _ ⟨⟩
    exact hFirst.1
  · obtain ⟨init, rfl⟩ := hEnds
    rw [List.getLast?_concat]
    rintro _ ⟨⟩
    exact hLast
  · rintro rfl
    simp at hHead
  · obtain ⟨rest, rfl⟩ := List.head?_eq_some_iff.mp hHead
    have other : ('/' == c) = false := by simpa using Ne.symm hFirst.2
    change ('/' == c && _) = false
    rw [other, Bool.false_and]

theorem isKept_testLine (lead : Text) {a : Char} (hHead : lead.head? = some a)
    (hFirst : Text.isBlank a = false ∧ a ≠ '/') (cond : Cond) (last : Bool) :
    IsKept (s.testLine lead cond last) := by
  have head : (s.testLine lead cond last).head? = some a := by
    rw [Style.testLine, List.append_assoc, List.head?_append, hHead, Option.some_or]
  cases last with
  | true => exact isKept_of_ends head hFirst ⟨lead ++ s.test cond, rfl⟩ (by decide)
  | false =>
      have quote : ['\''] <:+ s.test cond := by
        cases cond with
        | peek c => exact ⟨s.peekChar ++ " == '".toList ++ [c], by simp [Style.test]⟩
        | peekNext c => exact ⟨s.peekNextChar ++ " == '".toList ++ [c], by simp [Style.test]⟩
      refine isKept_of_ends head hFirst ?_ (d := '\'') (by decide)
      rw [Style.testLine, if_neg (by decide), List.append_nil]
      exact quote.trans (List.suffix_append lead _)

theorem isKept_assignment (hs : s.Readable) (word : Text) : IsKept (s.assignment word) := by
  have noComment := hs.target_not_comment
  have notBlank := hs.target_not_blank
  obtain ⟨a, target, hTarget⟩ := List.exists_cons_of_ne_nil hs.target_ne_nil
  rw [hTarget] at noComment notBlank
  have hLine : s.assignment word =
      a :: (target ++ " = ".toList ++ s.tokenPrefix ++ word ++ [';']) := by
    rw [Style.assignment, hTarget]
    rfl
  rw [hLine]
  refine ⟨Text.trim_eq_self ?_ ?_, List.cons_ne_nil _ _, ?_⟩
  · rintro _ ⟨⟩
    exact notBlank a List.mem_cons_self
  · rw [← List.cons_append, List.getLast?_concat]
    rintro _ ⟨⟩
    decide
  · -- A comment would need a second character, which is the target's own or the space after it.
    cases target with
    | nil => exact Bool.and_false _
    | cons b target => exact noComment

end Switch

end KeywordSwitch
