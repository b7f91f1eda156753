import KeywordSwitch.Proofs.KeywordSet.Reading
import Mathlib.Data.List.Forall2
import Mathlib.Data.List.Infix
import Mathlib.Logic.Relation

/-!
# The layout of keyword lists

What is read depends on the entries of the lines, so it does not change if the lines are
put in another order, repeated, ended by carriage returns, or commented on, if blank lines
are added, or if the entries of a line without a comment are put in another order or on
lines of their own. Nor does it change by any number of such edits, done or undone.

## Implementation notes

An edit acts on the lines of the text, which are what stands between its line feeds. Two
hyphens never lie on both sides of a character other than a hyphen, so a comma between
two pieces keeps a comment from arising where they meet.
-/

namespace KeywordSwitch

namespace Text

variable {mark t first second : Text} {c : Char} {ps : List Text}

/-- A text without `c` cannot reach past `c` from the start of a text. -/
theorem prefix_append_cons_iff (outside : c ∉ mark) :
    mark <+: first ++ c :: second ↔ mark <+: first := by
  induction first generalizing mark with
  | nil =>
      cases mark with
      | nil => simp
      | cons m mark =>
          have other : m ≠ c := (List.ne_of_not_mem_cons outside).symm
          simp [List.cons_prefix_cons, other]
  | cons d first ih =>
      cases mark with
      | nil => simp
      | cons m mark =>
          rw [List.cons_append, List.cons_prefix_cons, List.cons_prefix_cons,
            ih (List.not_mem_of_not_mem_cons outside)]

/-- A text without `c` occurs on one side of `c`. -/
theorem infix_append_cons_iff (outside : c ∉ mark) :
    mark <:+: first ++ c :: second ↔ mark <:+: first ∨ mark <:+: second := by
  induction first with
  | nil =>
      have atStart : mark <+: [] ++ c :: second ↔ mark <+: [] := prefix_append_cons_iff outside
      rw [List.nil_append] at atStart ⊢
      rw [List.infix_cons_iff, atStart, List.prefix_nil, List.infix_nil]
  | cons d first ih =>
      have atStart : mark <+: d :: first ++ c :: second ↔ mark <+: d :: first :=
        prefix_append_cons_iff outside
      rw [List.cons_append] at atStart ⊢
      rw [List.infix_cons_iff, atStart, ih, List.infix_cons_iff, or_assoc]

/-- A text without `c` occurs within one of the texts that are joined by `c`. -/
theorem infix_intercalate_iff (outside : c ∉ mark) (filled : mark ≠ []) :
    mark <:+: [c].intercalate ps ↔ ∃ p ∈ ps, mark <:+: p := by
  induction ps with
  | nil => simpa using filled
  | cons p ps ih =>
      cases ps with
      | nil => simp
      | cons q ps =>
          rw [List.intercalate_cons_cons, List.append_assoc, List.singleton_append,
            infix_append_cons_iff outside, ih]
          exact (List.exists_mem_cons_iff (mark <:+: ·) p (q :: ps)).symm

theorem cutAt_of_not_isInfix (absent : ¬ mark <:+: t) : cutAt mark t = t := by
  induction t with
  | nil => rfl
  | cons c t ih =>
      rw [List.infix_cons_iff, not_or] at absent
      rw [cutAt_of_not_isPrefix absent.1, ih absent.2]

/-- What follows a character that the mark does not hold is looked at only if the mark does not
occur before it. -/
theorem cutAt_append_cons (outside : c ∉ mark) (filled : mark ≠ []) :
    cutAt mark (first ++ c :: second) =
      if mark <:+: first then cutAt mark first else first ++ c :: cutAt mark second := by
  induction first with
  | nil =>
      have atStart : mark <+: [] ++ c :: second ↔ mark <+: [] := prefix_append_cons_iff outside
      rw [List.nil_append, List.prefix_nil] at atStart
      rw [if_neg (mt List.infix_nil.mp filled), List.nil_append, List.nil_append,
        cutAt_of_not_isPrefix (mt atStart.mp filled)]
  | cons d first ih =>
      have atStart : mark <+: d :: first ++ c :: second ↔ mark <+: d :: first :=
        prefix_append_cons_iff outside
      rw [List.cons_append] at atStart ⊢
      by_cases starts : mark <+: d :: first
      · rw [if_pos starts.isInfix, cutAt_of_isPrefix (atStart.mpr starts), cutAt_of_isPrefix starts]
      · rw [cutAt_of_not_isPrefix (mt atStart.mp starts), ih]
        by_cases inside : mark <:+: first
        · have present : mark <:+: d :: first := List.infix_cons_iff.mpr (Or.inr inside)
          rw [if_pos inside, if_pos present, cutAt_of_not_isPrefix starts]
        · have absent : ¬ mark <:+: d :: first := by
            rw [List.infix_cons_iff, not_or]
            exact ⟨starts, inside⟩
          rw [if_neg inside, if_neg absent, List.cons_append]

end Text

namespace KeywordSet

/-- Commas and carriage returns separate the entries of a line. -/
def isLineSeparator (c : Char) : Bool :=
  c = ',' || c = '\r'

variable {line rest : Text} {lines lines' : List Text} {ps : List Text} {c : Char}

theorem lineEntries_eq_pieces (line : Text) :
    lineEntries line = pieces isLineSeparator (Text.cutAt "--".toList line) := rfl

/-- The entries of a line without a comment. -/
theorem lineEntries_of_not_isInfix (plain : ¬ "--".toList <:+: line) :
    lineEntries line = pieces isLineSeparator line := by
  rw [lineEntries_eq_pieces, Text.cutAt_of_not_isInfix plain]

/-- A character that belongs to no entry makes no difference at the end of a line, and neither does
a comment after it. -/
theorem lineEntries_append_cons (filler : IsFiller isLineSeparator c)
    (cut : Text.cutAt "--".toList rest = []) : lineEntries (line ++ c :: rest) = lineEntries line := by
  have outside : c ∉ "--".toList := by
    intro mem
    obtain rfl : c = '-' := by simpa using mem
    rcases filler with separator | blank
    · exact absurd separator (by decide)
    · exact absurd blank (by decide)
  rw [lineEntries_eq_pieces, lineEntries_eq_pieces, Text.cutAt_append_cons outside (by decide), cut]
  by_cases comment : "--".toList <:+: line
  · rw [if_pos comment]
  · rw [if_neg comment, Text.cutAt_of_not_isInfix comment, pieces_concat_of_isFiller filler]

theorem lineEntries_of_forall_isBlank (blank : ∀ c ∈ line, Text.isBlank c = true) :
    lineEntries line = [] := by
  have plain : ¬ "--".toList <:+: line := by
    intro comment
    have hyphen := blank '-' (comment.subset (by decide))
    exact absurd hyphen (by decide)
  rw [lineEntries_of_not_isInfix plain]
  exact pieces_of_fillers fun c mem => Or.inr (blank c mem)

/-- The entries of a line without a comment are those of the pieces between its commas. -/
theorem lineEntries_eq_flatMap (plain : ¬ "--".toList <:+: line) :
    lineEntries line = (line.splitOn ',').flatMap (pieces isLineSeparator) := by
  have comma : isLineSeparator ',' = true := rfl
  rw [lineEntries_of_not_isInfix plain, ← pieces_intercalate comma, List.intercalate_splitOn]

/-- Pieces between commas make a comment only if one of them holds a comment. -/
theorem comment_infix_iff :
    "--".toList <:+: line ↔ ∃ p ∈ line.splitOn ',', "--".toList <:+: p := by
  rw [← Text.infix_intercalate_iff (c := ',') (by decide) (by decide), List.intercalate_splitOn]

/-- One edit of the lines of a keyword list that leaves its entries as they are. -/
inductive LineEdit : List Text → List Text → Prop where
  /-- Some line feeds become a carriage return and a line feed. -/
  | addReturns {lines lines' : List Text} (last : Text)
      (each : List.Forall₂ (fun line line' => line' = line ∨ line' = line ++ ['\r']) lines lines') :
      LineEdit (lines ++ [last]) (lines' ++ [last])
  /-- The lines change their order. -/
  | reorder {lines lines' : List Text} (perm : lines.Perm lines') : LineEdit lines lines'
  /-- One of the lines is repeated somewhere. -/
  | repeatLine {before after : List Text} {line : Text} (mem : line ∈ before ++ after) :
      LineEdit (before ++ after) (before ++ line :: after)
  /-- A line without characters, or of blank characters, is added. -/
  | addBlank (before after : List Text) {line : Text} (blank : ∀ c ∈ line, Text.isBlank c = true) :
      LineEdit (before ++ after) (before ++ line :: after)
  /-- A comment is added at the end of a line, after a space. -/
  | addComment (before after : List Text) (line note : Text) :
      LineEdit (before ++ line :: after) (before ++ (line ++ " --".toList ++ note) :: after)
  /-- What stands between the commas of a line without a comment changes its order. -/
  | reorderPieces (before after : List Text) {line line' : Text} (plain : ¬ "--".toList <:+: line)
      (perm : (line.splitOn ',').Perm (line'.splitOn ',')) :
      LineEdit (before ++ line :: after) (before ++ line' :: after)
  /-- A comma of a line without a comment becomes a line feed. -/
  | breakAtComma (before after : List Text) {first second : Text}
      (plain : ¬ "--".toList <:+: first ++ ',' :: second) :
      LineEdit (before ++ (first ++ ',' :: second) :: after) (before ++ first :: second :: after)

variable {w : Text}

theorem flatMap_lineEntries_addReturns
    (each : List.Forall₂ (fun line line' => line' = line ∨ line' = line ++ ['\r']) lines lines') :
    lines'.flatMap lineEntries = lines.flatMap lineEntries := by
  induction each with
  | nil => rfl
  | cons here _ ih =>
      rw [List.flatMap_cons, List.flatMap_cons, ih]
      rcases here with rfl | rfl
      · rfl
      · rw [lineEntries_append_cons (Or.inl rfl) rfl]

/-- Within a line, the order of what stands between the commas makes no difference. -/
theorem mem_lineEntries_iff_of_perm {line' : Text} (plain : ¬ "--".toList <:+: line)
    (perm : (line.splitOn ',').Perm (line'.splitOn ',')) :
    w ∈ lineEntries line' ↔ w ∈ lineEntries line := by
  have plain' : ¬ "--".toList <:+: line' := by
    rw [comment_infix_iff] at plain ⊢
    simpa only [perm.mem_iff] using plain
  rw [lineEntries_eq_flatMap plain, lineEntries_eq_flatMap plain', List.mem_flatMap,
    List.mem_flatMap]
  simp only [perm.mem_iff]

/-- An edit of the lines keeps their entries. -/
theorem LineEdit.mem_iff (edit : LineEdit lines lines') :
    w ∈ lines'.flatMap lineEntries ↔ w ∈ lines.flatMap lineEntries := by
  cases edit with
  | addReturns last each =>
      rw [List.flatMap_append, List.flatMap_append, flatMap_lineEntries_addReturns each]
  | reorder perm =>
      simp only [List.mem_flatMap, perm.mem_iff]
  | @repeatLine before after line mem =>
      simp only [List.mem_flatMap, List.mem_append, List.mem_cons] at mem ⊢
      constructor
      · rintro ⟨l, inside | rfl | inside, entry⟩
        · exact ⟨l, Or.inl inside, entry⟩
        · exact ⟨l, mem, entry⟩
        · exact ⟨l, Or.inr inside, entry⟩
      · rintro ⟨l, inside | inside, entry⟩
        · exact ⟨l, Or.inl inside, entry⟩
        · exact ⟨l, Or.inr (Or.inr inside), entry⟩
  | addBlank before after blank =>
      rw [List.flatMap_append, List.flatMap_append, List.flatMap_cons,
        lineEntries_of_forall_isBlank blank, List.nil_append]
  | addComment before after line note =>
      have comment : lineEntries (line ++ " --".toList ++ note) = lineEntries line := by
        rw [List.append_assoc]
        exact lineEntries_append_cons (Or.inr rfl) (Text.cutAt_of_isPrefix (List.prefix_append _ note))
      rw [List.flatMap_append, List.flatMap_append, List.flatMap_cons, List.flatMap_cons, comment]
  | reorderPieces before after plain perm =>
      rw [List.flatMap_append, List.flatMap_append, List.flatMap_cons, List.flatMap_cons,
        List.mem_append, List.mem_append, List.mem_append, List.mem_append,
        mem_lineEntries_iff_of_perm plain perm]
  | @breakAtComma before after first second plain =>
      have apart : ¬ "--".toList <:+: first ∧ ¬ "--".toList <:+: second := by
        rwa [Text.infix_append_cons_iff (by decide), not_or] at plain
      have entries : lineEntries (first ++ ',' :: second) =
          lineEntries first ++ lineEntries second := by
        rw [lineEntries_of_not_isInfix plain, lineEntries_of_not_isInfix apart.1,
          lineEntries_of_not_isInfix apart.2, pieces_append_cons rfl]
      rw [List.flatMap_append, List.flatMap_append, List.flatMap_cons, List.flatMap_cons,
        List.flatMap_cons, entries, List.append_assoc]

/-- The text `text'` comes from `text` by one edit of the lines. -/
def Relaid (text text' : Text) : Prop :=
  LineEdit (text.splitOn '\n') (text'.splitOn '\n')

/-- Texts that come from each other by edits of the lines are read as the same. -/
theorem parse_eq_of_relaid {text text' : Text} (edits : Relation.EqvGen Relaid text text') :
    parse text = parse text' := by
  induction edits with
  | rel text text' edit =>
      apply parse_congr
      intro w
      rw [entries_eq_listed, entries_eq_listed]
      exact (LineEdit.mem_iff edit).symm
  | refl text => rfl
  | symm text text' _ ih => exact ih.symm
  | trans text text' text'' _ _ first second => exact first.trans second

end KeywordSet

end KeywordSwitch
