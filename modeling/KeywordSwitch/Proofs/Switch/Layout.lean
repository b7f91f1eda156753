import KeywordSwitch.Proofs.Switch.ReadableStyle

/-!
# The layout of written code

A line of written code is told by its indentation, by how it begins, and by whether it
ends with a bracket. In the default style all three follow from the code alone, and in
every style the number of lines does.

## Implementation notes

The layout has one equation for each constructor, as the printer has. What is shown of the
lines of code is shown of its layout, where no text stands in the way.
-/

namespace KeywordSwitch

/-- What a line of written code is. -/
inductive LineKind where
  /-- The first test of a condition, which stands after `else` if it is chained. -/
  | head (chained : Bool)
  /-- A later test of a condition. -/
  | further
  /-- An `else` without a condition. -/
  | otherwise
  /-- An opening brace. -/
  | opening
  /-- A closing brace. -/
  | closing
  /-- Any other line. -/
  | plain
deriving DecidableEq, Repr

namespace LineKind

/-- The kind of a line without its indentation. -/
def ofText (line : Text) : LineKind :=
  if "if (".toList.isPrefixOf line then head false
  else if "else if (".toList.isPrefixOf line then head true
  else if "&& ".toList.isPrefixOf line then further
  else if line = "else".toList then otherwise
  else if line = ['{'] then opening
  else if line = ['}'] then closing
  else plain

/-- Whether the line holds the first test of a condition. -/
def isHead : LineKind → Bool
  | head _ => true
  | _ => false

/-- A line that begins as none of the other kinds do is plain. -/
theorem ofText_eq_plain {line : Text} {c : Char} (hHead : line.head? = some c)
    (hFirst : c ∉ ['i', 'e', '&', '{', '}']) : ofText line = plain := by
  obtain ⟨line, rfl⟩ := List.head?_eq_some_iff.mp hHead
  simp only [List.mem_cons, List.not_mem_nil, or_false, not_or] at hFirst
  obtain ⟨notI, notE, notAnd, notOpening, notClosing⟩ := hFirst
  simp [ofText, List.isPrefixOf, Ne.symm notI, Ne.symm notE, Ne.symm notAnd, notE, notOpening,
    notClosing]

end LineKind

/-- A line of written code, without its text. -/
structure Line where
  /-- The number of tabs at its beginning. -/
  indent : Nat
  /-- What the line is. -/
  kind : LineKind
  /-- Whether it ends with a closing bracket. -/
  closes : Bool
deriving DecidableEq, Repr

namespace Line

/-- What a line of text shows. -/
def ofText (line : Text) : Line where
  indent := (line.takeWhile (· = '\t')).length
  kind := .ofText (line.dropWhile (· = '\t'))
  closes := line.getLast? = some ')'

theorem ofText_tabs {line : Text} {c : Char} (hHead : line.head? = some c) (hFirst : c ≠ '\t')
    (d : Nat) : ofText (tabs d ++ line) = ⟨d, .ofText line, line.getLast? = some ')'⟩ := by
  obtain ⟨line, rfl⟩ := List.head?_eq_some_iff.mp hHead
  have last : (tabs d ++ c :: line).getLast? = (c :: line).getLast? :=
    List.getLast?_append_of_ne_nil (tabs d) (List.cons_ne_nil c line)
  rw [ofText, List.takeWhile_append_of_pos isTab_of_mem_tabs,
    List.dropWhile_append_of_pos isTab_of_mem_tabs, List.takeWhile_cons_of_neg (by simpa using hFirst),
    List.dropWhile_cons_of_neg (by simpa using hFirst), List.append_nil, last, tabs,
    List.length_replicate]

theorem ofText_testLine {lead : Text} {c : Char} (hHead : lead.head? = some c) (hFirst : c ≠ '\t')
    (s : Style) (d : Nat) (cond : Cond) (last : Bool) :
    ofText (tabs d ++ s.testLine lead cond last) =
      ⟨d, .ofText (s.testLine lead cond last), last⟩ := by
  have ends : decide ((s.testLine lead cond last).getLast? = some ')') = last := by
    cases last with
    | true => simp [Style.testLine]
    | false => cases cond <;> simp [Style.testLine, Style.test]
  rw [ofText_tabs (s.head?_testLine hHead cond last) hFirst, ends]

example : ofText "\t\t&& PeekNextChar() == 'f')".toList = ⟨2, .further, true⟩ := by decide

end Line

/-- The layout of the tests after the first one. -/
def furtherLayout (d : Nat) : List Cond → List Line
  | [] => []
  | _ :: conds => ⟨d + 1, .further, conds.isEmpty⟩ :: furtherLayout d conds

/-- The layout of a condition. -/
def conditionLayout (d : Nat) (chained : Bool) : List Cond → List Line
  | [] => []
  | _ :: conds => ⟨d, .head chained, conds.isEmpty⟩ :: furtherLayout d conds

/-- The layout of a block around lines. -/
def bracedLayout (d : Nat) (body : List Line) : List Line :=
  ⟨d, .opening, false⟩ :: body ++ [⟨d, .closing, false⟩]

/-- The layout of a statement list at depth `d`, which begins after `else` if it is chained. -/
def Code.layout (d : Nat) (chained : Bool) : Code → List Line
  | done => []
  | advance next => ⟨d, .plain, false⟩ :: next.layout d false
  | assign _ next => ⟨d, .plain, false⟩ :: next.layout d false
  | block body next => bracedLayout d (body.layout (d + 1) false) ++ next.layout d false
  | branch conds matched otherwise next =>
      conditionLayout d chained conds ++ bracedLayout d (matched.layout (d + 1) false) ++
        (if otherwise.isDone then []
        else if otherwise.isBranch then otherwise.layout d true
        else ⟨d, .otherwise, false⟩ :: bracedLayout d (otherwise.layout (d + 1) false)) ++
        next.layout d false

namespace Style

/-- What stands before the `if` of a chained condition. -/
def chainLead (chained : Bool) : Text :=
  if chained then "else ".toList else []

theorem map_ofText_furtherTests (s : Style) (d : Nat) (conds : List Cond) :
    (s.furtherTests d conds).map Line.ofText = furtherLayout d conds := by
  induction conds with
  | nil => rfl
  | cons cond conds ih =>
      have kind : LineKind.ofText (s.testLine "&& ".toList cond conds.isEmpty) = .further := by
        simp [LineKind.ofText, testLine, List.isPrefixOf]
      rw [furtherTests_cons, List.map_cons, ih,
        Line.ofText_testLine (c := '&') rfl (by decide), kind, furtherLayout]

theorem map_ofText_condition (s : Style) (d : Nat) (chained : Bool) (conds : List Cond) :
    (s.condition d (chainLead chained) conds).map Line.ofText =
      conditionLayout d chained conds := by
  cases conds with
  | nil => rfl
  | cons cond conds =>
      rw [condition_cons, List.map_cons, map_ofText_furtherTests, conditionLayout]
      cases chained with
      | false =>
          have kind : LineKind.ofText (s.testLine (chainLead false ++ "if (".toList) cond
              conds.isEmpty) = .head false := by
            simp [LineKind.ofText, testLine, chainLead, List.isPrefixOf]
          rw [Line.ofText_testLine (c := 'i') rfl (by decide), kind]
      | true =>
          have kind : LineKind.ofText (s.testLine (chainLead true ++ "if (".toList) cond
              conds.isEmpty) = .head true := by
            simp [LineKind.ofText, testLine, chainLead, List.isPrefixOf]
          rw [Line.ofText_testLine (c := 'e') rfl (by decide), kind]

theorem map_ofText_braced (d : Nat) (body : List Text) :
    (braced d body).map Line.ofText = bracedLayout d (body.map Line.ofText) := by
  have opening : Line.ofText (tabs d ++ ['{']) = ⟨d, .opening, false⟩ :=
    Line.ofText_tabs (c := '{') rfl (by decide) d
  have closing : Line.ofText (tabs d ++ ['}']) = ⟨d, .closing, false⟩ :=
    Line.ofText_tabs (c := '}') rfl (by decide) d
  simp only [braced, bracedLayout, List.cons_append, List.map_cons, List.map_append, List.map_nil,
    opening, closing]

/-- The lines of code in the default style show the layout of the code. -/
theorem map_ofText_lines (d : Nat) (chained : Bool) (code : Code) :
    (({} : Style).lines d (chainLead chained) code).map Line.ofText = code.layout d chained := by
  induction code generalizing d chained with
  | done => rfl
  | advance next ih =>
      have statement : Line.ofText (tabs d ++ ({} : Style).advance) = ⟨d, .plain, false⟩ :=
        Line.ofText_tabs (c := 'A') rfl (by decide) d
      rw [lines, List.map_cons, statement]
      exact congrArg _ (ih d false)
  | assign token next ih =>
      have kind : LineKind.ofText (({} : Style).assignment token) = .plain :=
        LineKind.ofText_eq_plain (c := 't') rfl (by decide)
      have ends : (({} : Style).assignment token).getLast? = some ';' :=
        List.getLast?_concat
      have statement : Line.ofText (tabs d ++ ({} : Style).assignment token) =
          ⟨d, .plain, false⟩ := by
        rw [Line.ofText_tabs (c := 't') rfl (by decide), kind, ends]
        rfl
      rw [lines, List.map_cons, statement]
      exact congrArg _ (ih d false)
  | block body next ihBody ihNext =>
      have inner := ihBody (d + 1) false
      have after := ihNext d false
      simp only [chainLead, Bool.false_eq_true, if_false] at inner after
      rw [lines, List.map_append, map_ofText_braced, inner, after, Code.layout]
  | branch conds matched otherwise next ihMatched ihOtherwise ihNext =>
      have inner := ihMatched (d + 1) false
      have chain := ihOtherwise d true
      have guarded := ihOtherwise (d + 1) false
      have after := ihNext d false
      have elseLine : Line.ofText (tabs d ++ "else".toList) = ⟨d, .otherwise, false⟩ :=
        Line.ofText_tabs (c := 'e') rfl (by decide) d
      simp only [chainLead, Bool.false_eq_true, if_false, if_true] at inner chain guarded after
      simp only [lines, List.map_append, map_ofText_condition, map_ofText_braced, inner, after,
        apply_ite (List.map Line.ofText), List.map_nil, List.map_cons, elseLine, chain, guarded,
        Code.layout]

theorem length_furtherTests (s : Style) (d : Nat) (conds : List Cond) :
    (s.furtherTests d conds).length = (furtherLayout d conds).length := by
  rw [← map_ofText_furtherTests s, List.length_map]

/-- The number of lines of code is that of its layout, whatever the style. -/
theorem length_lines (s : Style) (d : Nat) (lead : Text) (chained : Bool) (code : Code) :
    (s.lines d lead code).length = (code.layout d chained).length := by
  induction code generalizing d lead chained with
  | done => rfl
  | advance next ih => simp only [lines, Code.layout, List.length_cons, ih d [] false]
  | assign token next ih => simp only [lines, Code.layout, List.length_cons, ih d [] false]
  | block body next ihBody ihNext =>
      simp only [lines, Code.layout, braced, bracedLayout, List.length_append, List.length_cons,
        List.length_nil, ihBody (d + 1) [] false, ihNext d [] false]
  | branch conds matched otherwise next ihMatched ihOtherwise ihNext =>
      have tests : (s.condition d lead conds).length =
          (conditionLayout d chained conds).length := by
        cases conds with
        | nil => rfl
        | cons cond conds =>
            simp only [condition, conditionLayout, List.length_cons, length_furtherTests]
      simp only [lines, Code.layout, braced, bracedLayout, List.length_append, List.length_cons,
        List.length_nil, tests, ihMatched (d + 1) [] false, ihNext d [] false,
        apply_ite List.length, ihOtherwise d "else ".toList true, ihOtherwise (d + 1) [] false]

end Style

end KeywordSwitch
