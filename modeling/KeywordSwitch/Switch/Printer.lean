import KeywordSwitch.Style
import KeywordSwitch.Switch.Code

/-!
# Writing switches

Code is indented with one tab for each block around it. A branch is written as one
`if` whose tests stand on a line each, the tests after the first one indented once
more. An `otherwise` part that is a single branch again continues the chain as
`else if`; any other one that is not empty stands in an `else` block.
-/

namespace KeywordSwitch

/-- `n` tabs. -/
def tabs (n : Nat) : Text :=
  List.replicate n '\t'

/-- The lines of a block at depth `d` around the given lines. -/
def braced (d : Nat) (body : List Text) : List Text :=
  (tabs d ++ ['{']) :: body ++ [tabs d ++ ['}']]

namespace Style

/-- The comparison that a test makes. -/
def test (s : Style) : Cond → Text
  | .peek c => s.peekChar ++ " == '".toList ++ [c, '\'']
  | .peekNext c => s.peekNextChar ++ " == '".toList ++ [c, '\'']

/-- The statement that assigns a token. -/
def assignment (s : Style) (token : Text) : Text :=
  s.tokenTarget ++ " = ".toList ++ s.tokenPrefix ++ token ++ [';']

/-- The lines of the tests after the first one; the last of them closes the condition. -/
def furtherTests (s : Style) (d : Nat) : List Cond → List Text
  | [] => []
  | cond :: conds =>
      (tabs (d + 1) ++ "&& ".toList ++ s.test cond ++ (if conds.isEmpty then [')'] else [])) ::
        s.furtherTests d conds

/-- The lines of a condition at depth `d`; `lead` stands before the `if`. -/
def condition (s : Style) (d : Nat) (lead : Text) : List Cond → List Text
  | [] => []
  | cond :: conds =>
      (tabs d ++ lead ++ "if (".toList ++ s.test cond ++ (if conds.isEmpty then [')'] else [])) ::
        s.furtherTests d conds

/-- The lines of a statement list at depth `d`; `lead` stands before the `if` of a branch that
comes first. -/
def lines (s : Style) (d : Nat) (lead : Text) : Code → List Text
  | .done => []
  | .advance next => (tabs d ++ s.advance) :: s.lines d [] next
  | .assign token next => (tabs d ++ s.assignment token) :: s.lines d [] next
  | .block body next => braced d (s.lines (d + 1) [] body) ++ s.lines d [] next
  | .branch conds matched otherwise next =>
      s.condition d lead conds ++ braced d (s.lines (d + 1) [] matched) ++
        (if otherwise.isDone then []
        else if otherwise.isBranch then s.lines d "else ".toList otherwise
        else (tabs d ++ "else".toList) :: braced d (s.lines (d + 1) [] otherwise)) ++
        s.lines d [] next

/-- The lines of a case, from its label to the empty line after it. -/
def caseLines (s : Style) (k : Case) : List Text :=
  ("case '".toList ++ k.label :: "':".toList) :: s.lines 1 [] k.code ++
    ["\tbreak;".toList, []]

/-- The lines of all cases of a switch. -/
def switchLines (s : Style) (w : Switch) : List Text :=
  w.flatMap s.caseLines

end Style

end KeywordSwitch
