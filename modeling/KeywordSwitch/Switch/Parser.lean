import KeywordSwitch.Switch.Code
import KeywordSwitch.Text.Blank
import KeywordSwitch.Text.Quoted

/-!
# Reading switches

A switch is read line by line. Blank characters around a line, blank lines and
comment lines do not count; the lines that remain are the kept lines, and messages
count them from one.

## Implementation notes

The reader is an automaton with a stack. Its state holds what has been read, with
one level of the stack for each open statement list, and each kept line is one
step. So reading ends after the last line, and a rejection comes at the first line
that no continuation could make right.

After the closing brace of a branch the state is `closed`: only the next line
tells whether the branch goes on with `else`.
-/

namespace KeywordSwitch

namespace Switch

/-- The lines that count: trimmed, neither empty nor a comment. -/
def keptLines (lines : List Text) : List Text :=
  (lines.map Text.trim).filter fun line => line ≠ [] && !"//".toList.isPrefixOf line

/-- What is wrong with a line. -/
inductive Fault where
  /-- The lines end before the line that closes the innermost open statement list. -/
  | missing (terminator : Text)
  /-- The line is no statement. -/
  | notStatement
  /-- The line is no condition. -/
  | notCondition
  /-- The condition ends where its character should stand. -/
  | noCharacter
  /-- Something else than the end of a condition follows its character. -/
  | badTail
  /-- The line is no case label. -/
  | notLabel
  /-- Another line had to stand here. -/
  | expected (wanted : Text)
deriving DecidableEq, Repr

/-- Why a list of lines is no switch. -/
structure Rejection where
  /-- The number of the kept line at which reading ended, counted from one. -/
  line : Nat
  /-- What was found there: the line, the condition in it, or nothing past the end. -/
  found : Text
  /-- What is wrong with it. -/
  fault : Fault
deriving DecidableEq, Repr

/-- The wording of a rejection. -/
def Rejection.message (r : Rejection) : Text :=
  match r.fault with
  | .missing terminator => "missing ".toList ++ Text.quoted terminator
  | .notStatement =>
      "unexpected line ".toList ++ Text.decimal r.line ++ ": ".toList ++ Text.quoted r.found
  | .notCondition => "not a condition: ".toList ++ Text.quoted r.found
  | .noCharacter => "called `Option::unwrap()` on a `None` value".toList
  | .badTail => "bad condition tail: ".toList ++ Text.quoted r.found
  | .notLabel => "expected case label, got ".toList ++ Text.quoted r.found
  | .expected wanted =>
      "assertion `left == right` failed: line ".toList ++ Text.decimal r.line ++
        "\n  left: ".toList ++ Text.quoted r.found ++ "\n right: ".toList ++ Text.quoted wanted

/-- The character of a case label line. -/
def label? (line : Text) : Option Char := do
  let rest ← "case '".toList.isPrefixOf? line
  let chars ← "':".toList.isSuffixOf? rest
  chars.head?

/-- The test with its opening quote read, and whether the condition ends with it. -/
def condTail (test : Char → Cond) : Text → Except Fault (Cond × Bool)
  | [] => .error .noCharacter
  | c :: tail =>
      if tail = ['\''] then .ok (test c, false)
      else if tail = ['\'', ')'] then .ok (test c, true)
      else .error .badTail

/-- The test on a condition line, and whether the condition ends with it. -/
def cond (line : Text) : Except Fault (Cond × Bool) :=
  match "if (PeekChar() == '".toList.isPrefixOf? line with
  | some rest => condTail .peek rest
  | none =>
      match "&& PeekNextChar() == '".toList.isPrefixOf? line with
      | some rest => condTail .peekNext rest
      | none => .error .notCondition

/-- The branches of an `if` statement read so far, the latest first. -/
abbrev Chain := List (List Cond × Code)

/-- The statement of a chain of branches with the part after the last `else`. -/
def Chain.code (chain : Chain) (otherwise : Code) : Code :=
  chain.foldl (fun rest p => .branch p.1 p.2 rest .done) otherwise

/-- What a block belongs to. -/
inductive Owner where
  /-- A block statement. -/
  | block
  /-- The branch with these tests, after the earlier branches of its chain. -/
  | matched (chain : Chain) (conds : List Cond)
  /-- The `else` at the end of a chain. -/
  | otherwise (chain : Chain)
deriving DecidableEq, Repr

/-- The statement lists around the innermost one: at the bottom the case, above it each block with
the statements that stand before it. -/
inductive Stack where
  /-- Only the case with this label is open. -/
  | case (label : Char)
  /-- A block is open after the statements `before` of the list below it. -/
  | push (owner : Owner) (before : Code) (below : Stack)
deriving DecidableEq, Repr

/-- The line that closes the innermost open statement list. -/
def Stack.terminator : Stack → Text
  | .case _ => "break;".toList
  | .push .. => ['}']

/-- What may come next. -/
inductive State where
  /-- A case label, or the end. -/
  | label
  /-- A statement or the line that closes the innermost list, which holds `code` so far. -/
  | body (code : Code) (stack : Stack)
  /-- An `else` that continues the chain, or what `body` allows. -/
  | closed (chain : Chain) (before : Code) (stack : Stack)
  /-- One more test of the condition that `conds` belongs to. -/
  | condition (chain : Chain) (conds : List Cond) (before : Code) (stack : Stack)
  /-- The opening brace of a block. -/
  | opening (owner : Owner) (before : Code) (stack : Stack)
deriving DecidableEq, Repr

/-- What has been read: the finished cases, and the state within the open one. -/
structure Progress where
  /-- The finished cases, in order. -/
  cases : Switch
  /-- What may come next. -/
  state : State
deriving DecidableEq, Repr

/-- The state after one more test, given as the line or the part of a line that holds it. -/
def readCond (chain : Chain) (conds : List Cond) (before : Code) (stack : Stack) (line : Text) :
    Except (Text × Fault) State :=
  match cond line with
  | .error fault => .error (line, fault)
  | .ok (test, true) => .ok (.opening (.matched chain (conds ++ [test])) before stack)
  | .ok (test, false) => .ok (.condition chain (conds ++ [test]) before stack)

/-- The state after a line that starts a statement. -/
def readStatement (code : Code) (stack : Stack) (line : Text) : Except (Text × Fault) State :=
  if line = "AdvanceChars();".toList then .ok (.body (code ++ .advance .done) stack)
  else if line = ['{'] then .ok (.body .done (.push .block code stack))
  else if "if (".toList.isPrefixOf line then readCond [] [] code stack line
  else
    match Text.after? " = ".toList line with
    | some token =>
        .ok (.body (code ++ .assign (Text.dropEndWhile (· = ';') token) .done) stack)
    | none => .error (line, .notStatement)

/-- The progress after a line of a statement list: the line closes the list, or it is a statement. -/
def readBody (cases : Switch) (code : Code) (stack : Stack) (line : Text) :
    Except (Text × Fault) Progress :=
  if line = stack.terminator then
    match stack with
    | .case label => .ok ⟨cases ++ [⟨label, code⟩], .label⟩
    | .push .block before below => .ok ⟨cases, .body (before ++ .block code .done) below⟩
    | .push (.matched chain conds) before below =>
        .ok ⟨cases, .closed ((conds, code) :: chain) before below⟩
    | .push (.otherwise chain) before below =>
        .ok ⟨cases, .body (before ++ chain.code code) below⟩
  else (readStatement code stack line).map (⟨cases, ·⟩)

/-- The progress after one more kept line. -/
def step (p : Progress) (line : Text) : Except (Text × Fault) Progress :=
  match p.state with
  | .label =>
      match label? line with
      | some c => .ok ⟨p.cases, .body .done (.case c)⟩
      | none => .error (line, .notLabel)
  | .body code stack => readBody p.cases code stack line
  | .closed chain before stack =>
      if line = "else".toList then .ok ⟨p.cases, .opening (.otherwise chain) before stack⟩
      else if "else if (".toList.isPrefixOf line then
        (readCond chain [] before stack (line.drop "else ".length)).map (⟨p.cases, ·⟩)
      else readBody p.cases (before ++ chain.code .done) stack line
  | .condition chain conds before stack =>
      (readCond chain conds before stack line).map (⟨p.cases, ·⟩)
  | .opening owner before stack =>
      if line = ['{'] then .ok ⟨p.cases, .body .done (.push owner before stack)⟩
      else .error (line, .expected ['{'])

/-- The switch, if the lines may end here. -/
def finish (p : Progress) : Except (Text × Fault) Switch :=
  match p.state with
  | .label => .ok p.cases
  | .body _ stack => .error ([], .missing stack.terminator)
  | .closed _ _ stack => .error ([], .missing stack.terminator)
  | .condition .. => .error ([], .notCondition)
  | .opening .. => .error ([], .expected ['{'])

/-- Reads the kept lines from number `line` on. -/
def readFrom (line : Nat) (p : Progress) : List Text → Except Rejection Switch
  | [] => (finish p).mapError fun e => ⟨line, e.1, e.2⟩
  | text :: rest =>
      match step p text with
      | .error e => .error ⟨line, e.1, e.2⟩
      | .ok q => readFrom (line + 1) q rest

/-- Reads a switch from its lines. -/
def parse (lines : List Text) : Except Rejection Switch :=
  readFrom 1 ⟨[], .label⟩ (keptLines lines)

end Switch

end KeywordSwitch
