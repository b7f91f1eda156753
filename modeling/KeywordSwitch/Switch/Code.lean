import KeywordSwitch.Text.Basic

/-!
# Switches over the characters ahead

A switch has one case for each first character. The code of a case tests further
characters, consumes them and assigns tokens.

## Implementation notes

A statement list is one inductive type, each constructor being a statement
together with the statements after it, so that a statement nested in a list and
the list itself recurse alike.
-/

namespace KeywordSwitch

/-- A test of one character ahead of the cursor. -/
inductive Cond where
  /-- The current character is `c`; the peek offset is cleared. -/
  | peek (c : Char)
  /-- The character after the last one peeked is `c`. -/
  | peekNext (c : Char)
deriving DecidableEq, Repr

namespace Cond

/-- The character that a test asks for. -/
def char : Cond → Char
  | peek c => c
  | peekNext c => c

/-- The tests that together ask for the characters of a text, from the cursor on. -/
def ofPath : Text → List Cond
  | [] => []
  | c :: path => peek c :: path.map peekNext

end Cond

/-- A list of statements. -/
inductive Code where
  /-- No statement is left. -/
  | done
  /-- Consumes the current character and all characters peeked. -/
  | advance (next : Code)
  /-- Assigns a token. -/
  | assign (token : Text) (next : Code)
  /-- Runs a nested list of statements. -/
  | block (body next : Code)
  /-- Runs `matched` if all tests hold in turn, and `otherwise` if one fails. -/
  | branch (conds : List Cond) (matched otherwise next : Code)
deriving DecidableEq, Repr

namespace Code

/-- The statements of the first list, then those of the second. -/
def append : Code → Code → Code
  | done, k => k
  | advance next, k => advance (next.append k)
  | assign token next, k => assign token (next.append k)
  | block body next, k => block body (next.append k)
  | branch conds matched otherwise next, k => branch conds matched otherwise (next.append k)

instance : Append Code := ⟨append⟩

/-- Whether there is no statement. -/
def isDone : Code → Bool
  | done => true
  | _ => false

/-- Whether the list is a single branch statement. -/
def isBranch : Code → Bool
  | branch _ _ _ done => true
  | _ => false

@[simp] theorem done_append (k : Code) : done ++ k = k := rfl

@[simp] theorem append_done (k : Code) : k ++ done = k := by
  change k.append done = k
  induction k <;> simp_all [append]

theorem append_assoc (first second third : Code) :
    first ++ second ++ third = first ++ (second ++ third) := by
  change (first.append second).append third = first.append (second.append third)
  induction first <;> simp_all [append]

end Code

/-- One case of a switch: the character it is for, and what it does. -/
structure Case where
  /-- The first character of the input. -/
  label : Char
  /-- The statements of the case. -/
  code : Code
deriving DecidableEq, Repr

/-- A switch is the list of its cases; the first case with a fitting label is the one that runs. -/
abbrev Switch := List Case

end KeywordSwitch
