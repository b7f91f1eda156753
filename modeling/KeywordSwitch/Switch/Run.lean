import KeywordSwitch.Switch.Code

/-!
# Running switches

A switch runs on the bytes of an input, each taken as the character of the same
number. Past the end of the input stand NUL characters without end, so a test is
never out of range and a switch may consume more than the input holds.
-/

namespace KeywordSwitch

/-- A place in an input, and how far the characters after it have been peeked. -/
structure Cursor where
  /-- The whole input, one character a byte. -/
  input : Text
  /-- The number of characters consumed. -/
  pos : Nat
  /-- The distance from `pos` to the last character peeked. -/
  peeked : Nat
deriving DecidableEq, Repr

namespace Cursor

/-- The cursor at the start of an input. -/
def start (input : Text) : Cursor :=
  ⟨input, 0, 0⟩

/-- The character at an index of the input, NUL past its end. -/
def charAt (k : Cursor) (i : Nat) : Char :=
  k.input.getD i '\x00'

/-- Consumes the current character and all characters peeked. -/
def advance (k : Cursor) : Cursor :=
  { k with pos := k.pos + (k.peeked + 1), peeked := 0 }

/-- The cursor after a test: the first kind clears the peek offset, the second moves it on. -/
def look (k : Cursor) : Cond → Cursor
  | .peek _ => { k with peeked := 0 }
  | .peekNext _ => { k with peeked := k.peeked + 1 }

/-- The character that a test sees, which is the one at the peek offset after the test. -/
def seen (k : Cursor) (cond : Cond) : Char :=
  (k.look cond).charAt ((k.look cond).pos + (k.look cond).peeked)

/-- Whether all tests hold in turn, and the cursor after the last test made; the first test that
fails is the last one made. -/
def tests (k : Cursor) : List Cond → Bool × Cursor
  | [] => (true, k)
  | cond :: conds =>
      if k.seen cond = cond.char then (k.look cond).tests conds else (false, k.look cond)

end Cursor

/-- What a run has done: the tokens assigned, in order, and the characters consumed. -/
structure Outcome where
  /-- The tokens of all assignments made. -/
  tokens : List Text
  /-- The number of characters consumed. -/
  consumed : Nat
deriving DecidableEq, Repr

/-- The tokens that a statement list assigns, and the cursor after it. -/
def Code.exec : Code → Cursor → List Text × Cursor
  | done, k => ([], k)
  | advance next, k => next.exec k.advance
  | assign token next, k => (token :: (next.exec k).1, (next.exec k).2)
  | block body next, k =>
      let inner := body.exec k
      let after := next.exec inner.2
      (inner.1 ++ after.1, after.2)
  | branch conds matched otherwise next, k =>
      let tested := k.tests conds
      let taken := if tested.1 then matched.exec tested.2 else otherwise.exec tested.2
      let after := next.exec taken.2
      (taken.1 ++ after.1, after.2)

namespace Switch

/-- Runs the first case whose label is the character at the cursor. -/
def exec (w : Switch) (k : Cursor) : List Text × Cursor :=
  match w.find? (fun c => c.label = k.charAt k.pos) with
  | some c => c.code.exec k
  | none => ([], k)

/-- Runs a switch on an input from its first byte. -/
def run (w : Switch) (input : Text) : Outcome :=
  let result := w.exec (.start (Text.ofLatin1 (Text.utf8 input)))
  ⟨result.1, result.2.pos⟩

end Switch

end KeywordSwitch
