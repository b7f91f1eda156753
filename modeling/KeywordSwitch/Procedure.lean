import KeywordSwitch.Files.Tree
import KeywordSwitch.Log

/-!
# Procedures

A procedure reads and writes files, prints text and reports events. It is a value:
the actions are its constructors, and each action that has an answer is followed
by one procedure for each answer. Running it on a file tree gives all its effects
as values, and a program performs the same actions on the files of the system.

## Implementation notes

A file is written by creating it and then adding to its end. Creating a file either
fails without an effect or leaves an empty file, whatever was there before.
-/

namespace KeywordSwitch

/-- The actions to take in turn, and the value at the end. -/
inductive Procedure (α : Type) where
  /-- Ends with a value. -/
  | done (value : α)
  /-- Reports an event. -/
  | note (event : Event) (next : Procedure α)
  /-- Prints a text to the standard output. -/
  | print (text : Text) (next : Procedure α)
  /-- Reads the file at a path. -/
  | read (path : Text) (next : Except FileError (List UInt8) → Procedure α)
  /-- Makes the file at a path an empty one. -/
  | create (path : Text) (next : Except FileError Unit → Procedure α)
  /-- Adds bytes at the end of the file at a path. -/
  | append (path : Text) (bytes : List UInt8) (next : Except FileError Unit → Procedure α)

/-- What a procedure has done. -/
structure Report (α : Type) where
  /-- The value at the end. -/
  value : α
  /-- The events reported, in order. -/
  events : List Event
  /-- All text printed. -/
  printed : Text
  /-- The file tree afterwards. -/
  tree : FileTree

namespace Procedure

variable {α β : Type}

/-- Takes the actions of a procedure, and then those that its value asks for. -/
def bind : Procedure α → (α → Procedure β) → Procedure β
  | done value, f => f value
  | note event next, f => note event (next.bind f)
  | print text next, f => print text (next.bind f)
  | read path next, f => read path fun answer => (next answer).bind f
  | create path next, f => create path fun answer => (next answer).bind f
  | append path bytes next, f => append path bytes fun answer => (next answer).bind f

instance : Monad Procedure where
  pure := done
  bind := bind

/-- Reports events in turn. -/
def notes (events : List Event) (next : Procedure α) : Procedure α :=
  events.foldr note next

/-- Reads the text of the file at a path. -/
def readText (path : Text) : Procedure (Except FileError Text) :=
  .read path fun
    | .error e => .done (.error e)
    | .ok bytes =>
        match Text.ofUtf8? bytes with
        | some text => .done (.ok text)
        | none => .done (.error .notUtf8)

/-- Adds each line and a line feed after it to the end of the file at a path, up to the first
failure. -/
def appendLines (path : Text) : List Text → Procedure (Except FileError Unit)
  | [] => .done (.ok ())
  | line :: lines =>
      .append path (Text.utf8 (line ++ ['\n'])) fun
        | .error e => .done (.error e)
        | .ok () => appendLines path lines

/-- The effects of a procedure on a file tree. -/
def run : Procedure α → FileTree → Report α
  | done value, t => ⟨value, [], [], t⟩
  | note event next, t =>
      let rest := next.run t
      { rest with events := event :: rest.events }
  | print text next, t =>
      let rest := next.run t
      { rest with printed := text ++ rest.printed }
  | read path next, t => (next (t.read path)).run t
  | create path next, t =>
      match t.create path with
      | .error e => (next (.error e)).run t
      | .ok t => (next (.ok ())).run t
  | append path bytes next, t =>
      match t.append path bytes with
      | .error e => (next (.error e)).run t
      | .ok t => (next (.ok ())).run t

/-- What two procedures do in turn: the second starts on the tree that the first leaves. -/
theorem run_bind (p : Procedure α) (f : α → Procedure β) (t : FileTree) :
    (p.bind f).run t =
      { value := ((f (p.run t).value).run (p.run t).tree).value
        events := (p.run t).events ++ ((f (p.run t).value).run (p.run t).tree).events
        printed := (p.run t).printed ++ ((f (p.run t).value).run (p.run t).tree).printed
        tree := ((f (p.run t).value).run (p.run t).tree).tree } := by
  induction p generalizing t with
  | done value => rfl
  | note event next ih => simp [bind, run, ih]
  | print text next ih => simp [bind, run, ih]
  | read path next ih => exact ih (t.read path) t
  | create path next ih =>
      simp only [bind, run]
      cases t.create path with
      | error e => exact ih (.error e) t
      | ok t => exact ih (.ok ()) t
  | append path bytes next ih =>
      simp only [bind, run]
      cases t.append path bytes with
      | error e => exact ih (.error e) t
      | ok t => exact ih (.ok ()) t

end Procedure

end KeywordSwitch
