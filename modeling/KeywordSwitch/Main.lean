import KeywordSwitch.Command.Run

/-!
# The program

Takes the actions of the command on the files of the system. Log records go to the
standard error, one line each.
-/

namespace KeywordSwitch

/-- The cause of a failed file operation. -/
def FileError.ofSystem : IO.Error → FileError
  | .noFileOrDirectory .. => .notFound
  | .inappropriateType _ code details =>
      if code = 20 then .notDirectory
      else if code = 21 then .isDirectory
      else .other details.toList
  | .invalidArgument _ code details =>
      if code = 36 then .nameTooLong else .other details.toList
  | e => .other e.toString.toList

/-- The result of a file operation, or the cause of its failure. -/
def attempt {α : Type} (operation : IO α) : IO (Except FileError α) :=
  try
    return .ok (← operation)
  catch e => return .error (.ofSystem e)

/-- Takes the actions of a procedure; `max` tells which events are logged. -/
def Procedure.perform {α : Type} (max : Option Level) : Procedure α → IO α
  | .done value => pure value
  | .note event next => do
      if max.any event.isKept then
        IO.eprintln (String.ofList (event.level.name ++ ' ' :: event.text))
      next.perform max
  | .print text next => do
      IO.print (String.ofList text)
      next.perform max
  | .read path next => do
      let answer ← attempt (IO.FS.readBinFile (String.ofList path))
      (next (answer.map (·.toList))).perform max
  | .create path next => do
      let answer ← attempt (IO.FS.writeBinFile (String.ofList path) ByteArray.empty)
      (next answer).perform max
  | .append path bytes next => do
      let answer ← attempt do
        let handle ← IO.FS.Handle.mk (String.ofList path) .append
        handle.write ⟨bytes.toArray⟩
      (next answer).perform max

end KeywordSwitch

/-- Runs the command with the given arguments. -/
def main (args : List String) : IO UInt32 := do
  let args := args.map String.toList
  let exit ← (KeywordSwitch.Command.execute args).perform (KeywordSwitch.Command.logLevel args)
  IO.eprint (String.ofList exit.complaint)
  return exit.code.toUInt32
