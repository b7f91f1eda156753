import KeywordSwitch.Text.Basic

/-!
# Paths

A path is a text of components separated by slashes. Joining does not normalise,
so a message shows a path the way it was given.
-/

namespace KeywordSwitch.Path

/-- Whether a path starts at the root. -/
def isAbsolute (path : Text) : Bool :=
  path.head? = some '/'

/-- The path of `name` seen from the directory `dir`; an absolute name stands for itself. -/
def join (dir name : Text) : Text :=
  if isAbsolute name then name
  else if dir = [] ∨ dir.getLast? = some '/' then dir ++ name
  else dir ++ '/' :: name

/-- The components of a path, empty ones included. -/
def components (path : Text) : List Text :=
  path.splitOn '/'

end KeywordSwitch.Path
