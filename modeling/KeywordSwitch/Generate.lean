import KeywordSwitch.Declaration
import KeywordSwitch.KeywordSet.Listing
import KeywordSwitch.Matcher
import KeywordSwitch.Procedure

/-!
# Generating the files of a keyword set

Generation writes two files into a directory: the declaration file, whose name ends
in `.hxx`, and then the matcher, whose name ends in `.inl`. Both are rendered from
the keyword set alone, so they do not depend on what the files held before. A file is
complete before the next one is created.
-/

namespace KeywordSwitch

/-- Why nothing, or not everything, has been generated. -/
inductive Failure where
  /-- The keyword list cannot be read. -/
  | unreadable (path : Text) (cause : FileError)
  /-- The keyword list holds a word that is no keyword. -/
  | invalidList (path : Text) (cause : KeywordError)
  /-- A word is no keyword, wherever it comes from. -/
  | invalidKeyword (cause : KeywordError)
  /-- An output file cannot be created. -/
  | uncreatable (path : Text) (cause : FileError)
  /-- An output file cannot be written to after it has been created. -/
  | unwritable (cause : FileError)
deriving DecidableEq, Repr

namespace Failure

/-- The innermost cause: a faulty keyword, or a failure to read or write a file. -/
def root : Failure → KeywordError ⊕ FileError
  | unreadable _ cause => .inr cause
  | invalidList _ cause => .inl cause
  | invalidKeyword cause => .inl cause
  | uncreatable _ cause => .inr cause
  | unwritable cause => .inr cause

/-- The wordings of a failure, from the outermost to the innermost cause. -/
def chain : Failure → List Text
  | unreadable path cause => ["can't read keyword list ".toList ++ path, cause.message]
  | invalidList path cause => ["invalid keyword list ".toList ++ path, cause.message]
  | invalidKeyword cause => [cause.message]
  | uncreatable path cause => ["can't create ".toList ++ path, cause.message]
  | unwritable cause => [cause.message]

/-- The outermost wording. -/
def message (f : Failure) : Text :=
  f.chain.headD []

end Failure

/-- Files and names of one generation. -/
structure Target where
  /-- The directory of the generated files. -/
  dir : Text
  /-- Their name without its ending. -/
  name : Text
deriving DecidableEq, Repr

namespace Target

/-- The path of the declaration file. -/
def declarationPath (g : Target) : Text :=
  Path.join g.dir (g.name ++ ".hxx".toList)

/-- The path of the matcher. -/
def matcherPath (g : Target) : Text :=
  Path.join g.dir (g.name ++ ".inl".toList)

end Target

/-- Creates the file at a path and writes lines to it; `events` are those of rendering the lines. -/
def writeFile (path : Text) (events : List Event) (lines : List Text) :
    Procedure (Except Failure Unit) :=
  .create path fun
    | .error e => .done (.error (.uncreatable path e))
    | .ok () => .notes events do
        match ← .appendLines path lines with
        | .error e => pure (.error (.unwritable e))
        | .ok () => .note (.wrote path) (.done (.ok ()))

/-- Writes the declaration file and the matcher of a keyword set; `outline` asks for a report of
the trie. -/
def writeOutputs (k : KeywordSet) (g : Target) (outline : Bool) (s : Style) :
    Procedure (Except Failure Unit) :=
  let t := k.trie
  .notes (.built k.size t.size t.children.length ::
      if outline then [.outlined t.outline] else []) do
    match ← writeFile g.declarationPath [] (s.declarationFile k) with
    | .error e => pure (.error e)
    | .ok () => writeFile g.matcherPath t.matcherEvents (s.matcher t)

/-- Writes the two files for the keyword list at `path`, in a chosen style. -/
def generateWith (path : Text) (g : Target) (outline : Bool) (s : Style) :
    Procedure (Except Failure Unit) := do
  match ← .readText path with
  | .error e => pure (.error (.unreadable path e))
  | .ok text =>
      match KeywordSet.parse text with
      | .error e => pure (.error (.invalidList path e))
      | .ok k => writeOutputs k g outline s

/-- Writes the two files for the keyword list at `path`, in the default style. -/
def generate (path : Text) (g : Target) (outline : Bool) : Procedure (Except Failure Unit) :=
  generateWith path g outline {}

end KeywordSwitch
