import KeywordSwitch.Command.Options
import KeywordSwitch.Generate
import KeywordSwitch.KeywordSet.Builtin

/-!
# The command

Without an output directory the command prints the declarations and the matcher one
after the other; with one it writes the two files there and prints nothing.
-/

namespace KeywordSwitch.Command

/-- The keyword set that the options choose. -/
def keywords (o : Options) : Procedure (Except Failure KeywordSet) :=
  match o.keywords with
  | none => pure (.ok .builtin)
  | some path => do
      match ← .readText path with
      | .error e => pure (.error (.unreadable path e))
      | .ok text => pure ((KeywordSet.parse text).mapError .invalidKeyword)

/-- Prints the declarations and the matcher of a keyword set. -/
def printAll (k : KeywordSet) (outline : Bool) (s : Style) : Procedure (Except Failure Unit) :=
  .notes (if outline then [.outlined k.trie.outline] else []) <|
    .print (Text.unlines (s.declarations k.words)) <|
      .notes k.trie.matcherEvents <|
        .print (Text.unlines (s.matcher k.trie)) <|
          .done (.ok ())

/-- Does what the options ask for. -/
def run (o : Options) : Procedure (Except Failure Unit) := do
  match ← keywords o with
  | .error e => pure (.error e)
  | .ok k =>
      match o.outputDir with
      | some dir => writeOutputs k ⟨dir, o.outputName⟩ o.debug o.style
      | none => printAll k o.debug o.style

/-- How a command has ended. -/
structure Exit where
  /-- The exit code. -/
  code : Nat
  /-- What is written to the standard error. -/
  complaint : Text
deriving DecidableEq, Repr

/-- The report of a failure: its outermost wording, and its cause in a paragraph of its own. -/
def report (f : Failure) : Text :=
  match f.chain with
  | [] => []
  | outer :: causes =>
      "Error: ".toList ++ outer ++ ['\n'] ++
        (if causes.isEmpty then []
        else "\nCaused by:\n".toList ++ Text.unlines (causes.map ("    ".toList ++ ·)))

/-- What a command line that asks for help gets. -/
def help : List Text :=
  ["Generate a trie-based keyword matcher".toList,
    [],
    "Options:".toList,
    "  -k, --keywords <PATH>        keyword list file (default: the built-in keywords)".toList,
    "  -o, --output-dir <PATH>      write the two files here instead of printing them".toList,
    "  -n, --name <NAME>            name of the two files (default: keywords)".toList,
    "  -m, --macro-name <NAME>      macro of the declarations".toList,
    "  -t, --token-prefix <TEXT>    start of each token name".toList,
    "  -d, --debug                  log the main steps and the trie".toList,
    "  -h, --help                   print this text".toList]

/-- Runs a command line to its end. -/
def execute (args : List Text) : Procedure Exit :=
  match Options.parse args with
  | .error .help => .print (Text.unlines help) (.done ⟨0, []⟩)
  | .error (.misuse e) => .done ⟨2, "error: ".toList ++ e.message ++ ['\n']⟩
  | .ok o => do
      match ← run o with
      | .error f => pure ⟨1, report f⟩
      | .ok () => pure ⟨0, []⟩

/-- The detail of the log that a command line asks for. -/
def logLevel (args : List Text) : Option Level :=
  match Options.parse args with
  | .ok o => if o.debug then some .debug else none
  | .error _ => none

end KeywordSwitch.Command
