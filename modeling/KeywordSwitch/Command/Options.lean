import KeywordSwitch.Style

/-!
# Command line options

Five options take a value and one is a flag. A short option can be joined with its
value, with or without an equals sign between them, and short flags can be joined
with a short option after them. A value of its own argument must not look like an
option. No option may be given twice, and there are no positional arguments.
-/

namespace KeywordSwitch.Command

/-- The options that take a value. -/
inductive Key where
  /-- The keyword list to read. -/
  | keywords
  /-- The directory to write the two files to. -/
  | outputDir
  /-- The name of the two files. -/
  | name
  /-- The macro of the declarations. -/
  | macroName
  /-- What stands before a keyword in the name of its token. -/
  | tokenPrefix
deriving DecidableEq, Repr

namespace Key

/-- All options that take a value. -/
def all : List Key :=
  [keywords, outputDir, name, macroName, tokenPrefix]

/-- The letter of an option. -/
def short : Key → Char
  | keywords => 'k'
  | outputDir => 'o'
  | name => 'n'
  | macroName => 'm'
  | tokenPrefix => 't'

/-- The long form of an option, without its hyphens. -/
def long : Key → Text
  | keywords => "keywords".toList
  | outputDir => "output-dir".toList
  | name => "name".toList
  | macroName => "macro-name".toList
  | tokenPrefix => "token-prefix".toList

/-- Whether the value is a path, which must not be empty. -/
def isPath : Key → Bool
  | keywords | outputDir => true
  | _ => false

end Key

/-- The options given. -/
structure Options where
  /-- The keyword list, or `none` for the built-in keywords. -/
  keywords : Option Text := none
  /-- The directory of the generated files, or `none` for the standard output. -/
  outputDir : Option Text := none
  /-- The name of the generated files. -/
  name : Option Text := none
  /-- The macro of the declarations. -/
  macroName : Option Text := none
  /-- What stands before a keyword in the name of its token. -/
  tokenPrefix : Option Text := none
  /-- Whether main steps are logged, with the outline of the trie. -/
  debug : Bool := false
deriving DecidableEq, Repr

/-- What is wrong with a command line. -/
inductive UsageError where
  /-- There is no such option. -/
  | unknownOption (arg : Text)
  /-- The option needs a value and has none. -/
  | missingValue (key : Key)
  /-- The option has been given before. -/
  | repeated (long : Text)
  /-- A path is empty. -/
  | emptyPath (key : Key)
  /-- The flag takes no value. -/
  | flagWithValue (long : Text)
  /-- No argument may stand here. -/
  | positional (arg : Text)
deriving DecidableEq, Repr

/-- The wording of a usage error. -/
def UsageError.message : UsageError → Text
  | .unknownOption arg => "unknown option ".toList ++ arg
  | .missingValue key => "missing value for --".toList ++ key.long
  | .repeated long => "repeated option --".toList ++ long
  | .emptyPath key => "empty value for --".toList ++ key.long
  | .flagWithValue long => "no value expected for --".toList ++ long
  | .positional arg => "unexpected argument ".toList ++ arg

/-- Why a command line asks for no run. -/
inductive Stop where
  /-- It asks for help. -/
  | help
  /-- It is wrong. -/
  | misuse (error : UsageError)
deriving DecidableEq, Repr

namespace Options

/-- The value given for an option. -/
def get? (o : Options) : Key → Option Text
  | .keywords => o.keywords
  | .outputDir => o.outputDir
  | .name => o.name
  | .macroName => o.macroName
  | .tokenPrefix => o.tokenPrefix

/-- Gives an option its value. -/
def set (o : Options) (key : Key) (value : Text) : Except Stop Options :=
  if (o.get? key).isSome then .error (.misuse (.repeated key.long))
  else if key.isPath && value.isEmpty then .error (.misuse (.emptyPath key))
  else .ok <|
    match key with
    | .keywords => { o with keywords := some value }
    | .outputDir => { o with outputDir := some value }
    | .name => { o with name := some value }
    | .macroName => { o with macroName := some value }
    | .tokenPrefix => { o with tokenPrefix := some value }

/-- Sets the flag. -/
def setDebug (o : Options) : Except Stop Options :=
  if o.debug then .error (.misuse (.repeated "debug".toList)) else .ok { o with debug := true }

/-- Reads the letters of a short argument; the option returned still waits for its value. -/
def readShort (o : Options) : Text → Except Stop (Options × Option Key)
  | [] => .ok (o, none)
  | c :: rest =>
      if c = 'h' then .error .help
      else if c = 'd' then do (← o.setDebug).readShort rest
      else
        match Key.all.find? (·.short = c) with
        | none => .error (.misuse (.unknownOption ['-', c]))
        | some key =>
            match rest with
            | [] => .ok (o, some key)
            | '=' :: value => do return (← o.set key value, none)
            | value => do return (← o.set key value, none)

/-- Reads a long argument without its hyphens; the option returned still waits for its value. -/
def readLong (o : Options) (arg : Text) : Except Stop (Options × Option Key) :=
  let long := arg.takeWhile (· ≠ '=')
  let value? := (arg.dropWhile (· ≠ '=')).tail?
  if long = "help".toList then
    if value?.isSome then .error (.misuse (.flagWithValue long)) else .error .help
  else if long = "debug".toList then
    if value?.isSome then .error (.misuse (.flagWithValue long))
    else do return (← o.setDebug, none)
  else
    match Key.all.find? (·.long = long), value? with
    | none, _ => .error (.misuse (.unknownOption ("--".toList ++ arg)))
    | some key, none => .ok (o, some key)
    | some key, some value => do return (← o.set key value, none)

/-- Reads an argument that is no value. -/
def readArg (o : Options) : Text → Except Stop (Options × Option Key)
  | '-' :: '-' :: arg => o.readLong arg
  | '-' :: c :: arg => o.readShort (c :: arg)
  | arg => .error (.misuse (.positional arg))

/-- Whether an argument is read as an option; a single hyphen is not. -/
def looksLikeOption (arg : Text) : Bool :=
  arg.head? = some '-' && arg ≠ ['-']

/-- Reads the arguments from left to right; `pending` waits for its value. -/
def readFrom (o : Options) (pending : Option Key) : List Text → Except Stop Options
  | [] =>
      match pending with
      | none => .ok o
      | some key => .error (.misuse (.missingValue key))
  | arg :: args =>
      match pending with
      | some key =>
          if looksLikeOption arg then .error (.misuse (.missingValue key))
          else do (← o.set key arg).readFrom none args
      | none =>
          if arg = ['-', '-'] then
            match args with
            | [] => .ok o
            | arg :: _ => .error (.misuse (.positional arg))
          else do
            let (o, pending) ← o.readArg arg
            o.readFrom pending args

/-- The options that a command line gives, or why it asks for no run. -/
def parse (args : List Text) : Except Stop Options :=
  readFrom {} none args

/-- The default style with the words that the options choose. -/
def style (o : Options) : Style :=
  let base : Style := {}
  { base with
    macroName := o.macroName.getD base.macroName
    tokenPrefix := o.tokenPrefix.getD base.tokenPrefix }

/-- The name of the generated files. -/
def outputName (o : Options) : Text :=
  o.name.getD "keywords".toList

end Options

end KeywordSwitch.Command
