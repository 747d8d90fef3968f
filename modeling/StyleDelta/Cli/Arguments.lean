/-!
The command line: `compare` with two paths, and its options.

Arguments are read one by one. A path, or an option with a value in an argument
of its own, is taken up when its argument is read and counts only when the next
one is taken up or the line ends; its errors show no earlier. `--` ends the
options, and a lone `-` is a path.
-/

namespace StyleDelta.Cli

inductive Format where
  | text | json
  deriving DecidableEq, Repr

/-- What `compare` is asked to do. -/
structure Command where
  verbosity : Nat
  first : String
  second : String
  format : Format
  quiet : Bool
  deriving DecidableEq, Repr

/-- Why no command is run. -/
inductive UsageError where
  | help
  | noArguments
  | noSubcommand
  | unknownSubcommand
  | missingPath
  | unknownArgument
  | invalidValue
  | repeated
  | unwantedValue
  deriving DecidableEq, Repr

/-- An argument that is taken up and does not count yet. -/
inductive Pending where
  | path (text : String)
  /-- The format option; its value may be the next argument. -/
  | format (value : Option String)
  deriving DecidableEq, Repr

/-- What was read of the arguments of `compare`. -/
structure State where
  verbosity : Nat
  paths : List String
  format : Option Format
  quiet : Bool
  pending : Option Pending
  onlyPaths : Bool
  deriving DecidableEq, Repr

namespace State

def start : State := ⟨0, [], none, false, none, false⟩

/-- Counts are held in a byte. -/
def increase (count : Nat) : Nat := min (count + 1) 255

def setFormat (s : State) (value : String) : Except UsageError State :=
  if s.format.isSome then .error .repeated
  else if value = "text" then .ok { s with format := some .text }
  else if value = "json" then .ok { s with format := some .json }
  else .error .invalidValue

/-- Lets the pending argument count. -/
def settle (s : State) : Except UsageError State :=
  let settled := { s with pending := none }
  match s.pending with
  | none => .ok settled
  | some (.path text) =>
    if text.isEmpty then .error .invalidValue
    else .ok { settled with paths := s.paths ++ [text] }
  | some (.format none) => .error .invalidValue
  | some (.format (some value)) => settled.setFormat value

def setQuiet (s : State) : Except UsageError State :=
  if s.quiet then .error .repeated else .ok { s with quiet := true }

def addPath (s : State) (text : String) : Except UsageError State := do
  let taken := s.paths.length + (match s.pending with | some (.path _) => 1 | _ => 0)
  if 2 ≤ taken then .error .unknownArgument
  else return { ← s.settle with pending := some (.path text) }

/-- The letters of a group of short options. -/
def readLetters (s : State) : List Char → Except UsageError State
  | [] => .ok s
  | 'v' :: rest => do
    let s ← s.settle
    readLetters { s with verbosity := increase s.verbosity } rest
  | 'q' :: rest => do readLetters (← (← s.settle).setQuiet) rest
  | 'h' :: _ => do
    let _ ← s.settle
    .error .help
  | ['f'] => return { ← s.settle with pending := some (.format none) }
  | 'f' :: '=' :: value => do (← s.settle).setFormat (String.ofList value)
  | 'f' :: value => do (← s.settle).setFormat (String.ofList value)
  | _ => .error .unknownArgument

/-- The name of a long option, and its value after `=`. -/
def splitOption (text : List Char) : String × Option String :=
  let (name, rest) := text.span (· ≠ '=')
  (String.ofList name, match rest with
    | [] => none
    | _ :: value => some (String.ofList value))

def readLong (s : State) (text : List Char) : Except UsageError State := do
  let (name, value) := splitOption text
  if name = "format" then
    let s ← s.settle
    match value with
    | some value => s.setFormat value
    | none => return { s with pending := some (.format none) }
  else if name = "quiet" ∨ name = "verbose" ∨ name = "help" then
    if value.isSome then .error .unwantedValue
    else
      let s ← s.settle
      if name = "quiet" then s.setQuiet
      else if name = "verbose" then return { s with verbosity := increase s.verbosity }
      else .error .help
  else .error .unknownArgument

/-- An argument that is no option: the value of an option that waits for one, or
else a path. -/
def readPlain (s : State) (text : String) : Except UsageError State :=
  match s.pending with
  | some (.format none) => .ok { s with pending := some (.format (some text)) }
  | _ => s.addPath text

def read (s : State) (argument : String) : Except UsageError State :=
  if s.onlyPaths then s.addPath argument
  else if argument = "--" then .ok { s with onlyPaths := true }
  else match argument.toList with
    | '-' :: '-' :: text => s.readLong text
    | '-' :: letter :: letters => s.readLetters (letter :: letters)
    | _ => s.readPlain argument

end State

/-- The command of the arguments after `compare`. A count of `-v` among them
replaces the one before. -/
def readCompare (verbosity : Nat) (arguments : List String) : Except UsageError Command := do
  let s ← (← arguments.foldlM State.read State.start).settle
  match s.paths with
  | [first, second] =>
    return ⟨if s.verbosity = 0 then verbosity else s.verbosity, first, second,
      s.format.getD .text, s.quiet⟩
  | _ => .error .missingPath

/-- The letters of a group of short options before the subcommand. -/
def countLetters (verbosity : Nat) : List Char → Except UsageError Nat
  | [] => .ok verbosity
  | 'v' :: rest => countLetters (State.increase verbosity) rest
  | 'h' :: _ => .error .help
  | _ => .error .unknownArgument

/-- An option before the subcommand. -/
def countLong (verbosity : Nat) (text : List Char) : Except UsageError Nat :=
  let (name, value) := State.splitOption text
  if name = "verbose" ∨ name = "help" then
    if value.isSome then .error .unwantedValue
    else if name = "verbose" then .ok (State.increase verbosity)
    else .error .help
  else .error .unknownArgument

/-- The command of the arguments from the first one that is not counted yet. After
`--` no subcommand is looked for, and the name of one is a surplus argument. -/
def readFrom (verbosity : Nat) : List String → Except UsageError Command
  | [] => .error .noSubcommand
  | argument :: rest =>
    if argument = "--" then
      match rest with
      | [] => .error .noSubcommand
      | word :: _ =>
        if word = "compare" ∨ word = "help" then .error .unknownArgument
        else .error .unknownSubcommand
    else match argument.toList with
      | '-' :: '-' :: text => do readFrom (← countLong verbosity text) rest
      | '-' :: letter :: letters => do
        readFrom (← countLetters verbosity (letter :: letters)) rest
      | _ =>
        if argument = "compare" then readCompare verbosity rest
        else if argument = "help" ∧ (rest = [] ∨ rest = ["compare"] ∨ rest = ["help"]) then
          .error .help
        else .error .unknownSubcommand

/-- The command that a command line asks for. -/
def Command.ofArguments (arguments : List String) : Except UsageError Command :=
  if arguments = [] ∨ arguments = ["--"] then .error .noArguments else readFrom 0 arguments

end StyleDelta.Cli
