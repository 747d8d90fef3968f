import StyleDelta.Cli.Arguments
import StyleDelta.Input
import StyleDelta.Log.Filter
import StyleDelta.Log.Trace
import StyleDelta.Report

/-!
What the program does: it loads the two inputs of a command in their order,
compares them and reports. Status 0 says that they agree, 1 that they differ, and
2 that there was no comparison.
-/

namespace StyleDelta.Cli

/-- What the program can read: files, and the standard input under the name `-`. -/
structure Surroundings where
  file : String → Except ReadFailure ByteArray
  stdin : ByteArray

/-- What a run shows, with the events that a log may show. -/
structure Outcome where
  status : Nat
  stdout : String
  stderr : String
  events : List Log.Event
  deriving DecidableEq, Repr

inductive RunError where
  /-- Both inputs are the standard input. -/
  | twoStdin
  /-- An input, called by its role, could not be loaded. -/
  | unloaded (role : String) (error : LoadError)
  deriving DecidableEq, Repr

/-- Whether a path is a lone minus sign. Once a path has begun, empty parts and `.`
lead nowhere in it, so slashes and full stops may follow; a path that begins with
them leads to a file. -/
def isStdin (path : String) : Bool :=
  match path.toList.splitOn '/' with
  | ['-'] :: rest => rest.all fun part => part = [] || part = ['.']
  | _ => false

/-- The name of an input in messages. -/
def originOf (path : String) : String := if isStdin path then "<stdin>" else path

def load (around : Surroundings) (path : String) : Except LoadError Stylesheet :=
  if isStdin path then Stylesheet.ofBytes (originOf path) around.stdin
  else match around.file path with
    | .ok bytes => Stylesheet.ofBytes (originOf path) bytes
    | .error failure => .error (.unreadable (originOf path) failure)

/-- The error and what lies behind it, after the role of the input. -/
def RunError.message : RunError → String
  | .twoStdin => "only one of the two inputs can be read from stdin"
  | .unloaded role error =>
    ": ".intercalate ([role, error.message] ++ error.cause?.toList)

/-- A run without a comparison. -/
def Outcome.failed (events : List Log.Event) (error : RunError) : Outcome :=
  ⟨2, "", "Error: " ++ error.message ++ "\n", events⟩

def render (format : Format) (d : Difference) : String :=
  match format with
  | .text => d.text
  | .json => d.jsonText

/-- A run that compares two sheets. -/
def Outcome.compared (command : Command) (events : List Log.Event) (first second : Stylesheet) :
    Outcome :=
  let d := diff first second
  ⟨if d.changed then 1 else 0, if command.quiet then "" else render command.format d, "",
    events ++ Log.diffEvents first second⟩

def run (around : Surroundings) (command : Command) : Outcome :=
  if isStdin command.first && isStdin command.second then .failed [] .twoStdin
  else match load around command.first with
    | .error error => .failed [] (.unloaded "first stylesheet" error)
    | .ok first =>
      let events := [.loaded (originOf command.first) first.nodes.length]
      match load around command.second with
      | .error error => .failed events (.unloaded "second stylesheet" error)
      | .ok second =>
        .compared command
          (events ++ [.loaded (originOf command.second) second.nodes.length]) first second

/-- The filter of the log: the one that the environment asks for, if it is one,
and otherwise that of the verbosity. -/
def logFilter (environment : Option String) (verbosity : Nat) : Log.Filter :=
  (environment.bind Log.Filter.ofText?).getD (Log.Filter.ofVerbosity verbosity)

/-- The lines of the log. -/
def Outcome.logLines (outcome : Outcome) (filter : Log.Filter) : List String :=
  (outcome.events.filter filter.shows).map Log.Event.line

end StyleDelta.Cli
