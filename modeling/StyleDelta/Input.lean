import StyleDelta.Json.Reader
import StyleDelta.Sheet.OfJson

/-!
Stylesheets from files and other texts: the bytes are UTF-8, the text is JSON,
and the JSON is a stylesheet tree. Each step has errors of its own.
-/

namespace StyleDelta

/-- Why there is no text to read. -/
inductive ReadFailure where
  | notFound
  | isDirectory
  | notUtf8
  /-- Any other failure, in the words of the system. -/
  | other (text : String)
  deriving DecidableEq, Repr

def ReadFailure.message : ReadFailure → String
  | .notFound => "No such file or directory (os error 2)"
  | .isDirectory => "Is a directory (os error 21)"
  | .notUtf8 => "stream did not contain valid UTF-8"
  | .other text => text

/-- Why an input is no stylesheet; `origin` is the name of the input. -/
inductive LoadError where
  | misfit (fault : Misfit)
  | unreadable (origin : String) (failure : ReadFailure)
  | malformed (origin : String) (fault : Json.Malformed)
  deriving DecidableEq, Repr

namespace LoadError

/-- What lies behind the error; the fault of a tree is told in full by itself. -/
def cause? : LoadError → Option String
  | misfit _ => none
  | unreadable _ failure => some failure.message
  | malformed _ fault => some fault.message

def message : LoadError → String
  | misfit fault => s!"invalid input at {placeText fault.place}: {fault.reason.message}"
  | unreadable origin failure => s!"failed to read {origin}: {failure.message}"
  | malformed origin fault => s!"invalid JSON in {origin}: {fault.message}"

end LoadError

namespace Stylesheet

def ofTree (tree : Json) : Except LoadError Stylesheet :=
  (ofJson tree).mapError .misfit

def ofText (origin text : String) : Except LoadError Stylesheet := do
  let tree ← (Json.ofText text).mapError (.malformed origin)
  ofTree tree

def ofBytes (origin : String) (bytes : ByteArray) : Except LoadError Stylesheet :=
  match String.fromUTF8? bytes with
  | some text => ofText origin text
  | none => .error (.unreadable origin .notUtf8)

end Stylesheet

end StyleDelta
