/-!
Texts that are no JSON: what is wrong with them, and where.

A reader refuses a text at a place that it names by what it did not read yet and
the number of bytes past the start of that. `ReadError.place` takes the line and
the column from it, counting lines from one and columns in bytes.
-/

namespace StyleDelta.Json

/-- What is wrong with a text that is no JSON value. -/
inductive Malformation where
  | endInValue | endInList | endInObject | endInString
  | expectedValue | expectedColon | expectedListEnd | expectedObjectEnd
  | expectedLiteral | keyNotString | trailingComma | trailingCharacters
  | invalidNumber | numberOutOfRange
  | invalidEscape | loneSurrogate | unfinishedSurrogate | controlCharacter
  | tooDeep
  deriving DecidableEq, Repr

/-- A malformation that is `past` bytes into the unread text. -/
structure ReadError where
  cause : Malformation
  unread : List Char
  past : Nat
  deriving DecidableEq, Repr

/-- The malformation lies in the first character, or at the end of the text. -/
def ReadError.next (cause : Malformation) (unread : List Char) : ReadError :=
  ⟨cause, unread, if unread.isEmpty then 0 else 1⟩

/-- The line and the column that `offset` bytes of the text lead to. -/
def locate (line column : Nat) : Nat → List Char → Nat × Nat
  | _, [] => (line, column)
  | offset, c :: rest =>
    if offset = 0 then (line, column)
    else if c = '\n' then locate (line + 1) 0 (offset - 1) rest
    else locate line (column + min c.utf8Size offset) (offset - c.utf8Size) rest

/-- A malformation and its place: lines from 1, columns in bytes. -/
structure Malformed where
  cause : Malformation
  line : Nat
  column : Nat
  deriving DecidableEq, Repr

/-- The place of an error in the text that was read. -/
def ReadError.place (error : ReadError) (text : List Char) : Malformed :=
  let size (cs : List Char) : Nat := (String.ofList cs).utf8ByteSize
  let (line, column) := locate 1 0 (size text - size error.unread + error.past) text
  ⟨error.cause, line, column⟩

def Malformation.message : Malformation → String
  | .endInValue => "EOF while parsing a value"
  | .endInList => "EOF while parsing a list"
  | .endInObject => "EOF while parsing an object"
  | .endInString => "EOF while parsing a string"
  | .expectedValue => "expected value"
  | .expectedColon => "expected `:`"
  | .expectedListEnd => "expected `,` or `]`"
  | .expectedObjectEnd => "expected `,` or `\x7d`"
  | .expectedLiteral => "expected ident"
  | .keyNotString => "key must be a string"
  | .trailingComma => "trailing comma"
  | .trailingCharacters => "trailing characters"
  | .invalidNumber => "invalid number"
  | .numberOutOfRange => "number out of range"
  | .invalidEscape => "invalid escape"
  | .loneSurrogate => "lone leading surrogate in hex escape"
  | .unfinishedSurrogate => "unexpected end of hex escape"
  | .controlCharacter => "control character (\\u0000-\\u001F) found while parsing a string"
  | .tooDeep => "recursion limit exceeded"

def Malformed.message (m : Malformed) : String :=
  s!"{m.cause.message} at line {m.line} column {m.column}"

end StyleDelta.Json
