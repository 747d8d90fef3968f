import StyleDelta.Json.Basic
import StyleDelta.Number.Shortest

/-!
The text of a JSON value, compact and indented.

Strings escape the quote, the backslash and the control characters below
`U+0020`; all else stands as itself. The compact text has no space at all. The
indented text puts every item and every member on a line of its own, two spaces
deeper than what holds it; an array or object without any is written closed.
-/

namespace StyleDelta

/-- Integers in decimal, floats with the fewest digits that read back. -/
def Number.text : Number → List Char
  | .int n => if n < 0 then '-' :: Nat.toDigits 10 n.natAbs else Nat.toDigits 10 n.natAbs
  | .float x => x.text

namespace Json

/-- The two characters after `\u00`. -/
def hexPair (n : Nat) : List Char := [Nat.digitChar (n / 16), Nat.digitChar (n % 16)]

/-- The text of one character of a string. -/
def escape (c : Char) : List Char :=
  if c = '"' then ['\\', '"']
  else if c = '\\' then ['\\', '\\']
  else if c = '\x08' then ['\\', 'b']
  else if c = '\x0c' then ['\\', 'f']
  else if c = '\n' then ['\\', 'n']
  else if c = '\r' then ['\\', 'r']
  else if c = '\t' then ['\\', 't']
  else if c.toNat < 0x20 then ['\\', 'u', '0', '0'] ++ hexPair c.toNat
  else [c]

def quoted (s : String) : List Char := '"' :: s.toList.flatMap escape ++ ['"']

/-- The text of the values that hold no others. -/
def ofBool (b : Bool) : List Char :=
  if b then ['t', 'r', 'u', 'e'] else ['f', 'a', 'l', 's', 'e']

mutual

/-- The compact text. -/
def compact : Json → List Char
  | .null => ['n', 'u', 'l', 'l']
  | .bool b => ofBool b
  | .num n => n.text
  | .str s => quoted s
  | .arr [] => ['[', ']']
  | .arr (item :: rest) => '[' :: compact item ++ compactItems rest
  | .obj [] => ['{', '}']
  | .obj ((name, value) :: rest) =>
    '{' :: quoted name ++ ':' :: compact value ++ compactMembers rest
termination_by structural value => value

/-- What follows an item of an array: the other items and the bracket. -/
def compactItems : List Json → List Char
  | [] => [']']
  | item :: rest => ',' :: compact item ++ compactItems rest
termination_by structural items => items

/-- What follows a member of an object: the other members and the brace. -/
def compactMembers : List (String × Json) → List Char
  | [] => ['}']
  | (name, value) :: rest =>
    ',' :: quoted name ++ ':' :: compact value ++ compactMembers rest
termination_by structural members => members

end

/-- A line break and the indentation of a depth. -/
def newline (depth : Nat) : List Char := '\n' :: List.replicate (2 * depth) ' '

mutual

/-- The indented text of a value that stands at a depth. -/
def pretty (depth : Nat) : Json → List Char
  | .null => ['n', 'u', 'l', 'l']
  | .bool b => ofBool b
  | .num n => n.text
  | .str s => quoted s
  | .arr [] => ['[', ']']
  | .arr (item :: rest) =>
    '[' :: newline (depth + 1) ++ pretty (depth + 1) item ++ prettyItems depth rest
  | .obj [] => ['{', '}']
  | .obj ((name, value) :: rest) =>
    '{' :: newline (depth + 1) ++ quoted name ++ [':', ' '] ++ pretty (depth + 1) value ++
      prettyMembers depth rest
termination_by structural value => value

def prettyItems (depth : Nat) : List Json → List Char
  | [] => newline depth ++ [']']
  | item :: rest =>
    ',' :: newline (depth + 1) ++ pretty (depth + 1) item ++ prettyItems depth rest
termination_by structural items => items

def prettyMembers (depth : Nat) : List (String × Json) → List Char
  | [] => newline depth ++ ['}']
  | (name, value) :: rest =>
    ',' :: newline (depth + 1) ++ quoted name ++ [':', ' '] ++ pretty (depth + 1) value ++
      prettyMembers depth rest
termination_by structural members => members

end

end Json

end StyleDelta
