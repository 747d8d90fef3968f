import StyleDelta.Json.Literal

/-!
The reading of a JSON text: one value with blanks around it, nested as deep as
`read` is told. A name that an object repeats keeps its last value.

The loops over items and members go on with a reader for what they hold, which
is allowed one level less. Every step of a loop reads at least one character, so
the length of the text bounds them all.
-/

namespace StyleDelta.Json

/-- A reader of one value. -/
abbrev ItemReader := List Char → Except ReadError (Json × List Char)

/-- The items from the next one on, after those in `items`, the last one first. -/
def readItems (readItem : ItemReader) :
    Nat → List Json → List Char → Except ReadError (List Json × List Char)
  | 0, _, text => .error (.next .endInList text)
  | steps + 1, items, text => do
    let (item, rest) ← readItem text
    match skipBlank rest with
    | ']' :: rest => .ok ((item :: items).reverse, rest)
    | ',' :: rest =>
      match skipBlank rest with
      | [] => .error (.next .endInValue [])
      | ']' :: rest => .error (.next .trailingComma (']' :: rest))
      | text => readItems readItem steps (item :: items) text
    | [] => .error (.next .endInList [])
    | rest => .error (.next .expectedListEnd rest)

/-- What follows an opening bracket. -/
def readArray (readItem : ItemReader) (steps : Nat) (text : List Char) :
    Except ReadError (List Json × List Char) :=
  match skipBlank text with
  | [] => .error (.next .endInList [])
  | ']' :: rest => .ok ([], rest)
  | text => readItems readItem steps [] text

/-- The name of a member and the colon after it. -/
def readName : List Char → Except ReadError (String × List Char)
  | '"' :: rest => do
    let (name, rest) ← readString 0 [] rest
    match skipBlank rest with
    | [] => .error (.next .endInObject [])
    | ':' :: rest => .ok (name, rest)
    | rest => .error (.next .expectedColon rest)
  | text => .error (.next .keyNotString text)

/-- The members from the next one on, put into those read so far. -/
def readMembers (readItem : ItemReader) :
    Nat → List (String × Json) → List Char →
      Except ReadError (List (String × Json) × List Char)
  | 0, _, text => .error (.next .endInObject text)
  | steps + 1, members, text => do
    let (name, rest) ← readName text
    let (value, rest) ← readItem rest
    match skipBlank rest with
    | '}' :: rest => .ok (insert name value members, rest)
    | ',' :: rest =>
      match skipBlank rest with
      | [] => .error (.next .endInValue [])
      | '}' :: rest => .error (.next .trailingComma ('}' :: rest))
      | text => readMembers readItem steps (insert name value members) text
    | [] => .error (.next .endInObject [])
    | rest => .error (.next .expectedObjectEnd rest)

/-- What follows an opening brace. -/
def readObject (readItem : ItemReader) (steps : Nat) (text : List Char) :
    Except ReadError (List (String × Json) × List Char) :=
  match skipBlank text with
  | [] => .error (.next .endInObject [])
  | '}' :: rest => .ok ([], rest)
  | text => readMembers readItem steps [] text

/-- A value in which at most `depth` arrays and objects hold one another; no loop
takes more than `steps` steps. -/
def readValue (steps depth : Nat) (text : List Char) : Except ReadError (Json × List Char) :=
  match skipBlank text with
  | [] => .error (.next .endInValue [])
  | c :: rest =>
    if c = '"' then do
      let (s, rest) ← readString 0 [] rest
      return (.str s, rest)
    else if c = '[' then
      match depth with
      | 0 => .error (.next .tooDeep (c :: rest))
      | depth + 1 => do
        let (items, rest) ← readArray (readValue steps depth) steps rest
        return (.arr items, rest)
    else if c = '{' then
      match depth with
      | 0 => .error (.next .tooDeep (c :: rest))
      | depth + 1 => do
        let (members, rest) ← readObject (readValue steps depth) steps rest
        return (.obj members, rest)
    else if c = 'n' then do
      return (.null, ← readLiteral ['u', 'l', 'l'] rest)
    else if c = 't' then do
      return (.bool true, ← readLiteral ['r', 'u', 'e'] rest)
    else if c = 'f' then do
      return (.bool false, ← readLiteral ['a', 'l', 's', 'e'] rest)
    else if c = '-' || c.isDigit then do
      let (n, rest) ← readNumber (c :: rest)
      return (.num n, rest)
    else .error (.next .expectedValue (c :: rest))
termination_by structural depth

/-- The value that a whole text spells. -/
def read (depth : Nat) (text : List Char) : Except ReadError Json := do
  let (value, rest) ← readValue text.length depth text
  match skipBlank rest with
  | [] => return value
  | rest => .error (.next .trailingCharacters rest)

/-- Arrays and objects in a file may hold one another 127 deep. -/
def maxDepth : Nat := 127

def ofText (text : String) : Except Malformed Json :=
  (read maxDepth text.toList).mapError (·.place text.toList)

end StyleDelta.Json
