import StyleDelta.Json.Basic
import StyleDelta.Json.Malformed

/-!
The reading of the parts of a JSON text that hold no values: blanks, words,
numbers and strings. A reader of a part gives what it read and the text after it.
-/

namespace StyleDelta.Json

def isBlank (c : Char) : Bool := c = ' ' || c = '\t' || c = '\n' || c = '\r'

def skipBlank (text : List Char) : List Char := text.dropWhile isBlank

/-- The text after a word that has to stand in front. -/
def readLiteral : List Char → List Char → Except ReadError (List Char)
  | [], text => .ok text
  | _ :: _, [] => .error (.next .endInValue [])
  | w :: word, c :: rest =>
    if c = w then readLiteral word rest else .error (.next .expectedLiteral (c :: rest))

/-! ## Numbers -/

def digitValue (c : Char) : Nat := c.toNat - '0'.toNat

def ofDigits (digits : List Char) : Nat :=
  digits.foldl (fun n c => 10 * n + digitValue c) 0

/-- One digit or more. -/
def readDigits : List Char → Except ReadError (List Char × List Char)
  | [] => .error (.next .endInValue [])
  | c :: rest =>
    if c.isDigit then .ok ((c :: rest).span Char.isDigit)
    else .error (.next .invalidNumber (c :: rest))

/-- The digits before the point: no digit follows a leading zero. -/
def readWhole (text : List Char) : Except ReadError (List Char × List Char) := do
  let (digits, rest) ← readDigits text
  match digits with
  | '0' :: _ :: _ => .error (.next .invalidNumber (text.drop 1))
  | _ => .ok (digits, rest)

/-- The digits after a point, none where there is no point. -/
def readFraction : List Char → Except ReadError (List Char × List Char)
  | '.' :: rest => readDigits rest
  | text => .ok ([], text)

/-- The sign and the digits of an exponent, if there is one. -/
def readExponent : List Char → Except ReadError (Option (Bool × List Char) × List Char)
  | [] => .ok (none, [])
  | c :: rest =>
    if c = 'e' || c = 'E' then do
      let (negative, rest) := match rest with
        | '-' :: rest => (true, rest)
        | '+' :: rest => (false, rest)
        | _ => (false, rest)
      let (digits, rest) ← readDigits rest
      return (some (negative, digits), rest)
    else .ok (none, c :: rest)

/-- The number of digits of an exponent that are read until it passes the
greatest one that counts as a number. -/
def exponentReach (digits : List Char) : Nat :=
  ((List.range digits.length).find? fun i => 2147483647 < ofDigits (digits.take (i + 1))).elim
    digits.length (· + 1)

/-- A literal without point and exponent is an integer where 64 bits hold it;
negative zero and all other literals are floats. -/
def readNumber (text : List Char) : Except ReadError (Number × List Char) := do
  let (negative, unsigned) := match text with
    | '-' :: rest => (true, rest)
    | _ => (false, text)
  let (whole, rest) ← readWhole unsigned
  let (fraction, rest) ← readFraction rest
  let (exponent, rest) ← readExponent rest
  let integral := fraction.isEmpty && exponent.isNone
  let digits := ofDigits (whole ++ fraction)
  if integral && !negative && digits < wordBound then return (.int digits, rest)
  if integral && negative && 0 < digits && digits ≤ wordBound / 2 then return (.int (-digits), rest)
  let (power, digitsUnread) : Int × Nat := match exponent with
    | none => (0, 0)
    | some (true, e) => (-ofDigits e, 0)
    | some (false, e) => (ofDigits e, e.length - exponentReach e)
  match Binary64.ofDecimal? negative digits (power - fraction.length) with
  | some x => return (.float x, rest)
  | none => .error ⟨.numberOutOfRange, text.drop (text.length - rest.length - digitsUnread), 0⟩

/-! ## Strings -/

def hexValue? (c : Char) : Option Nat :=
  if c.isDigit then some (c.toNat - '0'.toNat)
  else if 'a' ≤ c && c ≤ 'f' then some (c.toNat - 'a'.toNat + 10)
  else if 'A' ≤ c && c ≤ 'F' then some (c.toNat - 'A'.toNat + 10)
  else none

/-- The number that four hex digits in front spell. -/
def readUnit (text : List Char) : Except ReadError Nat :=
  match text.take 4 |>.mapM hexValue? with
  | some [a, b, c, d] => .ok (((a * 16 + b) * 16 + c) * 16 + d)
  | _ =>
    if (String.ofList text).utf8ByteSize < 4 then .error (.next .endInString [])
    else .error ⟨.invalidEscape, text, 4⟩

/-- The character of a unit after `\u`, and the number of characters read. A
leading surrogate takes the trailing one of a second escape with it. -/
def readUnicode (text : List Char) : Except ReadError (Char × Nat) := do
  let unit ← readUnit text
  let rest := text.drop 4
  if 0xDC00 ≤ unit && unit ≤ 0xDFFF then .error ⟨.loneSurrogate, rest, 0⟩
  else if 0xD800 ≤ unit && unit ≤ 0xDBFF then
    match rest with
    | [] => .error (.next .endInString [])
    | '\\' :: [] => .error (.next .endInString [])
    | '\\' :: 'u' :: rest =>
      let trail ← readUnit rest
      if 0xDC00 ≤ trail && trail ≤ 0xDFFF then
        return (Char.ofNat (0x10000 + (unit - 0xD800) * 0x400 + (trail - 0xDC00)), 10)
      else .error ⟨.loneSurrogate, rest.drop 4, 0⟩
    | '\\' :: rest => .error (.next .unfinishedSurrogate rest)
    | _ => .error (.next .unfinishedSurrogate rest)
  else return (Char.ofNat unit, 4)

/-- The character that a backslash and the text after it stand for, and the
number of characters read after the backslash. -/
def readEscape : List Char → Except ReadError (Char × Nat)
  | [] => .error (.next .endInString [])
  | c :: rest =>
    if c = '"' || c = '\\' || c = '/' then .ok (c, 1)
    else if c = 'b' then .ok ('\x08', 1)
    else if c = 'f' then .ok ('\x0c', 1)
    else if c = 'n' then .ok ('\n', 1)
    else if c = 'r' then .ok ('\r', 1)
    else if c = 't' then .ok ('\t', 1)
    else if c = 'u' then do
      let (character, count) ← readUnicode rest
      return (character, count + 1)
    else .error (.next .invalidEscape (c :: rest))

/-- The string whose content so far, the last character first, is `content`;
`skip` characters in front belong to an escape that was read already. -/
def readString (skip : Nat) (content : List Char) :
    List Char → Except ReadError (String × List Char)
  | [] => .error (.next .endInString [])
  | c :: rest =>
    if 0 < skip then readString (skip - 1) content rest
    else if c = '"' then .ok (String.ofList content.reverse, rest)
    else if c = '\\' then do
      let (character, count) ← readEscape rest
      readString count (character :: content) rest
    else if c.toNat < 0x20 then .error (.next .controlCharacter (c :: rest))
    else readString 0 (c :: content) rest

end StyleDelta.Json
