import StyleDelta.Text.Token

/-!
The canonical spelling of a selector and of a declaration value.

Both write every string between double quotes. A value also has its hex colours
in lower case: a `#` outside strings, not taken by a backslash and not after a
name character, whose run of hex digits has three, four, six or eight of them and
ends before a character that is no name character. In a selector `#Ab1` is an
identifier, whose case counts.
-/

namespace StyleDelta.Text

/-- A character that can stand in a name. -/
def isNameChar (c : Char) : Bool :=
  c.isAlphanum || c = '-' || c = '_' || 0x80 ≤ c.toNat

def isHexDigit (c : Char) : Bool :=
  c.isDigit || ('a' ≤ c && c ≤ 'f') || ('A' ≤ c && c ≤ 'F')

/-- The number of plain hex digits in front, and whether a name goes on after them. -/
def hexRun : List Token → Nat × Bool
  | .plain c :: rest =>
    if isHexDigit c then
      let (count, named) := hexRun rest
      (count + 1, named)
    else (0, isNameChar c)
  | _ => (0, false)

/-- Whether a `#` before these tokens starts a colour. -/
def startsColour (tokens : List Token) : Bool :=
  let (count, named) := hexRun tokens
  (count = 3 || count = 4 || count = 6 || count = 8) && !named

/-- Lowers the hex digits of colours. `named` says that a name character stands
before the tokens, `colour` that they go on with the digits of a colour. -/
def foldColours (named colour : Bool) : List Token → List Token
  | [] => []
  | .plain c :: rest =>
    if c = '#' then .plain c :: foldColours false (!named && startsColour rest) rest
    else if colour && isHexDigit c then .plain c.toLower :: foldColours true true rest
    else .plain c :: foldColours (isNameChar c) false rest
  | .pair c :: rest => .pair c :: foldColours (isNameChar c) false rest
  | token :: rest => token :: foldColours false false rest

/-- The canonical spelling of a selector, of a media query or of a prelude. -/
def canonicalSelector (text : String) : String :=
  String.ofList (render (scan text.toList))

/-- The canonical spelling of a declaration value. -/
def canonicalValue (text : String) : String :=
  String.ofList (render (foldColours false false (scan text.toList)))

end StyleDelta.Text
