/-!
The reading of a selector, a prelude or a declaration value as a sequence of
tokens, and the text of a token sequence.

Only two things matter outside the plain characters: a backslash takes the next
character with it, and a quote of either sort opens a string that runs to the
next unescaped quote of the same sort, or to the end of the text. The reading of
a string does not say which quote opened it, and its content names a quote by
the character alone, escaped or not. `render` writes every string between double
quotes.
-/

namespace StyleDelta.Text

/-- A part of a string's content. -/
inductive Piece where
  /-- A character of the content; both quotes are of this kind, escaped or not. -/
  | char (c : Char)
  /-- A backslash and the character after it, which is not a quote. -/
  | pair (c : Char)
  /-- A backslash that ends the text. -/
  | backslash
  deriving DecidableEq, Repr, Inhabited

inductive Token where
  /-- A character outside strings that no backslash takes. -/
  | plain (c : Char)
  /-- A backslash and the character after it. -/
  | pair (c : Char)
  /-- A backslash that ends the text. -/
  | backslash
  /-- A quoted string; one that is not closed runs to the end of the text. -/
  | quoted (content : List Piece) (closed : Bool)
  deriving DecidableEq, Repr, Inhabited

def isQuote (c : Char) : Bool := c = '"' || c = '\''

/-- What a backslash and `c` stand for inside a string. -/
def Piece.escaped (c : Char) : Piece := if isQuote c then .char c else .pair c

mutual

/-- The tokens of a text. -/
def scan : List Char → List Token
  | [] => []
  | ['\\'] => [.backslash]
  | '\\' :: c :: rest => .pair c :: scan rest
  | c :: rest =>
    if isQuote c then
      let (content, closed, tokens) := scanString c rest
      .quoted content closed :: tokens
    else .plain c :: scan rest
termination_by structural text => text

/-- Inside a string that ends at `quote`: its content, whether it is closed, and
the tokens after it. -/
def scanString (quote : Char) : List Char → List Piece × Bool × List Token
  | [] => ([], false, [])
  | ['\\'] => ([.backslash], false, [])
  | '\\' :: c :: rest =>
    let (content, after) := scanString quote rest
    (.escaped c :: content, after)
  | c :: rest =>
    if c = quote then ([], true, scan rest)
    else
      let (content, after) := scanString quote rest
      (.char c :: content, after)
termination_by structural text => text

end

/-- The text of a piece between double quotes. -/
def Piece.render : Piece → List Char
  | .char c => if c = '"' then ['\\', '"'] else [c]
  | .pair c => ['\\', c]
  | .backslash => ['\\']

def Token.render : Token → List Char
  | .plain c => [c]
  | .pair c => ['\\', c]
  | .backslash => ['\\']
  | .quoted content closed =>
    '"' :: content.flatMap Piece.render ++ if closed then ['"'] else []

def render (tokens : List Token) : List Char := tokens.flatMap Token.render

end StyleDelta.Text
