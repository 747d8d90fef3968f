import StyleDelta.Text.Visible

/-!
The quoted text of a string, in which every character can be seen. The quote, the
backslash and four controls have short escapes, and a character that does not
show by itself is written as its number, `\u` with the hex digits in braces.
-/

namespace StyleDelta.Text

def showChar (c : Char) : List Char :=
  if c = '\x00' then ['\\', '0']
  else if c = '\t' then ['\\', 't']
  else if c = '\r' then ['\\', 'r']
  else if c = '\n' then ['\\', 'n']
  else if c = '"' ∨ c = '\\' then ['\\', c]
  else if isVisible c then [c]
  else ['\\', 'u', '{'] ++ Nat.toDigits 16 c.toNat ++ ['}']

def quote (s : String) : String :=
  String.ofList ('"' :: s.toList.flatMap showChar ++ ['"'])

end StyleDelta.Text
