/-!
The lines of a text. A line feed ends a line and takes one carriage return right
before it away; after the last line feed no further line begins. Any other
carriage return stands in its line.
-/

namespace StyleDelta.Text

def lines : List Char → List (List Char)
  | [] => []
  | '\n' :: rest => [] :: lines rest
  | '\r' :: '\n' :: rest => [] :: lines rest
  | c :: rest =>
    match lines rest with
    | [] => [[c]]
    | line :: more => (c :: line) :: more

/-- The lines with `mark` in front of each, every one ended by a line feed. -/
def markLines (mark : String) (text : String) : String :=
  String.join ((lines text.toList).map fun line => mark ++ String.ofList line ++ "\n")

end StyleDelta.Text
