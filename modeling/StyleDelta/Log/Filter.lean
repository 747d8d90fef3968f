import StyleDelta.Log.Event

/-!
Which events a log shows.

A filter is a list of directives. One names a target and the level down to which
events of targets that begin so are shown; without a target it is about all
events. Of the directives about an event the one with the longest target decides,
and of equal targets the last one.
-/

namespace StyleDelta.Log

/-- The rank down to which events are shown; zero shows none. -/
structure Directive where
  target : String
  rank : Nat
  deriving DecidableEq, Repr

abbrev Filter := List Directive

namespace Filter

/-- The directive that decides about a target. -/
def decisive (target : String) : Filter → Option Directive
  | [] => none
  | directive :: rest =>
    let later := decisive target rest
    if directive.target.toList.isPrefixOf target.toList then
      match later with
      | some other =>
        if directive.target.length ≤ other.target.length then some other else some directive
      | none => some directive
    else later

def shows (filter : Filter) (event : Event) : Bool :=
  (filter.decisive event.target).any fun directive => event.level.rank ≤ directive.rank

/-- The filter of a verbosity: warnings, and one level more for each step. -/
def ofVerbosity (verbosity : Nat) : Filter := [⟨"", min (verbosity + 2) 5⟩]

/-! ## Texts of filters -/

/-- A level by its name in any case, or by its number. -/
def rank? (text : String) : Option Nat :=
  let text := String.ofList (text.toList.map Char.toLower)
  [("off", 0), ("error", 1), ("warn", 2), ("info", 3), ("debug", 4), ("trace", 5),
    ("0", 0), ("1", 1), ("2", 2), ("3", 3), ("4", 4), ("5", 5)].lookup text

/-- A character that a target can begin with. -/
def isTargetStart (c : Char) : Bool :=
  c.isAlphanum || c = '_' || c = ':' || c = '-' || 0x80 ≤ c.toNat

/-- A directive is a level, a target, or a target and a level with `=` between
them; a target without a level shows all its events. Before `=` even the name of a
level is a target. -/
def directive? (text : String) : Option Directive :=
  match rank? text with
  | some rank => some ⟨"", rank⟩
  | none =>
    let (target, rest) := text.toList.span (· ≠ '=')
    if target.head?.all (!isTargetStart ·) then none
    else match rest with
      | [] | ['='] => some ⟨String.ofList target, 5⟩
      | _ :: level => (rank? (String.ofList level)).map (⟨String.ofList target, ·⟩)

/-- The parts of a text between commas that are not empty. -/
def parts (text : String) : List String :=
  ((text.toList.splitOn ',').filter (!·.isEmpty)).map String.ofList

/-- A list of directives; an empty one shows errors. -/
def ofText? (text : String) : Option Filter :=
  if (parts text).isEmpty then some [⟨"", 1⟩] else (parts text).mapM directive?

end Filter

end StyleDelta.Log
