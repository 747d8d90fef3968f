import StyleDelta.Difference
import StyleDelta.Log.Event

/-!
The events of `diff` in the order in which they arise: a level of siblings is
matched, then each pair in turn is compared, first its nested level and then the
pair itself, and at the end the sheets have been compared.
-/

namespace StyleDelta.Log

/-- The events of one level: the matching, then those of every pair. The first
siblings are given as the events of a pair with them. -/
def siblingEvents (first : List (Option Identity × (Node → List Event))) (second : List Node) :
    List Event :=
  let matching := Matching.join first (Node.keyed second)
  .matched matching.pairs.length matching.extra.length matching.missing.length ::
    matching.pairs.flatMap fun (eventsWith, node) => eventsWith node

/-- The event of a pair whose contents differ. -/
def pairEvent (first second : Node) : List Event :=
  if first.same second then [] else [.differs first.kind first.span]

mutual

/-- The events of the contents of a pair of canonical nodes. -/
def nodeEvents : Node → Node → List Event
  | .media _ children _, node =>
    node.children?.elim [] (siblingEvents (pairEvents children))
  | .group _ _ children _, node =>
    node.children?.elim [] (siblingEvents (pairEvents children))
  | _, _ => []
termination_by structural node => node

/-- Siblings under their identities, each as the events of a pair with it. -/
def pairEvents : List Node → List (Option Identity × (Node → List Event))
  | [] => []
  | node :: rest =>
    (node.identity?, fun second => nodeEvents node second ++ pairEvent node second) ::
      pairEvents rest
termination_by structural nodes => nodes

end

/-- The events of comparing two sheets. -/
def diffEvents (first second : Stylesheet) : List Event :=
  let d := diff first second
  siblingEvents (pairEvents first.canonical.nodes) second.canonical.nodes ++
    [.compared d.changed d.extra.length d.missing.length d.modified.length]

end StyleDelta.Log
