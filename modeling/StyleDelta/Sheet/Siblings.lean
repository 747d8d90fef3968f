import StyleDelta.Matching
import StyleDelta.Sheet.Identity

/-!
The matching of two lists of siblings by identity.
-/

namespace StyleDelta.Node

/-- Siblings under their identities. -/
def keyed (nodes : List Node) : List (Option Identity × Node) :=
  nodes.map fun node => (node.identity?, node)

/-- The positions of siblings under their identities. -/
def numbered (nodes : List Node) : List (Option Identity × Nat) :=
  nodes.zipIdx.map fun (node, i) => (node.identity?, i)

/-- The matching of two lists of siblings, as positions in them. -/
def matchSiblings (first second : List Node) : Matching Nat Nat :=
  Matching.join (numbered first) (numbered second)

end StyleDelta.Node
