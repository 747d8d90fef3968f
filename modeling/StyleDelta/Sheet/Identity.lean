import StyleDelta.Sheet.Basic
import StyleDelta.Json.Writer

/-!
The identity of a node among its siblings: what two nodes have to share to be two
versions of one node. A comment has none.
-/

namespace StyleDelta

inductive Identity where
  | rule (selectors : List String)
  | media (query : String)
  | group (kind : String) (prelude : String)
  /-- An at-rule of another kind is what the text of its description says. -/
  | other (kind : String) (payload : List Char)
  deriving DecidableEq, Repr

def Node.identity? : Node → Option Identity
  | .rule r => some (.rule r.selectors)
  | .media query _ _ => some (.media query)
  | .group kind prelude _ _ => some (.group kind prelude)
  | .comment _ => none
  | .other kind payload _ => some (.other kind payload.compact)

end StyleDelta
