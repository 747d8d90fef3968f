import StyleDelta.Sheet.Canonical
import StyleDelta.Sheet.Siblings

/-!
The difference of two stylesheets.

Siblings are joined by the identity of their canonical forms. A joined pair is
modified if its contents differ: the items of rules one by one, and the nested
nodes of blocks by the same comparison one level deeper. At-rules of other kinds
have no contents beyond their identity. What is reported are the nodes as they
were given, never their canonical forms.
-/

namespace StyleDelta

structure Modification where
  before : Node
  after : Node

structure Difference where
  changed : Bool
  /-- Nodes of the second sheet only, in its order. -/
  extra : List Node
  /-- Nodes of the first sheet only, in its order. -/
  missing : List Node
  /-- Joined nodes whose contents differ, in the order of the first sheet. -/
  modified : List Modification

/-- Declarations agree in property and value, other items as JSON values. -/
def RuleItem.same : RuleItem → RuleItem → Bool
  | .declaration d, .declaration e => d.property = e.property && d.value = e.value
  | .other a, .other b => a.eqv b
  | _, _ => false

def Rule.same (r s : Rule) : Bool := r.contents.isEqv s.contents RuleItem.same

namespace Node

/-- Whether all siblings on both sides are joined, and every pair has the same
contents. The first siblings are given as comparisons with them. -/
def sameSiblings (first : List (Option Identity × (Node → Bool))) (second : List Node) : Bool :=
  let matching := Matching.join first (keyed second)
  matching.isComplete && matching.pairs.all fun (sameAs, node) => sameAs node

mutual

/-- Whether two canonical nodes of one identity have the same contents. -/
def same : Node → Node → Bool
  | rule r, rule s => r.same s
  | media _ children _, node => node.children?.all (sameSiblings (comparisons children))
  | group _ _ children _, node => node.children?.all (sameSiblings (comparisons children))
  | _, _ => true
termination_by structural node => node

/-- Siblings under their identities, each as the comparison with it. -/
def comparisons : List Node → List (Option Identity × (Node → Bool))
  | [] => []
  | node :: rest => (node.identity?, same node) :: comparisons rest
termination_by structural nodes => nodes

end

theorem comparisons_eq_map (nodes : List Node) :
    comparisons nodes = nodes.map fun node => (node.identity?, same node) := by
  induction nodes with
  | nil => rfl
  | cons node rest ih => rw [comparisons, List.map_cons, ih]

end Node

/-- A node and its canonical form. -/
structure Entry where
  node : Node
  form : Node

/-- The nodes that have a canonical form, with it. -/
def Entry.ofNodes (nodes : List Node) : List Entry :=
  nodes.filterMap fun node => node.canonical?.map (⟨node, ·⟩)

def Entry.keyed (entries : List Entry) : List (Option Identity × Entry) :=
  entries.map fun entry => (entry.form.identity?, entry)

/-- The difference of the second sheet against the first. -/
def diff (first second : Stylesheet) : Difference :=
  let matching := Matching.join (Entry.keyed (Entry.ofNodes first.nodes))
    (Entry.keyed (Entry.ofNodes second.nodes))
  let modified := matching.pairs.filter fun (a, b) => !a.form.same b.form
  { changed := !(matching.isComplete && modified.isEmpty)
    extra := matching.extra.map Entry.node
    missing := matching.missing.map Entry.node
    modified := modified.map fun (a, b) => ⟨a.node, b.node⟩ }

end StyleDelta
