import StyleDelta.Difference

/-!
Canonical forms have no comments, and they line up with the nodes they are of.

`CommentFree` says that no list of siblings and no rule holds a comment, at any
depth. Forms are comment-free (`canonical?_commentFree`), so each of them has an
identity. The form at a position is that of the node at the same position when
comments are not counted (`map_form_ofNodes`, `map_node_ofNodes`).
-/

namespace StyleDelta

/-! ## Trees without comments -/

theorem Rule.canonical_commentFree (r : Rule) (c : Comment) :
    RuleItem.comment c ∉ r.canonical.items := by
  intro h
  obtain ⟨item, -, hitem⟩ := List.mem_filterMap.mp h
  cases item <;> simp [RuleItem.canonical?] at hitem

theorem Rule.contents_eq_items {r : Rule} (h : ∀ c, RuleItem.comment c ∉ r.items) :
    r.contents = r.items := by
  rw [Rule.contents, List.filter_eq_self]
  intro item hitem
  cases item with
  | comment c => exact absurd hitem (h c)
  | declaration d => rfl
  | other description => rfl

namespace Node

/-- Induction over nodes with a hypothesis for every nested node. -/
theorem induction {P : Node → Prop} (rule : ∀ r, P (.rule r))
    (media : ∀ query children span, (∀ x ∈ children, P x) → P (.media query children span))
    (group : ∀ kind prelude children span, (∀ x ∈ children, P x) →
      P (.group kind prelude children span))
    (comment : ∀ c, P (.comment c)) (other : ∀ kind payload span, P (.other kind payload span))
    (node : Node) : P node := by
  refine @Node.rec P (fun nodes => ∀ x ∈ nodes, P x) rule media group comment other ?_ ?_ node
  · simp
  · intro x nodes hx hnodes
    exact List.forall_mem_cons.mpr ⟨hx, hnodes⟩

/-- No comment at any depth, neither among siblings nor among the items of a rule. -/
inductive CommentFree : Node → Prop
  | rule {r : Rule} (h : ∀ c, RuleItem.comment c ∉ r.items) : CommentFree (.rule r)
  | media {query : String} {children : List Node} {span : Span}
      (h : ∀ x ∈ children, CommentFree x) : CommentFree (.media query children span)
  | group {kind prelude : String} {children : List Node} {span : Span}
      (h : ∀ x ∈ children, CommentFree x) : CommentFree (.group kind prelude children span)
  | other {kind : String} {payload : Json} {span : Span} : CommentFree (.other kind payload span)

theorem CommentFree.identity?_ne_none {node : Node} (h : node.CommentFree) :
    node.identity? ≠ none := by
  cases h <;> simp [identity?]

theorem canonical?_eq_none_iff (node : Node) : node.canonical? = none ↔ node.isComment = true := by
  cases node <;> simp [canonical?, isComment]

theorem mem_canonicalNodes {nodes : List Node} {form : Node} :
    form ∈ canonicalNodes nodes ↔ ∃ node ∈ nodes, node.canonical? = some form := by
  rw [canonicalNodes_eq_filterMap, List.mem_filterMap]

/-- A canonical form has no comment at any depth. -/
theorem canonical?_commentFree {node form : Node} (h : node.canonical? = some form) :
    form.CommentFree := by
  induction node using Node.induction generalizing form with
  | rule r =>
    obtain rfl := Option.some.inj h
    exact .rule r.canonical_commentFree
  | media query children span ih =>
    obtain rfl := Option.some.inj h
    refine .media fun x hx => ?_
    obtain ⟨node, hnode, hform⟩ := mem_canonicalNodes.mp hx
    exact ih node hnode hform
  | group kind prelude children span ih =>
    obtain rfl := Option.some.inj h
    refine .group fun x hx => ?_
    obtain ⟨node, hnode, hform⟩ := mem_canonicalNodes.mp hx
    exact ih node hnode hform
  | comment c => simp [canonical?] at h
  | other kind payload span =>
    obtain rfl := Option.some.inj h
    exact .other

theorem canonicalNodes_commentFree (nodes : List Node) :
    ∀ x ∈ canonicalNodes nodes, x.CommentFree := by
  intro x hx
  obtain ⟨node, -, hform⟩ := mem_canonicalNodes.mp hx
  exact canonical?_commentFree hform

end Node

/-! ## Nodes and their forms -/

/-- The nodes of a sheet that are no comments. -/
def Stylesheet.contents (sheet : Stylesheet) : List Node :=
  sheet.nodes.filter fun node => !node.isComment

namespace Entry

theorem ofNodes_cons (x : Node) (nodes : List Node) :
    ofNodes (x :: nodes) = ((x.canonical?.map fun form => ⟨x, form⟩).toList ++ ofNodes nodes) := by
  rw [ofNodes, List.filterMap_cons]
  cases x.canonical? <;> rfl

theorem map_form_ofNodes (nodes : List Node) :
    (ofNodes nodes).map form = Node.canonicalNodes nodes := by
  induction nodes with
  | nil => rfl
  | cons x nodes ih =>
    rw [ofNodes_cons, List.map_append, ih, Node.canonicalNodes]
    cases x.canonical? <;> rfl

theorem map_node_ofNodes (nodes : List Node) :
    (ofNodes nodes).map node = nodes.filter fun node => !node.isComment := by
  induction nodes with
  | nil => rfl
  | cons x nodes ih =>
    rw [ofNodes_cons, List.map_append, ih, List.filter_cons]
    cases hx : x.canonical? with
    | none => simp [(Node.canonical?_eq_none_iff x).mp hx]
    | some form =>
      have hc : x.isComment = false := by
        rw [← Bool.not_eq_true, ← Node.canonical?_eq_none_iff, hx]
        simp
      simp [hc]

theorem canonical?_of_mem {nodes : List Node} {entry : Entry} (h : entry ∈ ofNodes nodes) :
    entry.node.canonical? = some entry.form := by
  obtain ⟨x, -, hx⟩ := List.mem_filterMap.mp h
  obtain ⟨form, hform, rfl⟩ := Option.map_eq_some_iff.mp hx
  exact hform

theorem form_commentFree {nodes : List Node} {entry : Entry} (h : entry ∈ ofNodes nodes) :
    entry.form.CommentFree :=
  Node.canonical?_commentFree (canonical?_of_mem h)

end Entry

end StyleDelta
