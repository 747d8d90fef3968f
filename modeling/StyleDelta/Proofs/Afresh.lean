import StyleDelta.Proofs.Layers

/-!
The comparison that starts over for the nested nodes of every block.

`diffAfresh` takes the canonical forms of two sheets for one depth only: the nested nodes of
a joined pair of blocks are put, as they were given, into two sheets of their own, and these
are compared from the beginning. It gives the same difference (`diffAfresh_eq`), because the
forms under a block are the forms of the nodes under it. So a block around two lists of nodes
is modified exactly if the lists differ (`diff_blocks`). Main statement: `diff_afresh`.
-/

namespace StyleDelta

open Matching

/-! ## Starting over -/

theorem sizeOf_node_of_mem {sheet : Stylesheet} {entry : Entry}
    (h : entry ∈ Entry.ofNodes sheet.nodes) : sizeOf entry.node < sizeOf sheet.nodes := by
  have hmem : entry.node ∈ sheet.contents := by
    rw [Stylesheet.contents, ← Entry.map_node_ofNodes]
    exact List.mem_map_of_mem h
  exact List.sizeOf_lt_of_mem (List.mem_filter.mp hmem).1

mutual

/-- The difference of two sheets that compares the nested nodes of a pair afresh. -/
def diffAfresh (first second : Stylesheet) : Difference :=
  let matching := Matching.join (Entry.keyed (Entry.ofNodes first.nodes))
    (Entry.keyed (Entry.ofNodes second.nodes))
  let modified := (matching.pairs.attach.filter fun p => !sameAfresh p.1.1 p.1.2).unattach
  { changed := !(matching.isComplete && modified.isEmpty)
    extra := matching.extra.map Entry.node
    missing := matching.missing.map Entry.node
    modified := modified.map fun (a, b) => ⟨a.node, b.node⟩ }
termination_by sizeOf first.nodes
decreasing_by exact sizeOf_node_of_mem (mem_pairs_of_map p.2).1

/-- Whether a joined pair has the same contents. Of the layer of two blocks only the nested
nodes are used, not what are their forms. -/
def sameAfresh (a b : Entry) : Bool :=
  match _h : Layer.Question.of a.node b.node a.form b.form with
  | .items r s => r.same s
  | .nested layer => !(diffAfresh layer.first layer.second).changed
  | .settled => true
termination_by sizeOf a.node
decreasing_by exact Layer.sizeOf_children? (Layer.Question.children?_of_nested _h)

end

/-- A pair is answered by the comparison of its forms, if nested sheets are. -/
theorem sameAfresh_eq {a b : Entry} (ha : a.node.canonical? = some a.form)
    (hb : b.node.canonical? = some b.form) (hkey : a.form.identity? = b.form.identity?)
    (ih : ∀ first second : Stylesheet, sizeOf first.nodes < sizeOf a.node →
      diffAfresh first second = diff first second) :
    sameAfresh a b = a.form.same b.form := by
  rcases Layer.Question.of_forms ha hb hkey with ⟨r, s, hr, hs, hq⟩ | ⟨xs, ys, hxs, hq, hsame⟩ |
    ⟨kind, c, d, s, t, hform, hform', -, hq⟩
  · rw [sameAfresh, hq, hr, hs]
    rfl
  · rw [sameAfresh, hq, hsame]
    simp only [Layer.of, ih ⟨xs⟩ ⟨ys⟩ (Layer.sizeOf_children? hxs)]
  · rw [sameAfresh, hq, hform, hform']
    rfl

theorem diffAfresh_eq (a b : Stylesheet) : diffAfresh a b = diff a b := by
  -- the induction is on the first sheet, whose nested nodes are smaller than it
  have hsame : ∀ p ∈ (join (Entry.keyed (Entry.ofNodes a.nodes))
      (Entry.keyed (Entry.ofNodes b.nodes))).pairs,
      sameAfresh p.1 p.2 = p.1.form.same p.2.form := by
    intro p hp
    obtain ⟨hx, hy, hkey⟩ := mem_pairs_of_map hp
    have hnode := sizeOf_node_of_mem hx
    refine sameAfresh_eq (Entry.canonical?_of_mem hx) (Entry.canonical?_of_mem hy) hkey ?_
    intro first second hfirst
    exact diffAfresh_eq first second
  have hmodified : ((join (Entry.keyed (Entry.ofNodes a.nodes))
      (Entry.keyed (Entry.ofNodes b.nodes))).pairs.attach.filter
        fun p => !sameAfresh p.1.1 p.1.2).unattach =
      (join (Entry.keyed (Entry.ofNodes a.nodes))
        (Entry.keyed (Entry.ofNodes b.nodes))).pairs.filter fun p => !p.1.form.same p.2.form := by
    rw [List.unattach_filter (g := fun p => !p.1.form.same p.2.form), List.unattach_attach]
    intro p hp
    rw [hsame p hp]
  rw [diffAfresh, diff]
  simp only [hmodified]
termination_by sizeOf a.nodes

/-! ## Blocks -/

/-- Two nodes of one identity, alone in their sheets, are the one modification or none. -/
theorem diff_pair {x y form form' : Node} {key : Identity} (hx : x.canonical? = some form)
    (hy : y.canonical? = some form') (hkey : form.identity? = some key)
    (hkey' : form'.identity? = some key) :
    diff ⟨[x]⟩ ⟨[y]⟩ =
      if form.same form' then .unchanged else ⟨true, [], [], [⟨x, y⟩]⟩ := by
  have hjoin : join (Entry.keyed (Entry.ofNodes [x])) (Entry.keyed (Entry.ofNodes [y])) =
      ⟨[(⟨x, form⟩, ⟨y, form'⟩)], [], []⟩ := by
    simp [Entry.ofNodes, Entry.keyed, hx, hy, hkey, hkey', join, partner, takeFirst]
  rw [diff, hjoin]
  cases hsame : form.same form' <;> simp [isComplete, hsame, Difference.unchanged]

/-- Canonical forms of nested nodes are found the same exactly if the nodes as they were
given are unchanged. -/
theorem sameSiblings_canonicalNodes (xs ys : List Node) :
    Node.sameSiblings (Node.comparisons (Node.canonicalNodes xs)) (Node.canonicalNodes ys) =
      !(diff ⟨xs⟩ ⟨ys⟩).changed := by
  rw [diff_changed, Bool.not_not]
  rfl

/-- Two blocks of one identity are modified exactly if their nested nodes differ. -/
theorem diff_blocks {x y form form' : Node} {key : Identity} {xs ys : List Node}
    (hx : x.canonical? = some form) (hy : y.canonical? = some form')
    (hkey : form.identity? = some key) (hkey' : form'.identity? = some key)
    (hnested : form.same form' =
      Node.sameSiblings (Node.comparisons (Node.canonicalNodes xs)) (Node.canonicalNodes ys)) :
    diff ⟨[x]⟩ ⟨[y]⟩ =
      if (diff ⟨xs⟩ ⟨ys⟩).changed then ⟨true, [], [], [⟨x, y⟩]⟩ else .unchanged := by
  rw [diff_pair hx hy hkey hkey', hnested, sameSiblings_canonicalNodes]
  cases (diff ⟨xs⟩ ⟨ys⟩).changed <;> rfl

/-- **Starting over makes no difference.** Comparing the nested nodes of every pair of blocks
as two sheets of their own gives the same difference; so a block around two lists of nodes is
changed exactly if the lists are, and is then the one modification. -/
theorem diff_afresh :
    (∀ a b : Stylesheet, diffAfresh a b = diff a b) ∧
      (∀ (query : String) (xs ys : List Node) (s t : Span),
        diff ⟨[.media query xs s]⟩ ⟨[.media query ys t]⟩ =
          if (diff ⟨xs⟩ ⟨ys⟩).changed then
            ⟨true, [], [], [⟨.media query xs s, .media query ys t⟩]⟩
          else .unchanged) ∧
      ∀ (kind prelude : String) (xs ys : List Node) (s t : Span),
        diff ⟨[.group kind prelude xs s]⟩ ⟨[.group kind prelude ys t]⟩ =
          if (diff ⟨xs⟩ ⟨ys⟩).changed then
            ⟨true, [], [], [⟨.group kind prelude xs s, .group kind prelude ys t⟩]⟩
          else .unchanged :=
  ⟨diffAfresh_eq, fun _ _ _ _ _ => diff_blocks rfl rfl rfl rfl rfl,
    fun _ _ _ _ _ _ => diff_blocks rfl rfl rfl rfl rfl⟩

end StyleDelta
