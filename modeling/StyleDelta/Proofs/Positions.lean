import StyleDelta.Proofs.Siblings

/-!
Where the nodes of a difference stand among all nodes of their sheets.

The nodes of a sheet may be listed in any order, each with the position that it has in
the sheet. Their join gives the difference of the sheets that have this order
(`Entry.map_fst_placed`) and the positions of what it reports (`diff_standsAt`).
-/

namespace StyleDelta

open Matching

/-- The identity of the canonical form of a node. -/
def Node.canonicalIdentity? (x : Node) : Option Identity := x.canonical?.bind Node.identity?

/-! ## Nodes at positions -/

namespace Entry

/-- The nodes at some positions that are no comments, each with its position, under
their keys. -/
def placed (nodes : List Node) (positions : List Nat) : List (Option Identity × (Entry × Nat)) :=
  positions.filterMap fun i =>
    nodes[i]?.bind fun node => node.canonical?.map fun form => (form.identity?, ⟨node, form⟩, i)

/-- All nodes that are no comments. -/
def placedAll (nodes : List Node) : List (Option Identity × (Entry × Nat)) :=
  placed nodes (List.range nodes.length)

theorem mem_placed {nodes : List Node} {positions : List Nat}
    {e : Option Identity × (Entry × Nat)} (h : e ∈ placed nodes positions) :
    nodes[e.2.2]? = some e.2.1.node ∧ e.2.1.node.canonical? = some e.2.1.form ∧
      e.1 = e.2.1.form.identity? := by
  obtain ⟨i, -, hi⟩ := List.mem_filterMap.mp h
  obtain ⟨node, hnode, hform⟩ := Option.bind_eq_some_iff.mp hi
  obtain ⟨form, hcanonical, rfl⟩ := Option.map_eq_some_iff.mp hform
  exact ⟨hnode, hcanonical, rfl⟩

/-- What is said of the nodes at positions holds of the entries that a join leaves. -/
theorem mem_placed_of_snd {nodes : List Node} {positions : List Nat} {q : Entry × Nat}
    (h : q ∈ (placed nodes positions).map Prod.snd) :
    nodes[q.2]? = some q.1.node ∧ q.1.node.canonical? = some q.1.form := by
  obtain ⟨e, he, rfl⟩ := List.mem_map.mp h
  exact ⟨(mem_placed he).1, (mem_placed he).2.1⟩

theorem getElem?_range (nodes : List Node) :
    nodes.map some = (List.range nodes.length).map (nodes[·]?) := by
  apply List.ext_getElem?
  intro i
  by_cases h : i < nodes.length
  · simp [h]
  · have hle : nodes.length ≤ i := by omega
    simp [hle]

/-- Listed in another order, nodes are the nodes of the sheet that has this order. -/
theorem map_fst_placed {xs ys : List Node} {positions : List Nat}
    (h : ys.map some = positions.map (xs[·]?)) :
    (placed xs positions).map (Prod.map id Prod.fst) = keyed (ofNodes ys) := by
  let entry : Node → Option (Option Identity × Entry) := fun node =>
    node.canonical?.map fun form => (form.identity?, ⟨node, form⟩)
  calc
    (placed xs positions).map (Prod.map id Prod.fst) =
        (positions.map (xs[·]?)).filterMap fun node => node.bind entry := by
      rw [placed, List.map_filterMap, List.filterMap_map]
      refine List.filterMap_congr fun i _ => ?_
      cases hi : xs[i]? with
      | none => simp [hi]
      | some node => cases hform : node.canonical? <;> simp [entry, hi, hform]
    _ = ys.filterMap entry := by
      rw [← h, List.filterMap_map]
      rfl
    _ = keyed (ofNodes ys) := by
      rw [keyed, ofNodes, List.map_filterMap]
      refine List.filterMap_congr fun node _ => ?_
      cases hform : node.canonical? <;> simp [entry, hform]

theorem map_fst_placedAll (nodes : List Node) :
    (placedAll nodes).map (Prod.map id Prod.fst) = keyed (ofNodes nodes) :=
  map_fst_placed (getElem?_range nodes)

/-- The positions of the nodes that are no comments. -/
theorem map_position_placed (nodes : List Node) (positions : List Nat) :
    ((placed nodes positions).map Prod.snd).map Prod.snd =
      positions.filter fun i => nodes[i]?.any fun node => !node.isComment := by
  rw [List.map_map, placed, List.map_filterMap, ← List.filterMap_eq_filter]
  refine List.filterMap_congr fun i _ => ?_
  cases hi : nodes[i]? with
  | none => simp [Option.guard, hi]
  | some node =>
    cases hform : node.canonical? with
    | none => simp [Option.guard, hi, (Node.canonical?_eq_none_iff node).mp hform, hform]
    | some form =>
      have hc : node.isComment = false := by
        rw [← Bool.not_eq_true, ← Node.canonical?_eq_none_iff, hform]
        simp
      simp [Option.guard, hi, hc, hform]

end Entry

/-! ## The difference of nodes with positions -/

/-- The join of the nodes of two sheets with their positions. -/
def diffMatching (a b : Stylesheet) : Matching (Entry × Nat) (Entry × Nat) :=
  join (Entry.placedAll a.nodes) (Entry.placedAll b.nodes)

/-- The positions of what `diff` reports, where comments count. -/
def diffPositions (a b : Stylesheet) : Places := .ofMatching (diffMatching a b)

theorem diff_eq_diffMatching (a b : Stylesheet) : diff a b = .ofMatching (diffMatching a b) :=
  diff_eq_ofMatching (Entry.map_fst_placedAll a.nodes) (Entry.map_fst_placedAll b.nodes)

/-- The reported nodes are, in their order, those at the given positions. -/
structure Difference.StandsAt (d : Difference) (a b : Stylesheet) (p : Places) : Prop where
  extra : d.extra.map some = p.extra.map (b.nodes[·]?)
  missing : d.missing.map some = p.missing.map (a.nodes[·]?)
  modified : (d.modified.map fun m => (some m.before, some m.after)) =
    p.modified.map fun (i, j) => (a.nodes[i]?, b.nodes[j]?)

theorem standsAt_ofMatching {a b : Stylesheet} {positions positions' : List Nat} :
    let m := join (Entry.placed a.nodes positions) (Entry.placed b.nodes positions')
    (Difference.ofMatching m).StandsAt a b (.ofMatching m) := by
  intro m
  have hpairs : ∀ p ∈ m.pairs, a.nodes[p.1.2]? = some p.1.1.node ∧
      b.nodes[p.2.2]? = some p.2.1.node := by
    intro p hp
    obtain ⟨key, hfirst, hsecond⟩ := exists_key_of_mem_pairs hp
    exact ⟨(Entry.mem_placed hfirst).1, (Entry.mem_placed hsecond).1⟩
  obtain ⟨hextra, hmissing, hmodified⟩ := Difference.lookup_ofMatching
    (fun _ hq => (Entry.mem_placed_of_snd ((extra_sublist _ _).mem hq)).1)
    (fun _ hq => (Entry.mem_placed_of_snd ((missing_sublist _ _).mem hq)).1) hpairs
  exact ⟨hextra, hmissing, hmodified⟩

/-- The positions of a difference are those of the nodes that it reports. -/
theorem diff_standsAt (a b : Stylesheet) : (diff a b).StandsAt a b (diffPositions a b) := by
  rw [diff_eq_diffMatching]
  exact standsAt_ofMatching

end StyleDelta
