import StyleDelta.Proofs.Matching
import StyleDelta.Proofs.Sheet.Canonical

/-!
The comparison of siblings as a join of two lists of nodes, and what a difference
reports as positions.

The comparison joins the first siblings as closures (`comparisons`); that is the
join of the nodes themselves (`sameSiblings_comparisons`), and the verdict is this
comparison at the top level (`diff_changed`). The nodes that a difference reports
stand at positions that the canonical nodes alone determine (`diff_reportedAt`).
-/

namespace StyleDelta

open Matching

/-! ## Siblings -/

namespace Node

theorem keyed_ne_none {nodes : List Node} (h : ∀ x ∈ nodes, x.CommentFree) :
    ∀ e ∈ keyed nodes, e.1 ≠ none := by
  intro e he
  obtain ⟨x, hx, rfl⟩ := List.mem_map.mp he
  exact (h x hx).identity?_ne_none

/-- Siblings are compared by joining them as they are. -/
theorem sameSiblings_comparisons (xs ys : List Node) :
    sameSiblings (comparisons xs) ys =
      ((join (keyed xs) (keyed ys)).isComplete &&
        (join (keyed xs) (keyed ys)).pairs.all fun p => p.1.same p.2) := by
  have hfirst : comparisons xs = (keyed xs).map (Prod.map id same) := by
    simp [comparisons_eq_map, keyed]
  have hjoin := join_map same id (keyed xs) (keyed ys)
  rw [Prod.map_id, List.map_id] at hjoin
  simp only [sameSiblings, hfirst, hjoin, isComplete_map]
  simp [Matching.map, List.all_map, Function.comp_def]

end Node

/-! ## The verdict -/

/-- Nothing to report. -/
def Difference.unchanged : Difference := ⟨false, [], [], []⟩

theorem Entry.map_keyed (entries : List Entry) :
    (Entry.keyed entries).map (Prod.map id Entry.form) = Node.keyed (entries.map Entry.form) := by
  simp [Entry.keyed, Node.keyed]

/-- The verdict is the comparison of the canonical nodes at the top level. -/
theorem diff_changed (a b : Stylesheet) :
    (diff a b).changed =
      !Node.sameSiblings (Node.comparisons a.canonical.nodes) b.canonical.nodes := by
  rw [Node.sameSiblings_comparisons, Stylesheet.canonical, Stylesheet.canonical,
    ← Entry.map_form_ofNodes, ← Entry.map_form_ofNodes, ← Entry.map_keyed, ← Entry.map_keyed,
    join_map, isComplete_map]
  simp only [diff, Matching.map, List.all_map]
  congr 2
  rw [Bool.eq_iff_iff]
  simp

theorem diff_changed_iff_empty (a b : Stylesheet) :
    (diff a b).changed = false ↔
      (diff a b).extra = [] ∧ (diff a b).missing = [] ∧ (diff a b).modified = [] := by
  simp [diff, isComplete, and_assoc]

theorem diff_eq_unchanged_iff (a b : Stylesheet) :
    diff a b = .unchanged ↔ (diff a b).changed = false := by
  constructor
  · intro h
    rw [h]
    rfl
  · intro h
    obtain ⟨hextra, hmissing, hmodified⟩ := (diff_changed_iff_empty a b).mp h
    calc
      diff a b =
          ⟨(diff a b).changed, (diff a b).extra, (diff a b).missing, (diff a b).modified⟩ := rfl
      _ = .unchanged := by rw [h, hextra, hmissing, hmodified]; rfl

/-! ## Positions -/

/-- The positions of what a difference reports, where comments do not count. -/
structure Places where
  extra : List Nat
  missing : List Nat
  modified : List (Nat × Nat)

namespace Node

/-- Whether there are nodes at the two positions and their contents differ. -/
def differAt (xs ys : List Node) (i j : Nat) : Bool :=
  xs[i]?.any fun x => ys[j]?.any fun y => !x.same y

/-- What a difference of sheets with these canonical nodes reports. -/
def places (xs ys : List Node) : Places :=
  let matching := matchSiblings xs ys
  { extra := matching.extra
    missing := matching.missing
    modified := matching.pairs.filter fun (i, j) => differAt xs ys i j }

end Node

/-- The positions of what `diff` reports. -/
def diffPlaces (a b : Stylesheet) : Places := Node.places a.canonical.nodes b.canonical.nodes

/-- The reported nodes are, in their order, those at the given positions. -/
structure Difference.ReportedAt (d : Difference) (a b : Stylesheet) (p : Places) : Prop where
  extra : d.extra.map some = p.extra.map (b.contents[·]?)
  missing : d.missing.map some = p.missing.map (a.contents[·]?)
  modified : (d.modified.map fun m => (some m.before, some m.after)) =
    p.modified.map fun (i, j) => (a.contents[i]?, b.contents[j]?)

/-! ## Entries with positions -/

namespace Entry

/-- Entries with their positions, under their keys. -/
def numbered (entries : List Entry) : List (Option Identity × (Entry × Nat)) :=
  entries.zipIdx.map fun p => (p.1.form.identity?, p)

theorem map_fst_numbered (entries : List Entry) :
    (numbered entries).map (Prod.map id Prod.fst) = keyed entries := by
  calc
    (numbered entries).map (Prod.map id Prod.fst) = keyed (entries.zipIdx.map Prod.fst) := by
      simp only [numbered, keyed, List.map_map]
      rfl
    _ = keyed entries := by rw [List.zipIdx_map_fst]

theorem map_snd_numbered (entries : List Entry) :
    (numbered entries).map (Prod.map id Prod.snd) = Node.numbered (entries.map form) := by
  simp [numbered, Node.numbered, List.zipIdx_map]

/-- An entry at a position where comments do not count. -/
structure At (sheet : Stylesheet) (p : Entry × Nat) : Prop where
  node : sheet.contents[p.2]? = some p.1.node
  form : sheet.canonical.nodes[p.2]? = some p.1.form
  canonical : p.1.node.canonical? = some p.1.form

theorem at_of_mem {sheet : Stylesheet} {p : Entry × Nat}
    (h : p ∈ (ofNodes sheet.nodes).zipIdx) : At sheet p := by
  have hp := List.mem_zipIdx_iff_getElem?.mp h
  have hcanonical := canonical?_of_mem (List.fst_mem_of_mem_zipIdx h)
  constructor
  · rw [Stylesheet.contents, ← map_node_ofNodes]
    simp [hp]
  · rw [Stylesheet.canonical, ← map_form_ofNodes]
    simp [hp]
  · exact hcanonical

end Entry

/-! ## Joins of entries with positions -/

/-- What differs in its contents among the pairs of a join. -/
def Matching.differing (m : Matching (Entry × Nat) (Entry × Nat)) :
    List ((Entry × Nat) × (Entry × Nat)) :=
  m.pairs.filter fun p => !p.1.1.form.same p.2.1.form

/-- The difference that a join of entries with positions gives. -/
def Difference.ofMatching (m : Matching (Entry × Nat) (Entry × Nat)) : Difference where
  changed := !(m.isComplete && m.differing.isEmpty)
  extra := m.extra.map fun q => q.1.node
  missing := m.missing.map fun q => q.1.node
  modified := m.differing.map fun p => ⟨p.1.1.node, p.2.1.node⟩

/-- The positions of what is reported of such a join. -/
def Places.ofMatching (m : Matching (Entry × Nat) (Entry × Nat)) : Places where
  extra := m.extra.map Prod.snd
  missing := m.missing.map Prod.snd
  modified := m.differing.map fun p => (p.1.2, p.2.2)

theorem diff_eq_ofMatching {a b : Stylesheet}
    {first second : List (Option Identity × (Entry × Nat))}
    (hfirst : first.map (Prod.map id Prod.fst) = Entry.keyed (Entry.ofNodes a.nodes))
    (hsecond : second.map (Prod.map id Prod.fst) = Entry.keyed (Entry.ofNodes b.nodes)) :
    diff a b = .ofMatching (join first second) := by
  have hjoin := join_map (Prod.fst : Entry × Nat → Entry) (Prod.fst : Entry × Nat → Entry)
    first second
  simp only [diff, ← hfirst, ← hsecond, hjoin, isComplete_map]
  simp [Difference.ofMatching, Matching.differing, Matching.map, List.filter_map,
    Function.comp_def]

/-- If the entries of a join stand at their positions in two lists of nodes, what is
reported is found there. -/
theorem Difference.lookup_ofMatching {m : Matching (Entry × Nat) (Entry × Nat)}
    {xs ys : List Node} (hextra : ∀ q ∈ m.extra, ys[q.2]? = some q.1.node)
    (hmissing : ∀ q ∈ m.missing, xs[q.2]? = some q.1.node)
    (hpairs : ∀ p ∈ m.pairs, xs[p.1.2]? = some p.1.1.node ∧ ys[p.2.2]? = some p.2.1.node) :
    (ofMatching m).extra.map some = (Places.ofMatching m).extra.map (ys[·]?) ∧
      (ofMatching m).missing.map some = (Places.ofMatching m).missing.map (xs[·]?) ∧
      ((ofMatching m).modified.map fun n => (some n.before, some n.after)) =
        (Places.ofMatching m).modified.map fun (i, j) => (xs[i]?, ys[j]?) := by
  simp only [ofMatching, Places.ofMatching, List.map_map]
  refine ⟨?_, ?_, ?_⟩
  · refine List.map_congr_left fun q hq => ?_
    exact (hextra q hq).symm
  · refine List.map_congr_left fun q hq => ?_
    exact (hmissing q hq).symm
  · refine List.map_congr_left fun p hp => ?_
    obtain ⟨hx, hy⟩ := hpairs p (List.mem_filter.mp hp).1
    exact Prod.ext hx.symm hy.symm

/-! ### Positions where comments do not count -/

/-- The join of the nodes of two sheets that are no comments, with their positions. -/
def joined (a b : Stylesheet) : Matching (Entry × Nat) (Entry × Nat) :=
  join (Entry.numbered (Entry.ofNodes a.nodes)) (Entry.numbered (Entry.ofNodes b.nodes))

theorem at_of_mem_extra {a b : Stylesheet} {q : Entry × Nat} (h : q ∈ (joined a b).extra) :
    Entry.At b q := Entry.at_of_mem ((extra_sublist_of_map _ _ _ _).mem h)

theorem at_of_mem_missing {a b : Stylesheet} {q : Entry × Nat} (h : q ∈ (joined a b).missing) :
    Entry.At a q := Entry.at_of_mem ((missing_sublist_of_map _ _ _ _).mem h)

theorem at_of_mem_pairs {a b : Stylesheet} {p : (Entry × Nat) × (Entry × Nat)}
    (h : p ∈ (joined a b).pairs) :
    Entry.At a p.1 ∧ Entry.At b p.2 ∧ p.1.1.form.identity? = p.2.1.form.identity? := by
  obtain ⟨hx, hy, hkey⟩ := mem_pairs_of_map h
  exact ⟨Entry.at_of_mem hx, Entry.at_of_mem hy, hkey⟩

theorem diff_eq_joined (a b : Stylesheet) : diff a b = .ofMatching (joined a b) :=
  diff_eq_ofMatching (Entry.map_fst_numbered _) (Entry.map_fst_numbered _)

/-- The canonical nodes are matched as the nodes are joined. -/
theorem matchSiblings_canonical (a b : Stylesheet) :
    Node.matchSiblings a.canonical.nodes b.canonical.nodes =
      (joined a b).map Prod.snd Prod.snd := by
  rw [Node.matchSiblings, Stylesheet.canonical, Stylesheet.canonical, ← Entry.map_form_ofNodes,
    ← Entry.map_form_ofNodes, ← Entry.map_snd_numbered, ← Entry.map_snd_numbered, join_map]
  rfl

theorem diffPlaces_eq_ofMatching (a b : Stylesheet) :
    diffPlaces a b = .ofMatching (joined a b) := by
  have hdiffers : ∀ p ∈ (joined a b).pairs,
      Node.differAt a.canonical.nodes b.canonical.nodes p.1.2 p.2.2 =
        !p.1.1.form.same p.2.1.form := by
    intro p hp
    obtain ⟨hx, hy, -⟩ := at_of_mem_pairs hp
    simp [Node.differAt, hx.form, hy.form]
  simp only [diffPlaces, Node.places, matchSiblings_canonical, Matching.map, List.filter_map,
    Places.ofMatching, Matching.differing]
  exact congrArg (fun ps => Places.mk _ _ (List.map _ ps)) (List.filter_congr hdiffers)

/-- The canonical nodes determine where the reported nodes stand. -/
theorem diff_reportedAt (a b : Stylesheet) :
    (diff a b).ReportedAt a b (diffPlaces a b) := by
  rw [diff_eq_joined, diffPlaces_eq_ofMatching]
  obtain ⟨hextra, hmissing, hmodified⟩ := Difference.lookup_ofMatching
    (fun _ hq => (at_of_mem_extra hq).node) (fun _ hq => (at_of_mem_missing hq).node)
    (fun _ hp => ⟨(at_of_mem_pairs hp).1.node, (at_of_mem_pairs hp).2.1.node⟩)
  exact ⟨hextra, hmissing, hmodified⟩

end StyleDelta
