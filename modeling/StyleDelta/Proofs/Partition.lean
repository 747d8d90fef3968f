import StyleDelta.Proofs.Agreement
import StyleDelta.Proofs.Matching.Leftovers
import StyleDelta.Proofs.Positions

/-!
A difference accounts for every node of its sheets.

The nodes that are no comments are missing, modified or the same on the first side,
and extra, modified or the same on the second, each of them once. Main statement:
`diff_accounts`.
-/

namespace StyleDelta

open Matching

/-- The canonical forms of two nodes have one identity and the same contents. -/
def Node.SameContents (x y : Node) : Prop :=
  ∃ form form', x.canonical? = some form ∧ y.canonical? = some form' ∧
    form.identity? = form'.identity? ∧ form.Agrees form'

/-- The positions of the nodes that are no comments. -/
def Stylesheet.contentPositions (sheet : Stylesheet) : List Nat :=
  (List.range sheet.nodes.length).filter fun i => sheet.nodes[i]?.any fun node => !node.isComment

/-- What does not differ in its contents among the pairs of a join. -/
def Matching.equal (m : Matching (Entry × Nat) (Entry × Nat)) :
    List ((Entry × Nat) × (Entry × Nat)) :=
  m.pairs.filter fun p => p.1.1.form.same p.2.1.form

/-- The positions of the pairs that `diff` passes over. -/
def unmodifiedPositions (a b : Stylesheet) : List (Nat × Nat) :=
  (diffMatching a b).equal.map fun p => (p.1.2, p.2.2)

/-- What a difference reports at some positions, with the pairs that it passes over,
is a partition of both sheets. -/
structure Difference.Accounts (d : Difference) (a b : Stylesheet) (p : Places)
    (unmodified : List (Nat × Nat)) : Prop where
  standsAt : d.StandsAt a b p
  first : (p.missing ++ p.modified.map Prod.fst ++ unmodified.map Prod.fst).Perm
    a.contentPositions
  second : (p.extra ++ p.modified.map Prod.snd ++ unmodified.map Prod.snd).Perm
    b.contentPositions
  /-- What is passed over has the same contents on both sides. -/
  unmodified : ∀ q ∈ unmodified, ∃ x y, a.nodes[q.1]? = some x ∧ b.nodes[q.2]? = some y ∧
    x.SameContents y
  /-- What is modified has one identity and other contents. -/
  modified : ∀ m ∈ d.modified, m.before.canonicalIdentity? = m.after.canonicalIdentity? ∧
    ¬ m.before.SameContents m.after
  missing_sublist : d.missing.Sublist a.nodes
  before_sublist : (d.modified.map Modification.before).Sublist a.nodes
  extra_sublist : d.extra.Sublist b.nodes
  disjoint : ∀ x ∈ d.missing, ∀ y ∈ d.extra, x.canonicalIdentity? ≠ y.canonicalIdentity?

/-! ## The pairs of the join -/

theorem Matching.differing_append_equal_perm (m : Matching (Entry × Nat) (Entry × Nat)) :
    (m.differing ++ m.equal).Perm m.pairs := by
  have h := List.filter_append_perm (fun p => p.1.1.form.same p.2.1.form) m.pairs
  exact List.perm_append_comm.trans h

/-- A pair of the join has one identity, and it is found the same exactly if its
contents are. -/
theorem pair_of_placed {a b : Stylesheet} {p : (Entry × Nat) × (Entry × Nat)}
    (h : p ∈ (diffMatching a b).pairs) :
    p.1.1.node.canonicalIdentity? = p.2.1.node.canonicalIdentity? ∧
      (p.1.1.form.same p.2.1.form = true ↔ p.1.1.node.SameContents p.2.1.node) := by
  obtain ⟨key, hfirst, hsecond⟩ := exists_key_of_mem_pairs h
  obtain ⟨-, hx, hkx⟩ := Entry.mem_placed hfirst
  obtain ⟨-, hy, hky⟩ := Entry.mem_placed hsecond
  have hkey : p.1.1.form.identity? = p.2.1.form.identity? := hkx.symm.trans hky
  have hsame := Node.same_iff_agrees (Node.canonical?_commentFree hx)
    (Node.canonical?_commentFree hy) hkey
  constructor
  · simp only [Node.canonicalIdentity?, hx, hy, Option.bind_some, hkey]
  · rw [hsame]
    constructor
    · intro hagrees
      exact ⟨_, _, hx, hy, hkey, hagrees⟩
    · rintro ⟨form, form', hform, hform', -, hagrees⟩
      obtain rfl := Option.some.inj (hx.symm.trans hform)
      obtain rfl := Option.some.inj (hy.symm.trans hform')
      exact hagrees

/-! ## The nodes of a sheet -/

/-- The keys of the join are the identities of the canonical forms. -/
theorem Entry.key_placedAll (nodes : List Node) :
    ∀ e ∈ placedAll nodes, e.1 = e.2.1.node.canonicalIdentity? := by
  intro e he
  obtain ⟨-, hform, hkey⟩ := mem_placed he
  simp [Node.canonicalIdentity?, hform, hkey]

theorem Entry.canonicalIdentity?_ne_none {nodes : List Node} {q : Entry × Nat}
    (h : q ∈ (placedAll nodes).map Prod.snd) : q.1.node.canonicalIdentity? ≠ none := by
  obtain ⟨-, hform⟩ := mem_placed_of_snd h
  have hkey := (Node.canonical?_commentFree hform).identity?_ne_none
  simpa [Node.canonicalIdentity?, hform] using hkey

/-- Entries that are all those of a sheet are at the positions of its contents. -/
theorem positions_perm {sheet : Stylesheet} {qs : List (Entry × Nat)}
    (h : qs.Perm ((Entry.placedAll sheet.nodes).map Prod.snd)) :
    (qs.map Prod.snd).Perm sheet.contentPositions := by
  have hpositions := h.map Prod.snd
  rwa [Entry.placedAll, Entry.map_position_placed] at hpositions

/-- Entries in the order of a sheet are nodes in the order of the sheet. -/
theorem nodes_sublist {sheet : Stylesheet} {qs : List (Entry × Nat)}
    (h : qs.Sublist ((Entry.placedAll sheet.nodes).map Prod.snd)) :
    (qs.map fun q => q.1.node).Sublist sheet.nodes := by
  have hnodes : ((Entry.placedAll sheet.nodes).map Prod.snd).map (fun q => q.1.node) =
      sheet.contents := by
    have hkeyed := congrArg (List.map fun e => e.2.node) (Entry.map_fst_placedAll sheet.nodes)
    rw [Stylesheet.contents, ← Entry.map_node_ofNodes, List.map_map]
    simpa [Entry.keyed, Function.comp_def] using hkeyed
  have hcontents := h.map fun q => q.1.node
  rw [hnodes] at hcontents
  exact hcontents.trans List.filter_sublist

/-! ## The partition -/

theorem diff_first_perm (a b : Stylesheet) :
    ((diffPositions a b).missing ++ (diffPositions a b).modified.map Prod.fst ++
      (unmodifiedPositions a b).map Prod.fst).Perm a.contentPositions := by
  have hpairs := (diffMatching a b).differing_append_equal_perm.map Prod.fst
  have hall := (hpairs.append_left (diffMatching a b).missing).trans (join_perm_first _ _)
  simpa [diffPositions, unmodifiedPositions, Places.ofMatching, Function.comp_def] using
    positions_perm hall

theorem diff_second_perm (a b : Stylesheet) :
    ((diffPositions a b).extra ++ (diffPositions a b).modified.map Prod.snd ++
      (unmodifiedPositions a b).map Prod.snd).Perm b.contentPositions := by
  have hpairs := (diffMatching a b).differing_append_equal_perm.map Prod.snd
  have hall := (hpairs.append_left (diffMatching a b).extra).trans (join_perm_second _ _)
  simpa [diffPositions, unmodifiedPositions, Places.ofMatching, Function.comp_def] using
    positions_perm hall

theorem diff_before_sublist (a b : Stylesheet) :
    ((diff a b).modified.map Modification.before).Sublist a.nodes := by
  have hdiffering : (diffMatching a b).differing.Sublist (diffMatching a b).pairs :=
    List.filter_sublist
  have hbefore := nodes_sublist ((hdiffering.map Prod.fst).trans (pairs_sublist _ _))
  rw [diff_eq_diffMatching]
  simpa [Difference.ofMatching, Function.comp_def] using hbefore

/-- What is missing and what is extra have no identity in common. -/
theorem diff_disjoint {a b : Stylesheet} {x y : Node} (hx : x ∈ (diff a b).missing)
    (hy : y ∈ (diff a b).extra) : x.canonicalIdentity? ≠ y.canonicalIdentity? := by
  rw [diff_eq_diffMatching] at hx hy
  obtain ⟨q, hq, rfl⟩ := List.mem_map.mp hx
  obtain ⟨r, hr, rfl⟩ := List.mem_map.mp hy
  have hne := Entry.canonicalIdentity?_ne_none ((missing_sublist _ _).mem hq)
  obtain ⟨key, hkey⟩ := Option.ne_none_iff_exists'.mp hne
  let identity : Entry × Nat → Option Identity := fun q => q.1.node.canonicalIdentity?
  have hother := ne_of_left_over (f := identity) (g := identity) (Entry.key_placedAll a.nodes)
    (Entry.key_placedAll b.nodes) hq hr hkey
  intro heq
  exact hother (heq.symm.trans hkey)

/-- **Nothing is lost, repeated or invented.** The reported nodes and the pairs passed
over partition the nodes of either sheet by position; they are nodes of the sheets as
they stand there; and no identity is left over on both sides. -/
theorem diff_accounts (a b : Stylesheet) :
    (diff a b).Accounts a b (diffPositions a b) (unmodifiedPositions a b) where
  standsAt := diff_standsAt a b
  first := diff_first_perm a b
  second := diff_second_perm a b
  unmodified := by
    intro q hq
    obtain ⟨p, hp, rfl⟩ := List.mem_map.mp hq
    obtain ⟨hmem, hsame⟩ := List.mem_filter.mp hp
    obtain ⟨key, hx, hy⟩ := exists_key_of_mem_pairs hmem
    exact ⟨_, _, (Entry.mem_placed hx).1, (Entry.mem_placed hy).1,
      (pair_of_placed hmem).2.mp hsame⟩
  modified := by
    rw [diff_eq_diffMatching]
    intro n hn
    obtain ⟨p, hp, rfl⟩ := List.mem_map.mp hn
    obtain ⟨hmem, hdiffers⟩ := List.mem_filter.mp hp
    obtain ⟨hkey, hsame⟩ := pair_of_placed hmem
    refine ⟨hkey, fun hcontents => ?_⟩
    simp [hsame.mpr hcontents] at hdiffers
  missing_sublist := by
    rw [diff_eq_diffMatching]
    exact nodes_sublist (missing_sublist _ _)
  before_sublist := diff_before_sublist a b
  extra_sublist := by
    rw [diff_eq_diffMatching]
    exact nodes_sublist (extra_sublist _ _)
  disjoint := fun _ hx _ hy => diff_disjoint hx hy

end StyleDelta
