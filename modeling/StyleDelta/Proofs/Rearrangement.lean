import StyleDelta.Proofs.Agreement
import StyleDelta.Proofs.Matching.Order
import StyleDelta.Proofs.Positions

/-!
Siblings in another order.

A reordering lists the positions of siblings anew, so that siblings of one identity
keep their order. The siblings of every identity are then the same as before
(`Reorders.ofKey_placed`), which is all that the join looks at. Reorderings at any
depth leave canonical nodes that correspond (`Rearranged.corresponds`). Main
statement: `diff_rearranged`.
-/

namespace StyleDelta

open Matching

namespace Node

/-! ## Reorderings -/

/-- The identity of the canonical form at a position. -/
def identityAt (nodes : List Node) (i : Nat) : Option Identity :=
  nodes[i]?.bind canonicalIdentity?

/-- The siblings `ys` are the siblings `xs` in the order of the positions `order`, and
those of one identity keep their order. -/
structure Reorders (order : List Nat) (xs ys : List Node) : Prop where
  perm : order.Perm (List.range xs.length)
  nodes : ys.map some = order.map (xs[·]?)
  stable : order.Pairwise fun i j =>
    identityAt xs i ≠ none → identityAt xs i = identityAt xs j → i < j

/-- Siblings are reordered in any lists, at any depth, any number of times. -/
inductive Rearranged : List Node → List Node → Prop
  | reorder {order : List Nat} {xs ys : List Node} (h : Reorders order xs ys) : Rearranged xs ys
  | insideMedia {children children' : List Node} (h : Rearranged children children')
      (query : String) (span : Span) (nodes : List Node) :
      Rearranged (.media query children span :: nodes) (.media query children' span :: nodes)
  | insideGroup {children children' : List Node} (h : Rearranged children children')
      (kind prelude : String) (span : Span) (nodes : List Node) :
      Rearranged (.group kind prelude children span :: nodes)
        (.group kind prelude children' span :: nodes)
  | later {nodes nodes' : List Node} (x : Node) (h : Rearranged nodes nodes') :
      Rearranged (x :: nodes) (x :: nodes')
  | trans {xs ys zs : List Node} (h : Rearranged xs ys) (h' : Rearranged ys zs) : Rearranged xs zs

/-- Siblings in the order that they have. -/
theorem Rearranged.refl (nodes : List Node) : Rearranged nodes nodes := by
  have hstable : (List.range nodes.length).Pairwise fun i j =>
      identityAt nodes i ≠ none → identityAt nodes i = identityAt nodes j → i < j :=
    List.pairwise_lt_range.imp fun hij _ _ => hij
  exact .reorder ⟨.refl _, Entry.getElem?_range nodes, hstable⟩

theorem Reorders.nodup {order : List Nat} {xs ys : List Node} (h : Reorders order xs ys) :
    order.Nodup :=
  h.perm.nodup_iff.mpr List.nodup_range

/-- The positions of one identity are listed in ascending order. -/
theorem Reorders.filter_eq {order : List Nat} {xs ys : List Node} (h : Reorders order xs ys)
    (key : Identity) :
    (order.filter fun i => identityAt xs i = some key) =
      (List.range xs.length).filter fun i => identityAt xs i = some key := by
  have hperm := h.perm.filter fun i => decide (identityAt xs i = some key)
  have hold : ((List.range xs.length).filter fun i => identityAt xs i = some key).Pairwise
      (· < ·) := List.pairwise_lt_range.filter _
  have hnew : (order.filter fun i => identityAt xs i = some key).Pairwise (· < ·) := by
    refine (h.stable.filter _).imp_of_mem fun {i j} hi hj hstable => ?_
    have hki : identityAt xs i = some key := by simpa using (List.mem_filter.mp hi).2
    have hkj : identityAt xs j = some key := by simpa using (List.mem_filter.mp hj).2
    exact hstable (by simp [hki]) (hki.trans hkj.symm)
  refine hperm.eq_of_pairwise (fun i j _ _ hij hji => ?_) hnew hold
  omega

/-- The entries of an identity are those at the positions of the identity. -/
theorem ofKey_placed (key : Identity) (nodes : List Node) (positions : List Nat) :
    ofKey key (Entry.placed nodes positions) =
      ofKey key (Entry.placed nodes (positions.filter fun i => identityAt nodes i = some key)) := by
  induction positions with
  | nil => rfl
  | cons i positions ih =>
    by_cases hkey : identityAt nodes i = some key
    · rw [List.filter_cons_of_pos (by simpa using hkey)]
      obtain ⟨node, hnode, hform⟩ := Option.bind_eq_some_iff.mp hkey
      obtain ⟨form, hform, hidentity⟩ := Option.bind_eq_some_iff.mp hform
      simp only [Entry.placed, List.filterMap_cons, hnode, hform, Option.bind_some,
        Option.map_some, ofKey_cons, hidentity, if_true] at ih ⊢
      rw [ih]
    · rw [List.filter_cons_of_neg (by simpa using hkey), ← ih]
      -- at this position there is no entry, or one of another identity
      cases hnode : nodes[i]? with
      | none => simp [Entry.placed, hnode]
      | some node =>
        cases hform : node.canonical? with
        | none => simp [Entry.placed, hnode, hform]
        | some form =>
          have hne : form.identity? ≠ some key := by
            simpa [identityAt, canonicalIdentity?, hnode, hform] using hkey
          simp [Entry.placed, hnode, hform, ofKey_cons, hne]

theorem Reorders.ofKey_placed {order : List Nat} {xs ys : List Node} (h : Reorders order xs ys)
    (key : Identity) : ofKey key (Entry.placedAll xs) = ofKey key (Entry.placed xs order) := by
  rw [Entry.placedAll, Node.ofKey_placed, ← h.filter_eq, ← Node.ofKey_placed]

theorem Reorders.placed_perm {order : List Nat} {xs ys : List Node} (h : Reorders order xs ys) :
    (Entry.placed xs order).Perm (Entry.placedAll xs) :=
  h.perm.filterMap _

/-! ## What a reordering keeps -/

theorem map_form_placed {xs ys : List Node} {positions : List Nat}
    (h : ys.map some = positions.map (xs[·]?)) :
    (Entry.placed xs positions).map (Prod.map id fun q => q.1.form) = keyed (canonicalNodes ys) := by
  rw [← Entry.map_form_ofNodes, ← Entry.map_keyed, ← Entry.map_fst_placed h, List.map_map]
  rfl

/-- The canonical siblings of an identity are the same, in the same order. -/
theorem Reorders.ofIdentity_eq {order : List Nat} {xs ys : List Node} (h : Reorders order xs ys)
    (key : Identity) : ofIdentity key (canonicalNodes xs) = ofIdentity key (canonicalNodes ys) := by
  rw [← ofKey_keyed, ← ofKey_keyed, ← map_form_placed (Entry.getElem?_range xs),
    ← map_form_placed h.nodes, ofKey_map, ofKey_map]
  exact congrArg _ (h.ofKey_placed key)

theorem Reorders.corresponds {order : List Nat} {xs ys : List Node} (h : Reorders order xs ys) :
    Corresponds (canonicalNodes xs) (canonicalNodes ys) := by
  intro key
  rw [h.ofIdentity_eq key]
  exact Corresponds.refl (canonicalNodes_commentFree ys) key

theorem Corresponds.cons {x y : Node} {xs ys : List Node} (hkey : x.identity? = y.identity?)
    (hxy : x.Agrees y) (h : Corresponds xs ys) : Corresponds (x :: xs) (y :: ys) := by
  intro key
  by_cases hx : x.identity? = some key
  · have hy : y.identity? = some key := hkey ▸ hx
    simpa [ofIdentity, hx, hy] using List.Forall₂.cons hxy (h key)
  · have hy : y.identity? ≠ some key := hkey ▸ hx
    simpa [ofIdentity, hx, hy] using h key

theorem corresponds_canonical_refl (nodes : List Node) :
    Corresponds (canonicalNodes nodes) (canonicalNodes nodes) :=
  .refl (canonicalNodes_commentFree nodes)

/-- Rearranged siblings have canonical forms that correspond. -/
theorem Rearranged.corresponds {xs ys : List Node} (h : Rearranged xs ys) :
    Corresponds (canonicalNodes xs) (canonicalNodes ys) := by
  induction h with
  | reorder h => exact h.corresponds
  | insideMedia h query span nodes ih =>
    simp only [canonicalNodes, canonical?]
    exact .cons rfl (.media ih) (corresponds_canonical_refl nodes)
  | insideGroup h kind prelude span nodes ih =>
    simp only [canonicalNodes, canonical?]
    exact .cons rfl (.group ih) (corresponds_canonical_refl nodes)
  | later x h ih =>
    simp only [canonicalNodes]
    cases hform : x.canonical? with
    | none => exact ih
    | some form => exact .cons rfl (.refl (canonical?_commentFree hform)) ih
  | trans h h' ih ih' => exact ih.trans ih'

end Node

/-! ## What a difference sees -/

theorem diff_changed_rearranged {a a' b b' : Stylesheet} (ha : Node.Rearranged a.nodes a'.nodes)
    (hb : Node.Rearranged b.nodes b'.nodes) : (diff a' b').changed = (diff a b).changed := by
  have hfirst := ha.corresponds
  have hsecond := hb.corresponds
  rw [Bool.eq_iff_iff, ← not_iff_not, Bool.not_eq_true, Bool.not_eq_true,
    diff_changed_iff_corresponds, diff_changed_iff_corresponds]
  constructor
  · intro h
    exact (hfirst.trans h).trans hsecond.symm
  · intro h
    exact (hfirst.symm.trans h).trans hsecond

/-- Positions in the order of the entries are positions in the order given. -/
theorem positions_sublist {nodes : List Node} {order : List Nat} {qs : List (Entry × Nat)}
    (h : qs.Sublist ((Entry.placed nodes order).map Prod.snd)) :
    (qs.map Prod.snd).Sublist order := by
  have hpositions := h.map Prod.snd
  rw [Entry.map_position_placed] at hpositions
  exact hpositions.trans List.filter_sublist

/-- With the second siblings reordered, what is extra follows the new order. -/
theorem diff_reorders_second {a b b' : Stylesheet} {order : List Nat}
    (h : Node.Reorders order b.nodes b'.nodes) :
    (diff a b').missing = (diff a b).missing ∧ (diff a b').modified = (diff a b).modified ∧
      (diff a b').extra.map some =
        (order.filter fun j => j ∈ (diffPositions a b).extra).map (b.nodes[·]?) := by
  let m := join (Entry.placedAll a.nodes) (Entry.placed b.nodes order)
  have hdiff : diff a b' = .ofMatching m :=
    diff_eq_ofMatching (Entry.map_fst_placedAll a.nodes) (Entry.map_fst_placed h.nodes)
  obtain ⟨hpairs, hmissing, hextra⟩ : m.pairs = (diffMatching a b).pairs ∧
      m.missing = (diffMatching a b).missing ∧ m.extra.Perm (diffMatching a b).extra :=
    join_rearrange_second (Entry.placedAll a.nodes) h.ofKey_placed h.placed_perm
  have hpositions : m.extra.map Prod.snd =
      order.filter fun j => j ∈ (diffPositions a b).extra :=
    eq_filter_of_perm h.nodup (positions_sublist (extra_sublist _ _)) (hextra.map Prod.snd)
  rw [hdiff, diff_eq_diffMatching]
  refine ⟨?_, ?_, ?_⟩
  · simp only [Difference.ofMatching, hmissing]
  · simp only [Difference.ofMatching, Matching.differing, hpairs]
  · rw [← hpositions]
    exact standsAt_ofMatching.extra

/-- With the first siblings reordered, what is missing and what is modified follow the
new order. -/
theorem diff_reorders_first {a a' b : Stylesheet} {order : List Nat}
    (h : Node.Reorders order a.nodes a'.nodes) :
    (diff a' b).extra = (diff a b).extra ∧
      (diff a' b).missing.map some =
        (order.filter fun i => i ∈ (diffPositions a b).missing).map (a.nodes[·]?) ∧
      ((diff a' b).modified.map fun m => (some m.before, some m.after)) =
        (order.flatMap fun i => (diffPositions a b).modified.filter fun p => p.1 = i).map
          fun (i, j) => (a.nodes[i]?, b.nodes[j]?) := by
  let m := join (Entry.placed a.nodes order) (Entry.placedAll b.nodes)
  have hdiff : diff a' b = .ofMatching m :=
    diff_eq_ofMatching (Entry.map_fst_placed h.nodes) (Entry.map_fst_placedAll b.nodes)
  obtain ⟨hpairs, hextra, hmissing⟩ : m.pairs.Perm (diffMatching a b).pairs ∧
      m.extra = (diffMatching a b).extra ∧ m.missing.Perm (diffMatching a b).missing :=
    join_rearrange_first (Entry.placedAll b.nodes) h.ofKey_placed h.placed_perm
  have hmissingPositions : m.missing.map Prod.snd =
      order.filter fun i => i ∈ (diffPositions a b).missing :=
    eq_filter_of_perm h.nodup (positions_sublist (missing_sublist _ _)) (hmissing.map Prod.snd)
  have hbefore : ((m.differing.map fun p => (p.1.2, p.2.2)).map Prod.fst).Sublist order := by
    have hfiltered : m.differing.Sublist m.pairs := List.filter_sublist
    have hfirst := positions_sublist ((hfiltered.map Prod.fst).trans (pairs_sublist _ _))
    simpa [Function.comp_def] using hfirst
  have hdiffering : (m.differing.map fun p => (p.1.2, p.2.2)).Perm (diffPositions a b).modified :=
    (hpairs.filter _).map _
  have hmodifiedPositions : (m.differing.map fun p => (p.1.2, p.2.2)) =
      order.flatMap fun i => (diffPositions a b).modified.filter fun p => p.1 = i :=
    eq_flatMap_of_perm h.nodup hbefore hdiffering
  rw [hdiff, diff_eq_diffMatching]
  refine ⟨?_, ?_, ?_⟩
  · simp only [Difference.ofMatching, hextra]
  · rw [← hmissingPositions]
    exact standsAt_ofMatching.missing
  · rw [← hmodifiedPositions]
    exact standsAt_ofMatching.modified

/-- **Position among siblings does not matter, only the order within one identity.**
Rearranging either sheet keeps the verdict; reordering the top level of one side alone
keeps what is reported of the other side, and puts what is reported of this side in the
new order. -/
theorem diff_rearranged :
    (∀ a a' b b' : Stylesheet, Node.Rearranged a.nodes a'.nodes →
      Node.Rearranged b.nodes b'.nodes → (diff a' b').changed = (diff a b).changed) ∧
    (∀ a b : Stylesheet, (diff a b).StandsAt a b (diffPositions a b)) ∧
    (∀ (a b b' : Stylesheet) (order : List Nat), Node.Reorders order b.nodes b'.nodes →
      (diff a b').missing = (diff a b).missing ∧ (diff a b').modified = (diff a b).modified ∧
        (diff a b').extra.map some =
          (order.filter fun j => j ∈ (diffPositions a b).extra).map (b.nodes[·]?)) ∧
    (∀ (a a' b : Stylesheet) (order : List Nat), Node.Reorders order a.nodes a'.nodes →
      (diff a' b).extra = (diff a b).extra ∧
        (diff a' b).missing.map some =
          (order.filter fun i => i ∈ (diffPositions a b).missing).map (a.nodes[·]?) ∧
        ((diff a' b).modified.map fun m => (some m.before, some m.after)) =
          (order.flatMap fun i => (diffPositions a b).modified.filter fun p => p.1 = i).map
            fun (i, j) => (a.nodes[i]?, b.nodes[j]?)) :=
  ⟨fun _ _ _ _ => diff_changed_rearranged, diff_standsAt, fun _ _ _ _ => diff_reorders_second,
    fun _ _ _ _ => diff_reorders_first⟩

def colourRule (selector value : String) : Node :=
  .rule ⟨[selector], [.declaration ⟨"color", value, .unknown⟩], .unknown⟩

/-- Four siblings, two of them rules of one selector and one a comment. -/
def colourSiblings : List Node :=
  [colourRule "a" "red", .comment ⟨"note", ⟨1, 1⟩⟩, colourRule "b" "red", colourRule "a" "blue"]

def colourSiblingsReordered : List Node :=
  [colourRule "a" "red", colourRule "a" "blue", .comment ⟨"note", ⟨1, 1⟩⟩, colourRule "b" "red"]

theorem diff_rearranged_colourSiblings :
    Node.Reorders [0, 3, 1, 2] colourSiblings colourSiblingsReordered ∧
      Node.Rearranged [.media "print" colourSiblings .unknown]
        [.media "print" colourSiblingsReordered .unknown] ∧
      (diff ⟨[.media "print" colourSiblingsReordered .unknown]⟩
          ⟨[.media "print" colourSiblings .unknown]⟩).changed =
        (diff ⟨[.media "print" colourSiblings .unknown]⟩
          ⟨[.media "print" colourSiblings .unknown]⟩).changed ∧
      (diff ⟨[colourRule "a" "red"]⟩ ⟨colourSiblingsReordered⟩).extra.map some =
        [some (colourRule "a" "blue"), some (colourRule "b" "red")] ∧
      (diff ⟨colourSiblingsReordered⟩ ⟨[colourRule "a" "blue"]⟩).missing.map some =
        [some (colourRule "a" "blue"), some (colourRule "b" "red")] := by
  have horder : Node.Reorders [0, 3, 1, 2] colourSiblings colourSiblingsReordered :=
    ⟨by decide, rfl, by decide⟩
  have hinside : Node.Rearranged [.media "print" colourSiblings .unknown]
      [.media "print" colourSiblingsReordered .unknown] := .insideMedia (.reorder horder) ..
  obtain ⟨hchanged, -, hsecond, hfirst⟩ := diff_rearranged
  obtain ⟨-, -, hextra⟩ := hsecond ⟨[colourRule "a" "red"]⟩ ⟨colourSiblings⟩ _ _ horder
  obtain ⟨-, hmissing, -⟩ := hfirst ⟨colourSiblings⟩ _ ⟨[colourRule "a" "blue"]⟩ _ horder
  exact ⟨horder, hinside, hchanged _ _ _ _ hinside (.refl _), hextra.trans rfl, hmissing.trans rfl⟩

end StyleDelta
