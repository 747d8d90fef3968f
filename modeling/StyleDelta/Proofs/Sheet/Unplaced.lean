import StyleDelta.Proofs.Siblings

/-!
Trees whose places in the source text are forgotten.

Neither the identity of a node nor the comparison of two nodes looks at a place
(`identity?_unplaced`, `same_unplaced`), hence neither does the choice of what a
difference reports (`places_unplaced`).
-/

namespace StyleDelta

open Matching

def Declaration.unplaced (d : Declaration) : Declaration := { d with span := .unknown }

def RuleItem.unplaced : RuleItem → RuleItem
  | .declaration d => .declaration d.unplaced
  | .comment c => .comment { c with span := .unknown }
  | .other description => .other description

def Rule.unplaced (r : Rule) : Rule := ⟨r.selectors, r.items.map RuleItem.unplaced, .unknown⟩

namespace Node

mutual

/-- The node with every place in it unknown, at every depth. -/
def unplaced : Node → Node
  | rule r => rule r.unplaced
  | media query children _ => media query (unplacedAll children) .unknown
  | group kind prelude children _ => group kind prelude (unplacedAll children) .unknown
  | comment c => comment { c with span := .unknown }
  | other kind payload _ => other kind payload .unknown
termination_by structural node => node

def unplacedAll : List Node → List Node
  | [] => []
  | node :: rest => unplaced node :: unplacedAll rest
termination_by structural nodes => nodes

end

theorem unplacedAll_eq_map (nodes : List Node) : unplacedAll nodes = nodes.map unplaced := by
  induction nodes with
  | nil => rfl
  | cons node rest ih => rw [unplacedAll, List.map_cons, ih]

theorem identity?_unplaced (x : Node) : x.unplaced.identity? = x.identity? := by
  cases x <;> rfl

theorem keyed_map_unplaced (nodes : List Node) :
    keyed (nodes.map unplaced) = (keyed nodes).map (Prod.map id unplaced) := by
  simp [keyed, identity?_unplaced]

end Node

theorem RuleItem.same_unplaced (a b : RuleItem) : a.unplaced.same b.unplaced = a.same b := by
  cases a <;> cases b <;> rfl

theorem isEqv_map {α β : Type} (f : α → α → Bool) (g : β → α) (xs ys : List β) :
    (xs.map g).isEqv (ys.map g) f = xs.isEqv ys fun x y => f (g x) (g y) := by
  induction xs generalizing ys with
  | nil => cases ys <;> rfl
  | cons x xs ih => cases ys <;> simp [List.isEqv, ih]

theorem Rule.contents_unplaced (r : Rule) :
    r.unplaced.contents = r.contents.map RuleItem.unplaced := by
  simp only [Rule.contents, Rule.unplaced, List.filter_map]
  congr 2
  funext item
  cases item <;> rfl

theorem Rule.same_unplaced (r s : Rule) : r.unplaced.same s.unplaced = r.same s := by
  simp only [Rule.same, Rule.contents_unplaced, isEqv_map, RuleItem.same_unplaced]

namespace Node

theorem children?_unplaced (x : Node) :
    x.unplaced.children? = x.children?.map (List.map unplaced) := by
  cases x <;> simp [unplaced, children?, unplacedAll_eq_map]

/-- The comparison of siblings looks at no place, if that of the first ones does not. -/
theorem sameSiblings_unplaced {xs : List Node}
    (h : ∀ x ∈ xs, ∀ y : Node, x.unplaced.same y.unplaced = x.same y) (ys : List Node) :
    sameSiblings (comparisons (xs.map unplaced)) (ys.map unplaced) =
      sameSiblings (comparisons xs) ys := by
  simp only [sameSiblings_comparisons, keyed_map_unplaced, join_map, isComplete_map]
  congr 1
  rw [Bool.eq_iff_iff, List.all_eq_true, List.all_eq_true, Matching.map, List.forall_mem_map]
  refine forall₂_congr fun p hp => ?_
  rw [Prod.map_fst, Prod.map_snd, h p.1 (mem_pairs_of_map hp).1]

/-- The comparison of two nodes looks at no place. -/
theorem same_unplaced (x y : Node) : x.unplaced.same y.unplaced = x.same y := by
  induction x using Node.induction generalizing y with
  | rule r => cases y <;> simp [unplaced, same, Rule.same_unplaced]
  | media query children span ih =>
    simp only [unplaced, same, children?_unplaced, unplacedAll_eq_map, Option.all_map]
    congr 1
    funext ys
    exact sameSiblings_unplaced ih ys
  | group kind prelude children span ih =>
    simp only [unplaced, same, children?_unplaced, unplacedAll_eq_map, Option.all_map]
    congr 1
    funext ys
    exact sameSiblings_unplaced ih ys
  | comment c => rfl
  | other kind payload span => rfl

theorem numbered_map_unplaced (nodes : List Node) :
    numbered (nodes.map unplaced) = numbered nodes := by
  simp [numbered, List.zipIdx_map, identity?_unplaced]

theorem differAt_unplaced (xs ys : List Node) (i j : Nat) :
    differAt (xs.map unplaced) (ys.map unplaced) i j = differAt xs ys i j := by
  simp [differAt, Option.any_map, same_unplaced]

/-- What is reported depends on no place. -/
theorem places_unplaced (xs ys : List Node) :
    places (xs.map unplaced) (ys.map unplaced) = places xs ys := by
  simp only [places, matchSiblings, numbered_map_unplaced, differAt_unplaced]

end Node

end StyleDelta
