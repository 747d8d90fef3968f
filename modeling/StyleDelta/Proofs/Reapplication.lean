import StyleDelta.Proofs.Agreement
import StyleDelta.Proofs.Matching.Common
import StyleDelta.Proofs.Matching.Leftovers

/-!
What a difference reports, compared again.

What is missing and what is extra have no identity in common, so among themselves they
are left over once more (`diff_leftovers`). The sides of the modifications, listed
modification by modification, have the same identities in the same order; they are
joined as they stand, although nodes of the same identities that do not differ are gone
from between them (`diff_modifications`). Main statement: `diff_again`.
-/

namespace StyleDelta

open Matching

namespace Entry

/-- An entry whose form is that of its node. -/
def Proper (entry : Entry) : Prop := entry.node.canonical? = some entry.form

/-- The nodes of entries have these entries again. -/
theorem ofNodes_map_node {α : Type} (f : α → Entry) {xs : List α} (h : ∀ x ∈ xs, (f x).Proper) :
    ofNodes (xs.map fun x => (f x).node) = xs.map f := by
  induction xs with
  | nil => rfl
  | cons x xs ih =>
    obtain ⟨hx, hrest⟩ := List.forall_mem_cons.mp h
    have hform : (f x).node.canonical? = some (f x).form := hx
    rw [List.map_cons, ofNodes_cons, hform, ih hrest]
    rfl

theorem Proper.identity?_ne_none {entry : Entry} (h : entry.Proper) :
    entry.form.identity? ≠ none :=
  (Node.canonical?_commentFree h).identity?_ne_none

end Entry

/-- The join of the nodes of two sheets with their forms. -/
def entryMatching (a b : Stylesheet) : Matching Entry Entry :=
  join (Entry.keyed (Entry.ofNodes a.nodes)) (Entry.keyed (Entry.ofNodes b.nodes))

/-- The pairs of the join whose contents differ. -/
def differingEntries (a b : Stylesheet) : List (Entry × Entry) :=
  (entryMatching a b).pairs.filter fun p => !p.1.form.same p.2.form

section

variable {a b : Stylesheet}

theorem proper_of_mem_missing {x : Entry} (h : x ∈ (entryMatching a b).missing) : x.Proper :=
  Entry.canonical?_of_mem ((missing_sublist_of_map _ _ _ _).mem h)

theorem proper_of_mem_extra {y : Entry} (h : y ∈ (entryMatching a b).extra) : y.Proper :=
  Entry.canonical?_of_mem ((extra_sublist_of_map _ _ _ _).mem h)

/-- The entries of a pair have one identity. -/
theorem proper_of_mem_pairs {p : Entry × Entry} (h : p ∈ (entryMatching a b).pairs) :
    p.1.Proper ∧ p.2.Proper ∧ p.1.form.identity? = p.2.form.identity? := by
  obtain ⟨hx, hy, hkey⟩ := mem_pairs_of_map h
  exact ⟨Entry.canonical?_of_mem hx, Entry.canonical?_of_mem hy, hkey⟩

/-- No identity is left over on both sides. -/
theorem identity?_ne_of_leftover {x y : Entry} (hx : x ∈ (entryMatching a b).missing)
    (hy : y ∈ (entryMatching a b).extra) : x.form.identity? ≠ y.form.identity? := by
  obtain ⟨key, hkey⟩ := Option.ne_none_iff_exists'.mp
    (proper_of_mem_missing hx).identity?_ne_none
  let identity : Entry → Option Identity := fun entry => entry.form.identity?
  have hkeys : ∀ nodes, ∀ e ∈ Entry.keyed (Entry.ofNodes nodes), e.1 = identity e.2 := by
    intro nodes e he
    obtain ⟨entry, -, rfl⟩ := List.mem_map.mp he
    rfl
  have hne := ne_of_left_over (f := identity) (g := identity) (hkeys a.nodes) (hkeys b.nodes)
    hx hy hkey
  intro heq
  exact hne (heq.symm.trans hkey)

end

/-! ## What is left over -/

theorem join_leftovers (a b : Stylesheet) :
    join (Entry.keyed (Entry.ofNodes (diff a b).missing))
        (Entry.keyed (Entry.ofNodes (diff a b).extra)) =
      ⟨[], (entryMatching a b).extra, (entryMatching a b).missing⟩ := by
  have hmissing : Entry.ofNodes (diff a b).missing = (entryMatching a b).missing.map id :=
    Entry.ofNodes_map_node id fun _ => proper_of_mem_missing
  have hextra : Entry.ofNodes (diff a b).extra = (entryMatching a b).extra.map id :=
    Entry.ofNodes_map_node id fun _ => proper_of_mem_extra
  rw [List.map_id] at hmissing hextra
  rw [hmissing, hextra, join_apart]
  · simp [Entry.keyed, Function.comp_def]
  · intro e he e' he' _
    obtain ⟨x, hx, rfl⟩ := List.mem_map.mp he
    obtain ⟨y, hy, rfl⟩ := List.mem_map.mp he'
    exact identity?_ne_of_leftover hx hy

theorem diff_leftovers (a b : Stylesheet) :
    diff ⟨(diff a b).missing⟩ ⟨(diff a b).extra⟩ =
      ⟨!((diff a b).extra.isEmpty && (diff a b).missing.isEmpty), (diff a b).extra,
        (diff a b).missing, []⟩ := by
  rw [diff, join_leftovers]
  simp [diff, entryMatching, isComplete]

/-! ## What is modified -/

theorem diff_modified (a b : Stylesheet) :
    (diff a b).modified =
      (differingEntries a b).map fun p => ⟨p.1.node, p.2.node⟩ := rfl

/-- The sides of the modifications are joined pair by pair. -/
theorem join_modifications (a b : Stylesheet) :
    join (Entry.keyed (Entry.ofNodes ((diff a b).modified.map Modification.before)))
        (Entry.keyed (Entry.ofNodes ((diff a b).modified.map Modification.after))) =
      ⟨differingEntries a b, [], []⟩ := by
  have hpairs : ∀ p ∈ differingEntries a b,
      p.1.Proper ∧ p.2.Proper ∧ p.1.form.identity? = p.2.form.identity? :=
    fun p hp => proper_of_mem_pairs (List.mem_filter.mp hp).1
  have hbefore : Entry.ofNodes ((differingEntries a b).map fun p => p.1.node) =
      (differingEntries a b).map Prod.fst :=
    Entry.ofNodes_map_node Prod.fst fun p hp => (hpairs p hp).1
  have hafter : Entry.ofNodes ((differingEntries a b).map fun p => p.2.node) =
      (differingEntries a b).map Prod.snd :=
    Entry.ofNodes_map_node Prod.snd fun p hp => (hpairs p hp).2.1
  have hjoin := join_aligned (fun entry : Entry => entry.form.identity?)
    (fun entry : Entry => entry.form.identity?) (fun p hp => (hpairs p hp).2.2)
    (fun p hp => (hpairs p hp).1.identity?_ne_none) [] []
  rw [diff_modified, List.map_map, List.map_map, Function.comp_def, Function.comp_def, hbefore,
    hafter]
  simpa [Entry.keyed, join] using hjoin

theorem diff_modifications (a b : Stylesheet) :
    diff ⟨(diff a b).modified.map Modification.before⟩
        ⟨(diff a b).modified.map Modification.after⟩ =
      ⟨!(diff a b).modified.isEmpty, [], [], (diff a b).modified⟩ := by
  have hdiffer : (differingEntries a b).filter (fun p => !p.1.form.same p.2.form) =
      differingEntries a b := by
    simp [differingEntries, List.filter_filter]
  rw [diff, join_modifications, diff_modified]
  simp [hdiffer, isComplete]

/-- **A difference is closed under comparing again.** What is missing compared with
what is extra gives both back and modifies nothing; the nodes before compared with the
nodes after leave nothing over and are the same modifications in the same order. -/
theorem diff_again (a b : Stylesheet) :
    let result := diff a b
    let leftovers := diff ⟨result.missing⟩ ⟨result.extra⟩
    let modifications := diff ⟨result.modified.map Modification.before⟩
      ⟨result.modified.map Modification.after⟩
    (leftovers.extra = result.extra ∧ leftovers.missing = result.missing ∧
      leftovers.modified = [] ∧
      (leftovers.changed = true ↔ result.extra ≠ [] ∨ result.missing ≠ [])) ∧
    modifications.extra = [] ∧ modifications.missing = [] ∧
      modifications.modified = result.modified := by
  intro result leftovers modifications
  have hleftovers : leftovers = _ := diff_leftovers a b
  have hmodifications : modifications = _ := diff_modifications a b
  rw [hleftovers, hmodifications]
  refine ⟨⟨rfl, rfl, rfl, ?_⟩, rfl, rfl, rfl⟩
  simp [result]

end StyleDelta
