import StyleDelta.Proofs.Agreement
import StyleDelta.Proofs.Matching.Common

/-!
Nodes that both sheets have in common.

In front they are joined with themselves and leave the rest alone (`diff_common_front`).
Behind, they may be joined with nodes of the sheets that share their identity, so other
nodes are reported; but the verdict looks at one identity at a time, where common nodes
behind cancel (`corresponds_append_iff`), and the numbers of nodes left over do not
depend on the order of the nodes. Main statement: `diff_common`.
-/

namespace StyleDelta

open Matching

/-! ## Nodes in front -/

theorem Entry.ofNodes_append (xs ys : List Node) :
    ofNodes (xs ++ ys) = ofNodes xs ++ ofNodes ys := List.filterMap_append

theorem Entry.form_same_self {nodes : List Node} {entry : Entry} (h : entry ∈ ofNodes nodes) :
    entry.form.same entry.form = true := by
  have hfree := form_commentFree h
  exact (Node.same_iff_agrees hfree hfree rfl).mpr (.refl hfree)

/-- Each entry beside itself. -/
def Entry.twins (entries : List Entry) : List (Entry × Entry) :=
  entries.map fun entry => (entry, entry)

theorem Entry.mem_twins {entries : List Entry} {p : Entry × Entry} (h : p ∈ twins entries) :
    p.1 ∈ entries ∧ p.2 = p.1 := by
  obtain ⟨entry, hentry, rfl⟩ := List.mem_map.mp h
  exact ⟨hentry, rfl⟩

/-- Common nodes in front are joined with themselves. -/
theorem join_common (c a b : List Node) :
    let rest := join (Entry.keyed (Entry.ofNodes a)) (Entry.keyed (Entry.ofNodes b))
    join (Entry.keyed (Entry.ofNodes (c ++ a))) (Entry.keyed (Entry.ofNodes (c ++ b))) =
      ⟨Entry.twins (Entry.ofNodes c) ++ rest.pairs, rest.extra, rest.missing⟩ := by
  have hkey : ∀ p ∈ Entry.twins (Entry.ofNodes c), p.1.form.identity? = p.2.form.identity? := by
    intro p hp
    rw [(Entry.mem_twins hp).2]
  have hsome : ∀ p ∈ Entry.twins (Entry.ofNodes c), p.1.form.identity? ≠ none := by
    intro p hp
    exact (Entry.form_commentFree (Entry.mem_twins hp).1).identity?_ne_none
  have hjoin := join_aligned (fun entry : Entry => entry.form.identity?)
    (fun entry : Entry => entry.form.identity?) hkey hsome (Entry.ofNodes a) (Entry.ofNodes b)
  simpa [Entry.keyed, Entry.ofNodes_append, Entry.twins, Function.comp_def] using hjoin

theorem diff_common_front (c a b : List Node) : diff ⟨c ++ a⟩ ⟨c ++ b⟩ = diff ⟨a⟩ ⟨b⟩ := by
  have hsame : (Entry.twins (Entry.ofNodes c)).filter (fun p => !p.1.form.same p.2.form) = [] := by
    rw [List.filter_eq_nil_iff]
    intro p hp
    obtain ⟨hentry, htwin⟩ := Entry.mem_twins hp
    simp [htwin, Entry.form_same_self hentry]
  simp only [diff, join_common, List.filter_append, hsame, List.nil_append]
  rfl

/-! ## Nodes behind -/

theorem forall₂_append_iff {α : Type} {R : α → α → Prop} {xs ys zs : List α}
    (hR : ∀ z ∈ zs, R z z) :
    List.Forall₂ R (xs ++ zs) (ys ++ zs) ↔ List.Forall₂ R xs ys := by
  constructor
  · intro h
    have hlength : xs.length = ys.length := by
      have hall := h.length_eq
      simpa using hall
    have hfront := List.forall₂_take xs.length h
    rwa [List.take_left, hlength, List.take_left] at hfront
  · intro h
    exact List.rel_append h (List.forall₂_same.mpr hR)

namespace Node

theorem ofIdentity_append (key : Identity) (xs ys : List Node) :
    ofIdentity key (xs ++ ys) = ofIdentity key xs ++ ofIdentity key ys := by
  simp [ofIdentity]

theorem canonicalNodes_append (xs ys : List Node) :
    canonicalNodes (xs ++ ys) = canonicalNodes xs ++ canonicalNodes ys := by
  simp [canonicalNodes_eq_filterMap]

/-- Of every identity, the same nodes behind on both sides cancel. -/
theorem corresponds_append_iff {xs ys zs : List Node} (h : ∀ z ∈ zs, z.CommentFree) :
    Corresponds (xs ++ zs) (ys ++ zs) ↔ Corresponds xs ys := by
  refine forall_congr' fun key => ?_
  rw [ofIdentity_append, ofIdentity_append]
  exact forall₂_append_iff fun z hz => .refl (h z (mem_ofIdentity.mp hz).1)

end Node

theorem diff_changed_common_behind (c a b : List Node) :
    (diff ⟨a ++ c⟩ ⟨b ++ c⟩).changed = (diff ⟨a⟩ ⟨b⟩).changed := by
  rw [Bool.eq_iff_iff, ← not_iff_not, Bool.not_eq_true, Bool.not_eq_true,
    diff_changed_iff_corresponds, diff_changed_iff_corresponds]
  simp only [Stylesheet.canonical, Node.canonicalNodes_append]
  exact Node.corresponds_append_iff (Node.canonicalNodes_commentFree c)

/-- Nodes behind leave as many others over as the same nodes in front. -/
theorem diff_length_common_behind (c a b : List Node) :
    (diff ⟨a ++ c⟩ ⟨b ++ c⟩).extra.length = (diff ⟨a⟩ ⟨b⟩).extra.length ∧
      (diff ⟨a ++ c⟩ ⟨b ++ c⟩).missing.length = (diff ⟨a⟩ ⟨b⟩).missing.length := by
  have hperm : ∀ xs : List Node, (Entry.keyed (Entry.ofNodes (xs ++ c))).Perm
      (Entry.keyed (Entry.ofNodes (c ++ xs))) :=
    fun xs => (List.perm_append_comm.filterMap _).map _
  rw [← diff_common_front c a b]
  simpa only [diff, List.length_map] using length_leftovers_of_perm (hperm a) (hperm b)

/-- **Common nodes contribute nothing.** In front of both sheets they change nothing
in the difference; behind both sheets they change neither the verdict nor the numbers
of nodes that are extra and missing. -/
theorem diff_common (c a b : List Node) :
    diff ⟨c ++ a⟩ ⟨c ++ b⟩ = diff ⟨a⟩ ⟨b⟩ ∧
      (diff ⟨a ++ c⟩ ⟨b ++ c⟩).changed = (diff ⟨a⟩ ⟨b⟩).changed ∧
      (diff ⟨a ++ c⟩ ⟨b ++ c⟩).extra.length = (diff ⟨a⟩ ⟨b⟩).extra.length ∧
      (diff ⟨a ++ c⟩ ⟨b ++ c⟩).missing.length = (diff ⟨a⟩ ⟨b⟩).missing.length :=
  ⟨diff_common_front c a b, diff_changed_common_behind c a b, diff_length_common_behind c a b⟩

end StyleDelta
