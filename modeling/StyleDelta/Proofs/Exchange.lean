import StyleDelta.Proofs.Agreement

/-!
The difference with its sheets exchanged.

The join consumes one side in the order of the other, so the two directions go
through different states. What they pair and leave over is the same all the same
(`Matching.join_exchange`), and a pair is compared alike from both sides
(`Node.same_comm`). Main statement: `diff_exchange`.
-/

namespace StyleDelta

open Matching

def Modification.exchange (m : Modification) : Modification := ⟨m.after, m.before⟩

theorem Node.same_comm {x y : Node} (hx : x.CommentFree) (hy : y.CommentFree)
    (hkey : x.identity? = y.identity?) : x.same y = y.same x := by
  rw [Bool.eq_iff_iff, same_iff_agrees hx hy hkey, same_iff_agrees hy hx hkey.symm]
  exact ⟨.symm, .symm⟩

/-- Entries that are joined are compared alike from both sides. -/
theorem Entry.same_comm_of_mem_pairs {xs ys : List Node} {p : Entry × Entry}
    (h : p ∈ (join (Entry.keyed (ofNodes xs)) (Entry.keyed (ofNodes ys))).pairs) :
    p.1.form.same p.2.form = p.2.form.same p.1.form := by
  obtain ⟨hx, hy, hkey⟩ := mem_pairs_of_map h
  exact Node.same_comm (form_commentFree hx) (form_commentFree hy) hkey

theorem diff_changed_comm (a b : Stylesheet) : (diff b a).changed = (diff a b).changed := by
  rw [Bool.eq_iff_iff, ← not_iff_not, Bool.not_eq_true, Bool.not_eq_true,
    diff_changed_iff_corresponds, diff_changed_iff_corresponds]
  exact ⟨.symm, .symm⟩

/-- **The exchanged sheets give the mirrored difference.** The verdict stays, what
is extra becomes missing and the reverse, in the same order, and the modifications
are the same with their sides exchanged. -/
theorem diff_exchange (a b : Stylesheet) :
    (diff b a).changed = (diff a b).changed ∧ (diff b a).extra = (diff a b).missing ∧
      (diff b a).missing = (diff a b).extra ∧
      (diff b a).modified.Perm ((diff a b).modified.map Modification.exchange) := by
  have hjoin := join_exchange (Entry.keyed (Entry.ofNodes a.nodes))
    (Entry.keyed (Entry.ofNodes b.nodes))
  refine ⟨diff_changed_comm a b, congrArg (List.map Entry.node) hjoin.extra,
    congrArg (List.map Entry.node) hjoin.missing, ?_⟩
  have hpairs := (hjoin.pairs.filter fun p => !p.1.form.same p.2.form).map
    fun p => (⟨p.1.node, p.2.node⟩ : Modification)
  refine hpairs.trans (.of_eq ?_)
  simp only [diff, exchange, List.filter_map, List.map_map]
  -- the swapped filter asks for the comparison from the other side
  rw [List.filter_congr fun p hp => congrArg not (Entry.same_comm_of_mem_pairs hp)]
  rfl

end StyleDelta
