import StyleDelta.Proofs.Matching

/-!
Every entry of the rank join is paired once or left over once.

On either side the leftovers and the entries in pairs are together the entries that
there were (`join_perm_first`, `join_perm_second`), and a key that is left over on
one side is used up on the other (`ne_of_left_over`).
-/

namespace StyleDelta.Matching

variable {κ α β : Type} [DecidableEq κ]

theorem join_perm_first (first : List (Option κ × α)) (second : List (Option κ × β)) :
    ((join first second).missing ++ (join first second).pairs.map Prod.fst).Perm
      (first.map Prod.snd) := by
  induction first, second using join_induction with
  | nil second => exact .refl _
  | alone key x first second hp ih =>
    rw [join_alone hp]
    exact ih.cons x
  | paired key x first second y left htake ih =>
    rw [join_paired htake]
    exact List.perm_middle.trans (ih.cons x)

theorem join_perm_second (first : List (Option κ × α)) (second : List (Option κ × β)) :
    ((join first second).extra ++ (join first second).pairs.map Prod.snd).Perm
      (second.map Prod.snd) := by
  induction first, second using join_induction with
  | nil second => simp [join]
  | alone key x first second hp ih =>
    rw [join_alone hp]
    exact ih
  | paired key x first second y left htake ih =>
    have htaken : (y :: left.map Prod.snd).Perm (second.map Prod.snd) :=
      ((takeFirst_perm htake).map Prod.snd).symm
    rw [join_paired htake]
    exact (List.perm_middle.trans (ih.cons y)).trans htaken

/-- The pairs stand in the order of the first sequence. -/
theorem pairs_sublist (first : List (Option κ × α)) (second : List (Option κ × β)) :
    ((join first second).pairs.map Prod.fst).Sublist (first.map Prod.snd) := by
  induction first, second using join_induction with
  | nil second => exact .refl _
  | alone key x first second hp ih =>
    rw [join_alone hp]
    exact ih.cons x
  | paired key x first second y left htake ih =>
    rw [join_paired htake]
    exact ih.cons_cons x

/-- What is left over on both sides has no key in common. The keys are read off the
entries, since the join reports these alone. -/
theorem ne_of_left_over {f : α → Option κ} {g : β → Option κ} {first : List (Option κ × α)}
    {second : List (Option κ × β)} (hf : ∀ e ∈ first, e.1 = f e.2) (hg : ∀ e ∈ second, e.1 = g e.2)
    {x : α} (hx : x ∈ (join first second).missing) {y : β} (hy : y ∈ (join first second).extra)
    {key : κ} (hkey : f x = some key) : g y ≠ some key := by
  induction first, second using join_induction with
  | nil second => simp [join] at hx
  | alone k z first second hp ih =>
    have hrest : ∀ e ∈ first, e.1 = f e.2 := fun e he => hf e (List.mem_cons_of_mem _ he)
    rw [join_alone hp] at hx hy
    rcases List.mem_cons.mp hx with rfl | hx
    · -- the entry in front found no entry of its key on the other side
      have hk : k = some key := (hf _ (List.mem_cons_self ..)).trans hkey
      subst hk
      have hnone := (ofKey_eq_nil_iff key second).mp ((takeFirst_eq_none_iff key second).mp hp)
      obtain ⟨e, he, rfl⟩ := List.mem_map.mp ((extra_sublist first second).mem hy)
      rw [← hg e he]
      exact hnone e he
    · exact ih hrest hg hx hy
  | paired k z first second w left htake ih =>
    have hrest : ∀ e ∈ first, e.1 = f e.2 := fun e he => hf e (List.mem_cons_of_mem _ he)
    have hleft : ∀ e ∈ left, e.1 = g e.2 := fun e he => hg e ((takeFirst_sublist htake).mem he)
    rw [join_paired htake] at hx hy
    exact ih hrest hleft hx hy

end StyleDelta.Matching
