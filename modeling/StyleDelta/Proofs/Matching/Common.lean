import StyleDelta.Proofs.Matching.Order

/-!
Joins of sequences that have entries, or no keys, in common.

Entries that stand in front on both sides under the same keys are paired with each
other, whatever follows (`join_aligned`). Without a key in common, everything is left
over (`join_apart`). How many entries are left over depends on the keys and not on
their order (`length_leftovers_of_perm`), which is seen on sequences whose entries say
nothing (`blank`).
-/

namespace StyleDelta.Matching

variable {κ α β : Type} [DecidableEq κ]

/-! ## The same keys in front -/

/-- Pairs of entries with one key, side by side in front, are paired as they stand. -/
theorem join_aligned (f : α → Option κ) (g : β → Option κ) {ps : List (α × β)}
    (hkey : ∀ p ∈ ps, f p.1 = g p.2) (hsome : ∀ p ∈ ps, f p.1 ≠ none) (xs : List α)
    (ys : List β) :
    let rest := join (xs.map fun x => (f x, x)) (ys.map fun y => (g y, y))
    join ((ps.map Prod.fst ++ xs).map fun x => (f x, x))
        ((ps.map Prod.snd ++ ys).map fun y => (g y, y)) =
      ⟨ps ++ rest.pairs, rest.extra, rest.missing⟩ := by
  intro rest
  induction ps with
  | nil => rfl
  | cons p ps ih =>
    obtain ⟨x, y⟩ := p
    obtain ⟨hxy, hkey⟩ := List.forall_mem_cons.mp hkey
    obtain ⟨hx, hsome⟩ := List.forall_mem_cons.mp hsome
    obtain ⟨key, hfx⟩ := Option.ne_none_iff_exists'.mp hx
    have hgy : g y = some key := hxy.symm.trans hfx
    simp only [List.map_cons, List.cons_append, hfx, hgy]
    rw [join_paired (takeFirst_cons_self ..), ih hkey hsome]

/-! ## No key in common -/

theorem join_apart {first : List (Option κ × α)} {second : List (Option κ × β)}
    (h : ∀ e ∈ first, ∀ e' ∈ second, e.1 ≠ none → e.1 ≠ e'.1) :
    join first second = ⟨[], second.map Prod.snd, first.map Prod.snd⟩ := by
  induction first with
  | nil => rfl
  | cons e first ih =>
    obtain ⟨key, x⟩ := e
    obtain ⟨hfront, hrest⟩ := List.forall_mem_cons.mp h
    have hp : partner key second = none := by
      cases key with
      | none => rfl
      | some key =>
        refine (takeFirst_eq_none_iff key second).mpr ((ofKey_eq_nil_iff key second).mpr ?_)
        intro e' he'
        exact Ne.symm (hfront e' he' (by simp))
    rw [join_alone hp, ih hrest]
    rfl

/-! ## Counting what is left over -/

/-- The keys of a sequence, with entries that say nothing. -/
def blank (seq : List (Option κ × α)) : List (Option κ × Unit) :=
  seq.map (Prod.map id fun _ => ())

theorem ofKey_blank_eq_of_perm {seq seq' : List (Option κ × α)} (h : seq'.Perm seq) (key : κ) :
    ofKey key (blank seq) = ofKey key (blank seq') := by
  have hperm : (ofKey key (blank seq')).Perm (ofKey key (blank seq)) :=
    ((h.map _).filter _).map _
  exact List.ext_getElem hperm.length_eq.symm fun _ _ _ => rfl

theorem length_leftovers_blank (first : List (Option κ × α)) (second : List (Option κ × β)) :
    (join (blank first) (blank second)).extra.length = (join first second).extra.length ∧
      (join (blank first) (blank second)).missing.length =
        (join first second).missing.length := by
  rw [blank, blank, join_map]
  exact ⟨List.length_map _, List.length_map _⟩

/-- Sequences in another order leave equally many entries over, though not the same
entries: of one key, others may come first. -/
theorem length_leftovers_of_perm {first first' : List (Option κ × α)}
    {second second' : List (Option κ × β)} (hfirst : first'.Perm first)
    (hsecond : second'.Perm second) :
    (join first' second').extra.length = (join first second).extra.length ∧
      (join first' second').missing.length = (join first second).missing.length := by
  obtain ⟨-, hextra, hmissing⟩ := join_rearrange_first (blank second')
    (ofKey_blank_eq_of_perm hfirst) (hfirst.map _)
  obtain ⟨-, hmissing', hextra'⟩ := join_rearrange_second (blank first)
    (ofKey_blank_eq_of_perm hsecond) (hsecond.map _)
  obtain ⟨hnew, hnew'⟩ := length_leftovers_blank first' second'
  obtain ⟨hold, hold'⟩ := length_leftovers_blank first second
  constructor
  · rw [← hnew, ← hold]
    exact (congrArg List.length hextra).trans hextra'.length_eq
  · rw [← hnew', ← hold']
    exact hmissing.length_eq.trans (congrArg List.length hmissing')

end StyleDelta.Matching
