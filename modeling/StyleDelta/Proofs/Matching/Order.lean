import StyleDelta.Proofs.Matching.Leftovers

/-!
The rank join depends on the order within each key alone.

If the entries of every key keep their order, a rearrangement of the second sequence
changes nothing but the order of what is left over there (`join_rearrange_second`),
and one of the first sequence changes the order of its leftovers and of the pairs
(`join_rearrange_first`). Since results stand in the order of their sequence, that
order determines them (`eq_filter_of_perm`, `eq_flatMap_of_perm`).
-/

namespace StyleDelta.Matching

/-! ## Lists in a given order -/

section Order

variable {α ι : Type} [DecidableEq ι]

/-- A list that follows an order without repetitions is the part of the order that it
holds. -/
theorem filter_mem_of_sublist {order ys : List ι} (hnodup : order.Nodup)
    (hys : ys.Sublist order) : (order.filter fun i => decide (i ∈ ys)) = ys := by
  induction hys with
  | slnil => rfl
  | @cons ys order i hys ih =>
    obtain ⟨hi, hrest⟩ := List.nodup_cons.mp hnodup
    have hmem : i ∉ ys := fun h => hi (hys.mem h)
    simp [hmem, ih hrest]
  | @cons_cons ys order i hys ih =>
    obtain ⟨hi, hrest⟩ := List.nodup_cons.mp hnodup
    have htail : ∀ j ∈ order, decide (j ∈ i :: ys) = decide (j ∈ ys) := by
      intro j hj
      have hne : j ≠ i := by
        rintro rfl
        exact hi hj
      simp [hne]
    rw [List.filter_cons_of_pos (by simp), List.filter_congr htail, ih hrest]

theorem eq_filter_of_perm {order xs ys : List ι} (hnodup : order.Nodup) (hys : ys.Sublist order)
    (hperm : ys.Perm xs) : ys = order.filter fun i => decide (i ∈ xs) := by
  simp only [← hperm.mem_iff, filter_mem_of_sublist hnodup hys]

/-- Entries whose marks follow an order without repetitions stand as the order asks
for them. -/
theorem flatMap_filter_of_sublist {f : α → ι} {order : List ι} {ys : List α}
    (hnodup : order.Nodup) (hys : (ys.map f).Sublist order) :
    (order.flatMap fun i => ys.filter fun y => f y = i) = ys := by
  induction order generalizing ys with
  | nil =>
    have hnil : ys = [] := by simpa using hys
    subst hnil
    rfl
  | cons i order ih =>
    obtain ⟨hi, hrest⟩ := List.nodup_cons.mp hnodup
    rcases List.sublist_cons_iff.mp hys with hskip | ⟨marks, hmarks, htail⟩
    · have hnone : (ys.filter fun y => f y = i) = [] := by
        rw [List.filter_eq_nil_iff]
        intro y hy hfy
        have hfi : f y = i := by simpa using hfy
        exact hi (hskip.mem (hfi ▸ List.mem_map_of_mem hy))
      rw [List.flatMap_cons, hnone, List.nil_append, ih hrest hskip]
    · obtain ⟨y, ys, rfl, rfl, rfl⟩ := List.map_eq_cons_iff.mp hmarks
      have hnone : (ys.filter fun z => f z = f y) = [] := by
        rw [List.filter_eq_nil_iff]
        intro z hz hfz
        have hfy : f z = f y := by simpa using hfz
        exact hi (htail.mem (hfy ▸ List.mem_map_of_mem hz))
      have hothers : (order.flatMap fun j => (y :: ys).filter fun z => f z = j) =
          order.flatMap fun j => ys.filter fun z => f z = j := by
        refine List.flatMap_congr fun j hj => ?_
        have hne : f y ≠ j := by
          rintro rfl
          exact hi hj
        simp [hne]
      rw [List.flatMap_cons, hothers, ih hrest htail]
      simp [hnone]

/-- Of entries with different marks, those of one mark have no order. -/
theorem filter_eq_of_perm {f : α → ι} {xs ys : List α} (hnodup : (ys.map f).Nodup)
    (hperm : ys.Perm xs) (i : ι) : (ys.filter fun y => f y = i) = xs.filter fun x => f x = i := by
  have hfilter := hperm.filter fun y => decide (f y = i)
  have hsub : ((ys.filter fun y => f y = i).map f).Nodup :=
    hnodup.sublist (List.filter_sublist.map f)
  have hmark : ∀ y ∈ ys.filter fun y => f y = i, f y = i := by
    intro y hy
    simpa using (List.mem_filter.mp hy).2
  match hys : ys.filter fun y => f y = i with
  | [] => exact (hys ▸ hfilter).symm.eq_nil.symm
  | [y] => exact (List.perm_singleton.mp (hys ▸ hfilter).symm).symm
  | y :: z :: more =>
    rw [hys] at hsub hmark
    have hyz : f y = f z := by
      rw [hmark y (List.mem_cons_self ..), hmark z (List.mem_cons_of_mem _ (List.mem_cons_self ..))]
    simp [hyz] at hsub

theorem eq_flatMap_of_perm {f : α → ι} {order : List ι} {xs ys : List α} (hnodup : order.Nodup)
    (hys : (ys.map f).Sublist order) (hperm : ys.Perm xs) :
    ys = order.flatMap fun i => xs.filter fun x => f x = i := by
  simp only [← filter_eq_of_perm (hnodup.sublist hys) hperm, flatMap_filter_of_sublist hnodup hys]

end Order

/-! ## Sequences with the same entries of every key -/

variable {κ α β : Type} [DecidableEq κ]

theorem ofKey_map (f : α → β) (key : κ) (seq : List (Option κ × α)) :
    ofKey key (seq.map (Prod.map id f)) = (ofKey key seq).map f := by
  simp [ofKey, List.filter_map, Function.comp_def]

theorem partner_eq_none_congr {key : Option κ} {second second' : List (Option κ × β)}
    (h : ∀ k, ofKey k second = ofKey k second') (hp : partner key second = none) :
    partner key second' = none := by
  cases key with
  | none => rfl
  | some key =>
    have hnil := (takeFirst_eq_none_iff key second).mp hp
    exact (takeFirst_eq_none_iff key second').mpr (h key ▸ hnil)

/-- The first entries of a key are the same, and so are the others. -/
theorem takeFirst_congr {key : κ} {second second' left : List (Option κ × β)} {y : β}
    (h : ∀ k, ofKey k second = ofKey k second') (htake : takeFirst key second = some (y, left)) :
    ∃ left', takeFirst key second' = some (y, left') ∧ ∀ k, ofKey k left = ofKey k left' := by
  have hkey := h key
  rw [takeFirst_ofKey htake, ofKey_cons, if_pos rfl] at hkey
  cases htake' : takeFirst key second' with
  | none =>
    rw [(takeFirst_eq_none_iff key second').mp htake'] at hkey
    cases hkey
  | some taken =>
    obtain ⟨z, left'⟩ := taken
    rw [takeFirst_ofKey htake', ofKey_cons, if_pos rfl] at hkey
    obtain ⟨rfl, hleft⟩ := List.cons.inj hkey
    refine ⟨left', rfl, fun k => ?_⟩
    have hk := h k
    rw [takeFirst_ofKey htake, takeFirst_ofKey htake', ofKey_cons, ofKey_cons] at hk
    by_cases hkk : key = k
    · exact hkk ▸ hleft
    · simpa [hkk] using hk

theorem join_congr_second (first : List (Option κ × α)) {second second' : List (Option κ × β)}
    (h : ∀ k, ofKey k second = ofKey k second') :
    (join first second').pairs = (join first second).pairs ∧
      (join first second').missing = (join first second).missing := by
  induction first, second using join_induction generalizing second' with
  | nil second => exact ⟨rfl, rfl⟩
  | alone key x first second hp ih =>
    obtain ⟨hpairs, hmissing⟩ := ih h
    rw [join_alone hp, join_alone (partner_eq_none_congr h hp)]
    exact ⟨hpairs, congrArg (x :: ·) hmissing⟩
  | paired key x first second y left htake ih =>
    obtain ⟨left', htake', hleft⟩ := takeFirst_congr h htake
    obtain ⟨hpairs, hmissing⟩ := ih hleft
    rw [join_paired htake, join_paired htake']
    exact ⟨congrArg ((x, y) :: ·) hpairs, hmissing⟩

theorem join_rearrange_second (first : List (Option κ × α))
    {second second' : List (Option κ × β)} (h : ∀ k, ofKey k second = ofKey k second')
    (hperm : second'.Perm second) :
    (join first second').pairs = (join first second).pairs ∧
      (join first second').missing = (join first second).missing ∧
      (join first second').extra.Perm (join first second).extra := by
  obtain ⟨hpairs, hmissing⟩ := join_congr_second first h
  refine ⟨hpairs, hmissing, ?_⟩
  have hall := (join_perm_second first second').trans
    ((hperm.map Prod.snd).trans (join_perm_second first second).symm)
  rw [hpairs] at hall
  exact (List.perm_append_right_iff _).mp hall

/-- The rearranged side comes second when the arguments are exchanged. -/
theorem join_rearrange_first {first first' : List (Option κ × α)}
    (second : List (Option κ × β)) (h : ∀ k, ofKey k first = ofKey k first')
    (hperm : first'.Perm first) :
    (join first' second).pairs.Perm (join first second).pairs ∧
      (join first' second).extra = (join first second).extra ∧
      (join first' second).missing.Perm (join first second).missing := by
  obtain ⟨hpairs, hmissing, hextra⟩ := join_rearrange_second second h hperm
  have hold := join_exchange second first
  have hnew := join_exchange second first'
  refine ⟨?_, ?_, ?_⟩
  · have hswapped : (join first' second).pairs.Perm
        ((join second first).pairs.map Prod.swap) := hpairs ▸ hnew.pairs
    exact hswapped.trans hold.pairs.symm
  · calc
      (join first' second).extra = (join second first').missing := hnew.extra
      _ = (join second first).missing := hmissing
      _ = (join first second).extra := hold.extra.symm
  · have hleft : (join first' second).missing.Perm (join second first).extra :=
      hnew.missing ▸ hextra
    exact hleft.trans (.of_eq hold.missing.symm)

end StyleDelta.Matching
