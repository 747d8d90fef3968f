import StyleDelta.Proofs.Matching.Leftovers
import StyleDelta.Proofs.Matching.Queues
import StyleDelta.Sheet.Siblings

/-!
The rank join by ranks.

The rank of a position is the number of earlier positions with its key. The pairs of a
key are the positions of the key on both sides, put together as they stand
(`filter_pairs`), so a position is paired with the one of its key and rank, if there is
one (`mem_pairs_iff`). What is in no pair is left over, and both sides are listed in
ascending order. Main statement: `matchSiblings_ranks`.
-/

namespace StyleDelta

namespace Matching

variable {κ α β : Type} [DecidableEq κ]

/-! ## Positions and their ranks -/

theorem ofKey_zipIdx (key : κ) (keys : List (Option κ)) (n : Nat) :
    ofKey key (keys.zipIdx n) = keys.idxsOf (some key) n := by
  induction keys generalizing n with
  | nil => rfl
  | cons k keys ih => simp only [List.zipIdx_cons, ofKey_cons, List.idxsOf_cons, ih, beq_iff_eq]

/-- The positions of a key are those found by their ranks. -/
theorem getElem?_ofKey_positioned (key : κ) (keys : List (Option κ)) (r i : Nat) :
    (ofKey key (positioned keys))[r]? = some i ↔
      keys[i]? = some (some key) ∧ keys.countBefore (some key) i = r := by
  rw [positioned, ofKey_zipIdx, List.getElem?_eq_some_iff]
  constructor
  · rintro ⟨hr, rfl⟩
    have hcount : r < keys.count (some key) := by rwa [List.length_idxsOf] at hr
    have hlt := List.idxOfNth_lt_length_of_lt_count hcount
    rw [List.getElem_idxOf_eq_idxOfNth]
    refine ⟨?_, List.countBefore_idxOfNth_of_lt_count hcount⟩
    rw [List.getElem?_eq_getElem hlt, List.getElem_idxOfNth_eq]
  · rintro ⟨hkey, rfl⟩
    obtain ⟨hi, hkey⟩ := List.getElem?_eq_some_iff.mp hkey
    have hrank : keys.countBefore (some key) i < keys.count (some key) :=
      List.countBefore_lt_count_of_lt_length_of_beq (by simpa using hkey)
    refine ⟨by rwa [List.length_idxsOf], ?_⟩
    rw [List.getElem_idxOf_eq_idxOfNth]
    exact List.idxOfNth_countBefore_of_lt_length_of_beq (by simpa using hkey)

theorem length_ofKey_positioned (key : κ) (keys : List (Option κ)) :
    (ofKey key (positioned keys)).length = keys.count (some key) := by
  rw [positioned, ofKey_zipIdx, List.length_idxsOf]

omit [DecidableEq κ] in
theorem map_snd_positioned (keys : List (Option κ)) :
    (positioned keys).map Prod.snd = List.range keys.length := by
  rw [positioned, List.zipIdx_map_snd, List.range_eq_range']

/-- The key at a position. -/
def keyAt (keys : List (Option κ)) (i : Nat) : Option κ := keys[i]?.join

omit [DecidableEq κ] in
theorem keyAt_eq_some_iff {keys : List (Option κ)} {i : Nat} {key : κ} :
    keyAt keys i = some key ↔ keys[i]? = some (some key) := by
  simp [keyAt, Option.join_eq_some_iff]

omit [DecidableEq κ] in
theorem key_of_mem_positioned {keys : List (Option κ)} :
    ∀ e ∈ positioned keys, e.1 = keyAt keys e.2 := by
  rintro ⟨k, i⟩ he
  have hi : keys[i]? = some k := by simpa using List.mem_zipIdx_iff_getElem?.mp he
  simp [keyAt, hi]

/-! ## The pairs of a key -/

/-- The pairs of a key are its entries on both sides, put together as they stand. -/
theorem filter_pairs {f : α → Option κ} {first : List (Option κ × α)}
    (hf : ∀ e ∈ first, e.1 = f e.2) (second : List (Option κ × β)) (key : κ) :
    ((join first second).pairs.filter fun p => f p.1 = some key) =
      (ofKey key first).zip (ofKey key second) := by
  induction first, second using join_induction with
  | nil second => rfl
  | alone k x first second hp ih =>
    obtain ⟨hx, hrest⟩ := List.forall_mem_cons.mp hf
    rw [join_alone hp, ih hrest, ofKey_cons]
    split
    · -- the key has no entry on the right, or the one in front would be paired
      rename_i hk
      obtain rfl : k = some key := hk
      rw [(takeFirst_eq_none_iff key second).mp hp, List.zip_nil_right, List.zip_nil_right]
    · rfl
  | paired k x first second y left htake ih =>
    obtain ⟨hx, hrest⟩ := List.forall_mem_cons.mp hf
    have hfx : f x = some k := hx.symm
    rw [join_paired htake, takeFirst_ofKey htake, ofKey_cons, ofKey_cons, List.filter_cons,
      ih hrest, hfx]
    by_cases hk : k = key <;> simp [hk]

theorem mem_pairs_iff_zip {f : α → Option κ} {first : List (Option κ × α)}
    (hf : ∀ e ∈ first, e.1 = f e.2) {second : List (Option κ × β)} {p : α × β} :
    p ∈ (join first second).pairs ↔ ∃ key, p ∈ (ofKey key first).zip (ofKey key second) := by
  constructor
  · intro hp
    obtain ⟨key, hfirst, -⟩ := exists_key_of_mem_pairs hp
    refine ⟨key, ?_⟩
    rw [← filter_pairs hf, List.mem_filter]
    exact ⟨hp, by simpa using (hf _ hfirst).symm⟩
  · rintro ⟨key, hp⟩
    rw [← filter_pairs hf] at hp
    exact (List.mem_filter.mp hp).1

theorem mem_pairs_iff {first second : List (Option κ)} {i j : Nat} :
    (i, j) ∈ (join (positioned first) (positioned second)).pairs ↔
      ∃ key, first[i]? = some (some key) ∧ second[j]? = some (some key) ∧
        first.countBefore (some key) i = second.countBefore (some key) j := by
  rw [mem_pairs_iff_zip key_of_mem_positioned]
  refine exists_congr fun key => ?_
  simp only [List.mem_iff_getElem?, List.getElem?_zip_eq_some, getElem?_ofKey_positioned]
  constructor
  · rintro ⟨r, ⟨hi, hr⟩, hj, hr'⟩
    exact ⟨hi, hj, hr.trans hr'.symm⟩
  · rintro ⟨hi, hj, hrank⟩
    exact ⟨_, ⟨hi, hrank⟩, hj, rfl⟩

/-! ## The join -/

/-- A matching of positions by key and rank. -/
structure ByRank (m : Matching Nat Nat) (first second : List (Option κ)) : Prop where
  /-- Two positions are a pair exactly if they have one key and one rank. -/
  mem_pairs : ∀ i j, (i, j) ∈ m.pairs ↔ ∃ key, first[i]? = some (some key) ∧
    second[j]? = some (some key) ∧
    first.countBefore (some key) i = second.countBefore (some key) j
  pairs_ascending : (m.pairs.map Prod.fst).Pairwise (· < ·)
  mem_missing : ∀ i, i ∈ m.missing ↔ i < first.length ∧ ∀ j, (i, j) ∉ m.pairs
  missing_ascending : m.missing.Pairwise (· < ·)
  mem_extra : ∀ j, j ∈ m.extra ↔ j < second.length ∧ ∀ i, (i, j) ∉ m.pairs
  extra_ascending : m.extra.Pairwise (· < ·)
  /-- Every position of the first side occurs exactly once. -/
  first_once : (m.missing ++ m.pairs.map Prod.fst).Perm (List.range first.length)
  second_once : (m.extra ++ m.pairs.map Prod.snd).Perm (List.range second.length)
  keyless_missing : ∀ i, first[i]? = some none → i ∈ m.missing
  keyless_extra : ∀ j, second[j]? = some none → j ∈ m.extra
  /-- Of every key there are as many pairs as the side with fewer entries allows. -/
  count_pairs : ∀ key, (m.pairs.countP fun p => first[p.1]? = some (some key)) =
    min (first.count (some key)) (second.count (some key))
  /-- No key is left over on both sides. -/
  apart : ∀ i ∈ m.missing, ∀ j ∈ m.extra, ∀ key,
    first[i]? = some (some key) → second[j]? ≠ some (some key)

theorem eq_of_ascending {γ : Type} {f : γ → Nat} {xs ys : List γ}
    (hxs : (xs.map f).Pairwise (· < ·)) (hys : (ys.map f).Pairwise (· < ·))
    (h : ∀ x, x ∈ xs ↔ x ∈ ys) : xs = ys := by
  rw [List.pairwise_map] at hxs hys
  have hne : ∀ x y, f x < f y → x ≠ y := by
    rintro x _ hlt rfl
    omega
  have hperm : xs.Perm ys :=
    (List.perm_ext_iff_of_nodup (hxs.imp (hne _ _)) (hys.imp (hne _ _))).mpr h
  refine hperm.eq_of_pairwise (fun x y _ _ hlt hgt => ?_) hxs hys
  omega

/-- Key and rank leave no choice. -/
theorem ByRank.unique {m m' : Matching Nat Nat} {first second : List (Option κ)}
    (h : ByRank m first second) (h' : ByRank m' first second) : m = m' := by
  have hpairs : m.pairs = m'.pairs := by
    refine eq_of_ascending h.pairs_ascending h'.pairs_ascending fun p => ?_
    rw [h.mem_pairs p.1 p.2, h'.mem_pairs p.1 p.2]
  have hextra : m.extra = m'.extra := by
    refine eq_of_ascending (f := id) (by simpa using h.extra_ascending)
      (by simpa using h'.extra_ascending) fun j => ?_
    rw [h.mem_extra, h'.mem_extra, hpairs]
  have hmissing : m.missing = m'.missing := by
    refine eq_of_ascending (f := id) (by simpa using h.missing_ascending)
      (by simpa using h'.missing_ascending) fun i => ?_
    rw [h.mem_missing, h'.mem_missing, hpairs]
  cases m
  cases m'
  simp_all

/-- What is left over of the positions below a bound is what is not paired. -/
theorem mem_leftover_iff {left paired : List Nat} {n : Nat}
    (h : (left ++ paired).Perm (List.range n)) (i : Nat) :
    i ∈ left ↔ i < n ∧ i ∉ paired := by
  have hmem : i ∈ left ∨ i ∈ paired ↔ i < n := by
    rw [← List.mem_append, h.mem_iff, List.mem_range]
  have hnodup : (left ++ paired).Nodup := h.nodup_iff.mpr List.nodup_range
  have hapart : i ∈ left → i ∉ paired := fun hl hp => (List.nodup_append.mp hnodup).2.2 i hl i hp rfl
  tauto

/-- The rank join of two sequences of keys matches their positions by key and rank. -/
theorem join_byRank (first second : List (Option κ)) :
    ByRank (join (positioned first) (positioned second)) first second := by
  have hfirst := join_perm_first (positioned first) (positioned second)
  have hsecond := join_perm_second (positioned first) (positioned second)
  have hpairs := pairs_sublist (positioned first) (positioned second)
  have hmissing := missing_sublist (positioned first) (positioned second)
  have hextra := extra_sublist (positioned first) (positioned second)
  rw [map_snd_positioned] at hfirst hsecond hpairs hmissing hextra
  have hmem_missing : ∀ i, i ∈ (join (positioned first) (positioned second)).missing ↔
      i < first.length ∧ ∀ j, (i, j) ∉ (join (positioned first) (positioned second)).pairs := by
    intro i
    simp [mem_leftover_iff hfirst]
  have hmem_extra : ∀ j, j ∈ (join (positioned first) (positioned second)).extra ↔
      j < second.length ∧ ∀ i, (i, j) ∉ (join (positioned first) (positioned second)).pairs := by
    intro j
    simp [mem_leftover_iff hsecond]
  refine
    { mem_pairs := fun i j => mem_pairs_iff
      pairs_ascending := List.pairwise_lt_range.sublist hpairs
      mem_missing := hmem_missing
      missing_ascending := List.pairwise_lt_range.sublist hmissing
      mem_extra := hmem_extra
      extra_ascending := List.pairwise_lt_range.sublist hextra
      first_once := hfirst
      second_once := hsecond
      keyless_missing := fun i hi => ?_
      keyless_extra := fun j hj => ?_
      count_pairs := fun key => ?_
      apart := fun i hi j hj key hkey => ?_ }
  · refine (hmem_missing i).mpr ⟨(List.getElem?_eq_some_iff.mp hi).1, fun j hpair => ?_⟩
    obtain ⟨key, hkey, -⟩ := mem_pairs_iff.mp hpair
    simp [hi] at hkey
  · refine (hmem_extra j).mpr ⟨(List.getElem?_eq_some_iff.mp hj).1, fun i hpair => ?_⟩
    obtain ⟨key, -, hkey, -⟩ := mem_pairs_iff.mp hpair
    simp [hj] at hkey
  · have hzip := filter_pairs (@key_of_mem_positioned κ first) (positioned second) key
    simp only [keyAt_eq_some_iff] at hzip
    rw [List.countP_eq_length_filter, hzip, List.length_zip, length_ofKey_positioned,
      length_ofKey_positioned]
  · have hne := ne_of_left_over key_of_mem_positioned key_of_mem_positioned hi hj
      (keyAt_eq_some_iff.mpr hkey)
    rwa [ne_eq, keyAt_eq_some_iff] at hne

/-- The second entry of a key is paired with the second one, over whatever stands between;
the entry without a key and the third of its key are left over. -/
example : join (positioned [some "a", none, some "b", some "a"])
    (positioned [some "a", some "a", some "b", some "a"]) =
      { pairs := [(0, 0), (2, 2), (3, 1)], missing := [1], extra := [3] } := by
  decide

end Matching

open Matching

/-- **The matching of siblings is their rank join.** Two nodes are a pair exactly if they
have one identity and equally many nodes of it stand before them on either side; every
node is in one pair or left over, and comments are always left over. Nothing else is so
matched, and the join by queues and marks comes to it. -/
theorem matchSiblings_ranks (first second : List Node) :
    let m := Node.matchSiblings first second
    ByRank m (first.map Node.identity?) (second.map Node.identity?) ∧
      (∀ m', ByRank m' (first.map Node.identity?) (second.map Node.identity?) → m' = m) ∧
      (∀ i c, first[i]? = some (.comment c) → i ∈ m.missing) ∧
      (∀ j c, second[j]? = some (.comment c) → j ∈ m.extra) ∧
      queueJoin? (first.map Node.identity?) (second.map Node.identity?) = some m := by
  intro m
  have hranks : ByRank m (first.map Node.identity?) (second.map Node.identity?) := by
    have hjoin := join_byRank (first.map Node.identity?) (second.map Node.identity?)
    rwa [positioned_identities, positioned_identities] at hjoin
  refine ⟨hranks, fun m' h => h.unique hranks, fun i c hi => ?_, fun j c hj => ?_,
    queueJoin?_identities first second⟩
  · apply hranks.keyless_missing
    rw [List.getElem?_map, hi]
    rfl
  · apply hranks.keyless_extra
    rw [List.getElem?_map, hj]
    rfl

end StyleDelta
