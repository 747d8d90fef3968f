import Mathlib.Data.List.Forall2
import StyleDelta.Matching

/-!
What the rank join pairs and what it leaves over.

A step of the join leaves the front entry over or takes the first entry of its key
from the other side (`join_induction`), which keeps the entries of every key in
their order (`takeFirst_ofKey`). Hence nothing is left over, and all pairs are
related, exactly if the entries of every key are related in their order
(`join_complete_iff`). The join does not look at the entries (`join_map`), and
exchanging its arguments exchanges its results up to the order of the pairs
(`join_exchange`).
-/

namespace StyleDelta.Matching

variable {κ α β γ δ : Type} [DecidableEq κ]

/-! ## The entries of one key -/

/-- The entries of a key, in their order. -/
def ofKey (key : κ) (seq : List (Option κ × α)) : List α :=
  (seq.filter (·.1 = some key)).map Prod.snd

theorem ofKey_cons (key : κ) (e : Option κ × α) (rest : List (Option κ × α)) :
    ofKey key (e :: rest) = if e.1 = some key then e.2 :: ofKey key rest else ofKey key rest := by
  by_cases h : e.1 = some key <;> simp [ofKey, h]

theorem ofKey_append (key : κ) (before after : List (Option κ × α)) :
    ofKey key (before ++ after) = ofKey key before ++ ofKey key after := by
  simp [ofKey]

theorem ofKey_eq_nil_iff (key : κ) (seq : List (Option κ × α)) :
    ofKey key seq = [] ↔ ∀ e ∈ seq, e.1 ≠ some key := by
  simp [ofKey, List.filter_eq_nil_iff]

/-- A sequence without keyless entries is empty if it has no entry of any key. -/
theorem eq_nil_of_ofKey {seq : List (Option κ × α)} (hkey : ∀ e ∈ seq, e.1 ≠ none)
    (h : ∀ key, ofKey key seq = []) : seq = [] := by
  cases seq with
  | nil => rfl
  | cons e rest =>
    obtain ⟨key, hk⟩ := Option.ne_none_iff_exists'.mp (hkey e (List.mem_cons_self ..))
    exact absurd hk ((ofKey_eq_nil_iff key _).mp (h key) e (List.mem_cons_self ..))

/-- Two sequences that begin with entries of one key. -/
theorem forall₂_ofKey_cons (R : α → β → Prop) (key : κ) (x : α) (y : β)
    (first : List (Option κ × α)) (second : List (Option κ × β)) :
    (∀ k, List.Forall₂ R (ofKey k ((some key, x) :: first)) (ofKey k ((some key, y) :: second))) ↔
      R x y ∧ ∀ k, List.Forall₂ R (ofKey k first) (ofKey k second) := by
  simp only [ofKey_cons, Option.some.injEq]
  constructor
  · intro h
    have hkey := h key
    rw [if_pos rfl, if_pos rfl, List.forall₂_cons] at hkey
    refine ⟨hkey.1, fun k => ?_⟩
    by_cases hk : key = k
    · exact hk ▸ hkey.2
    · have hrest := h k
      rwa [if_neg hk, if_neg hk] at hrest
  · rintro ⟨hxy, hrest⟩ k
    by_cases hk : key = k
    · rw [if_pos hk, if_pos hk]
      exact .cons hxy (hrest k)
    · rw [if_neg hk, if_neg hk]
      exact hrest k

/-! ## Taking the first entry of a key -/

theorem takeFirst_cons_self (key : κ) (x : α) (rest : List (Option κ × α)) :
    takeFirst key ((some key, x) :: rest) = some (x, rest) := by
  simp [takeFirst]

theorem takeFirst_cons_of_ne {key : κ} {other : Option κ} (h : other ≠ some key) (x : α)
    (rest : List (Option κ × α)) :
    takeFirst key ((other, x) :: rest) =
      (takeFirst key rest).map fun (y, left) => (y, (other, x) :: left) := by
  simp [takeFirst, h]

/-- The first entry of a key is the one in front, or else it comes from behind it. -/
theorem takeFirst_cons_eq_some {key : κ} {other : Option κ} {x y : α}
    {rest left : List (Option κ × α)} (h : takeFirst key ((other, x) :: rest) = some (y, left)) :
    (other = some key ∧ y = x ∧ left = rest) ∨
      (other ≠ some key ∧ ∃ left', takeFirst key rest = some (y, left') ∧
        left = (other, x) :: left') := by
  by_cases hk : other = some key
  · rw [hk, takeFirst_cons_self, Option.some.injEq, Prod.mk.injEq] at h
    exact Or.inl ⟨hk, h.1.symm, h.2.symm⟩
  · rw [takeFirst_cons_of_ne hk, Option.map_eq_some_iff] at h
    obtain ⟨⟨z, left'⟩, hrest, hz⟩ := h
    obtain ⟨rfl, rfl⟩ := Prod.mk.inj hz
    exact Or.inr ⟨hk, left', hrest, rfl⟩

theorem takeFirst_eq_none_iff (key : κ) (seq : List (Option κ × α)) :
    takeFirst key seq = none ↔ ofKey key seq = [] := by
  induction seq with
  | nil => simp [takeFirst, ofKey]
  | cons e rest ih =>
    by_cases h : e.1 = some key
    · simp [takeFirst, ofKey_cons, h]
    · simp [takeFirst, ofKey_cons, h, ih]

theorem takeFirst_split {key : κ} {seq left : List (Option κ × α)} {x : α}
    (h : takeFirst key seq = some (x, left)) :
    ∃ before after, seq = before ++ (some key, x) :: after ∧ left = before ++ after ∧
      ofKey key before = [] := by
  induction seq generalizing left with
  | nil => simp [takeFirst] at h
  | cons e rest ih =>
    obtain ⟨other, y⟩ := e
    rcases takeFirst_cons_eq_some h with ⟨rfl, rfl, rfl⟩ | ⟨hk, left', hrest, rfl⟩
    · exact ⟨[], left, rfl, rfl, rfl⟩
    · obtain ⟨before, after, rfl, rfl, hbefore⟩ := ih hrest
      exact ⟨(other, y) :: before, after, rfl, rfl, by rw [ofKey_cons, if_neg hk, hbefore]⟩

theorem takeFirst_perm {key : κ} {seq left : List (Option κ × α)} {x : α}
    (h : takeFirst key seq = some (x, left)) : seq.Perm ((some key, x) :: left) := by
  obtain ⟨before, after, rfl, rfl, -⟩ := takeFirst_split h
  exact List.perm_middle

theorem takeFirst_sublist {key : κ} {seq left : List (Option κ × α)} {x : α}
    (h : takeFirst key seq = some (x, left)) : left.Sublist seq := by
  obtain ⟨before, after, rfl, rfl, -⟩ := takeFirst_split h
  exact (List.sublist_cons_self ..).append_left before

/-- Moving the first entry of a key to the front keeps the entries of every key
in their order. -/
theorem takeFirst_ofKey {key : κ} {seq left : List (Option κ × α)} {x : α}
    (h : takeFirst key seq = some (x, left)) (k : κ) :
    ofKey k seq = ofKey k ((some key, x) :: left) := by
  obtain ⟨before, after, rfl, rfl, hbefore⟩ := takeFirst_split h
  simp only [ofKey_append, ofKey_cons, Option.some.injEq]
  by_cases hk : key = k
  · subst hk
    simp only [hbefore, if_true, List.nil_append]
  · simp only [hk, if_false]

theorem takeFirst_map (f : α → β) (key : κ) (seq : List (Option κ × α)) :
    takeFirst key (seq.map (Prod.map id f)) =
      (takeFirst key seq).map (Prod.map f (List.map (Prod.map id f))) := by
  induction seq with
  | nil => rfl
  | cons e rest ih =>
    by_cases h : e.1 = some key
    · simp [takeFirst, h]
    · simp only [List.map_cons, takeFirst, Prod.map_fst, id_eq, h, if_false, ih, Option.map_map]
      rfl

/-- An entry of another key in front stays when a partner is taken. -/
theorem partner_cons_of_ne {key other : Option κ} (h : ∀ k, key = some k → other ≠ some k)
    (x : α) (seq : List (Option κ × α)) :
    partner key ((other, x) :: seq) =
      (partner key seq).map fun (y, left) => (y, (other, x) :: left) := by
  cases key with
  | none => rfl
  | some key => exact takeFirst_cons_of_ne (h key rfl) x seq

theorem ne_of_partner_cons_eq_none {key other : Option κ} {x : α} {seq : List (Option κ × α)}
    (h : partner key ((other, x) :: seq) = none) : ∀ k, key = some k → other ≠ some k := by
  rintro k rfl rfl
  rw [partner, Option.bind_some, takeFirst_cons_self] at h
  cases h

/-! ## The join -/

theorem join_alone {key : Option κ} {second : List (Option κ × β)}
    (h : partner key second = none) (x : α) (first : List (Option κ × α)) :
    join ((key, x) :: first) second =
      ⟨(join first second).pairs, (join first second).extra, x :: (join first second).missing⟩ := by
  rw [join, h]

theorem join_paired {key : κ} {second left : List (Option κ × β)} {y : β}
    (h : takeFirst key second = some (y, left)) (x : α) (first : List (Option κ × α)) :
    join ((some key, x) :: first) second =
      ⟨(x, y) :: (join first left).pairs, (join first left).extra, (join first left).missing⟩ := by
  have hp : partner (some key) second = some (y, left) := h
  rw [join, hp]

/-- Induction along the join: the entry in front finds no partner, or the first entry
of its key is taken from the second sequence. -/
theorem join_induction {P : List (Option κ × α) → List (Option κ × β) → Prop}
    (nil : ∀ second, P [] second)
    (alone : ∀ key x first second, partner key second = none → P first second →
      P ((key, x) :: first) second)
    (paired : ∀ key x first second y left, takeFirst key second = some (y, left) →
      P first left → P ((some key, x) :: first) second)
    (first : List (Option κ × α)) (second : List (Option κ × β)) : P first second := by
  induction first generalizing second with
  | nil => exact nil second
  | cons e first ih =>
    obtain ⟨key, x⟩ := e
    cases hp : partner key second with
    | none => exact alone key x first second hp (ih second)
    | some taken =>
      obtain ⟨key, rfl, htake⟩ := Option.bind_eq_some_iff.mp hp
      exact paired key x first second taken.1 taken.2 htake (ih taken.2)

/-- What is left over on the right stands there in the same order. -/
theorem extra_sublist (first : List (Option κ × α)) (second : List (Option κ × β)) :
    (join first second).extra.Sublist (second.map Prod.snd) := by
  induction first, second using join_induction with
  | nil second => exact .refl _
  | alone key x first second hp ih =>
    rw [join_alone hp]
    exact ih
  | paired key x first second y left htake ih =>
    rw [join_paired htake]
    exact ih.trans ((takeFirst_sublist htake).map Prod.snd)

/-- What is left over on the left stands there in the same order. -/
theorem missing_sublist (first : List (Option κ × α)) (second : List (Option κ × β)) :
    (join first second).missing.Sublist (first.map Prod.snd) := by
  induction first, second using join_induction with
  | nil second => exact .refl _
  | alone key x first second hp ih =>
    rw [join_alone hp]
    exact ih.cons_cons x
  | paired key x first second y left htake ih =>
    rw [join_paired htake]
    exact ih.cons x

/-- The two entries of a pair have one key. -/
theorem exists_key_of_mem_pairs {first : List (Option κ × α)} {second : List (Option κ × β)}
    {p : α × β} (h : p ∈ (join first second).pairs) :
    ∃ key, (some key, p.1) ∈ first ∧ (some key, p.2) ∈ second := by
  induction first, second using join_induction with
  | nil second => simp [join] at h
  | alone key x first second hp ih =>
    rw [join_alone hp] at h
    obtain ⟨k, hfirst, hsecond⟩ := ih h
    exact ⟨k, List.mem_cons_of_mem _ hfirst, hsecond⟩
  | paired key x first second y left htake ih =>
    rw [join_paired htake] at h
    have hperm := takeFirst_perm htake
    rcases List.mem_cons.mp h with rfl | h
    · exact ⟨key, List.mem_cons_self .., hperm.mem_iff.mpr (List.mem_cons_self ..)⟩
    · obtain ⟨k, hfirst, hsecond⟩ := ih h
      exact ⟨k, List.mem_cons_of_mem _ hfirst, hperm.mem_iff.mpr (List.mem_cons_of_mem _ hsecond)⟩

/-- Without keyless entries, nothing is left over and every pair is related exactly
if the entries of every key are related in their order. -/
theorem join_complete_iff (R : α → β → Prop) {first : List (Option κ × α)}
    {second : List (Option κ × β)} (hfirst : ∀ e ∈ first, e.1 ≠ none)
    (hsecond : ∀ e ∈ second, e.1 ≠ none) :
    ((join first second).isComplete = true ∧ ∀ p ∈ (join first second).pairs, R p.1 p.2) ↔
      ∀ key, List.Forall₂ R (ofKey key first) (ofKey key second) := by
  induction first, second using join_induction with
  | nil second =>
    constructor
    · rintro ⟨h, -⟩ key
      obtain rfl : second = [] := by simpa [join, isComplete] using h
      exact .nil
    · intro h
      obtain rfl : second = [] :=
        eq_nil_of_ofKey hsecond fun key => List.forall₂_nil_left_iff.mp (h key)
      simp [join, isComplete]
  | alone key x first second hp ih =>
    obtain ⟨key, rfl⟩ := Option.ne_none_iff_exists'.mp (hfirst _ (List.mem_cons_self ..))
    rw [join_alone hp]
    constructor
    · intro h
      simp [isComplete] at h
    · intro h
      have hkey := h key
      rw [ofKey_cons, if_pos rfl, (takeFirst_eq_none_iff key second).mp hp] at hkey
      cases hkey
  | paired key x first second y left htake ih =>
    have hrest : ∀ e ∈ first, e.1 ≠ none := fun e he => hfirst e (List.mem_cons_of_mem _ he)
    have hleft : ∀ e ∈ left, e.1 ≠ none := fun e he =>
      hsecond e ((takeFirst_perm htake).mem_iff.mpr (List.mem_cons_of_mem _ he))
    simp only [join_paired htake, takeFirst_ofKey htake, forall₂_ofKey_cons, ← ih hrest hleft,
      List.mem_cons, forall_eq_or_imp, isComplete]
    constructor
    · rintro ⟨hcomplete, hxy, hpairs⟩
      exact ⟨hxy, hcomplete, hpairs⟩
    · rintro ⟨hxy, hcomplete, hpairs⟩
      exact ⟨hcomplete, hxy, hpairs⟩

/-! ## Keys computed from the entries -/

theorem extra_sublist_of_map (f : α → Option κ) (g : β → Option κ) (xs : List α) (ys : List β) :
    (join (xs.map fun x => (f x, x)) (ys.map fun y => (g y, y))).extra.Sublist ys := by
  simpa [Function.comp_def] using
    extra_sublist (xs.map fun x => (f x, x)) (ys.map fun y => (g y, y))

theorem missing_sublist_of_map (f : α → Option κ) (g : β → Option κ) (xs : List α) (ys : List β) :
    (join (xs.map fun x => (f x, x)) (ys.map fun y => (g y, y))).missing.Sublist xs := by
  simpa [Function.comp_def] using
    missing_sublist (xs.map fun x => (f x, x)) (ys.map fun y => (g y, y))

theorem mem_pairs_of_map {f : α → Option κ} {g : β → Option κ} {xs : List α} {ys : List β}
    {p : α × β}
    (h : p ∈ (join (xs.map fun x => (f x, x)) (ys.map fun y => (g y, y))).pairs) :
    p.1 ∈ xs ∧ p.2 ∈ ys ∧ f p.1 = g p.2 := by
  obtain ⟨key, hfirst, hsecond⟩ := exists_key_of_mem_pairs h
  obtain ⟨x, hx, hkx⟩ := List.mem_map.mp hfirst
  obtain ⟨y, hy, hky⟩ := List.mem_map.mp hsecond
  obtain ⟨hfx, rfl⟩ := Prod.mk.inj hkx
  obtain ⟨hgy, rfl⟩ := Prod.mk.inj hky
  exact ⟨hx, hy, hfx.trans hgy.symm⟩

/-! ## Other entries under the same keys -/

def map (f : α → γ) (g : β → δ) (m : Matching α β) : Matching γ δ :=
  ⟨m.pairs.map (Prod.map f g), m.extra.map g, m.missing.map f⟩

theorem isComplete_map (f : α → γ) (g : β → δ) (m : Matching α β) :
    (m.map f g).isComplete = m.isComplete := by
  simp [map, isComplete]

theorem partner_map (f : α → β) (key : Option κ) (seq : List (Option κ × α)) :
    partner key (seq.map (Prod.map id f)) =
      (partner key seq).map (Prod.map f (List.map (Prod.map id f))) := by
  cases key with
  | none => rfl
  | some key => exact takeFirst_map f key seq

theorem join_map (f : α → γ) (g : β → δ) (first : List (Option κ × α))
    (second : List (Option κ × β)) :
    join (first.map (Prod.map id f)) (second.map (Prod.map id g)) =
      (join first second).map f g := by
  induction first, second using join_induction with
  | nil second => simp [join, map]
  | alone key x first second hp ih =>
    have hmap := partner_map g key second
    rw [hp] at hmap
    rw [join_alone hp, List.map_cons, Prod.map_apply, id_eq, join_alone hmap, ih]
    rfl
  | paired key x first second y left htake ih =>
    have hmap := takeFirst_map g key second
    rw [htake] at hmap
    rw [join_paired htake, List.map_cons, Prod.map_apply, id_eq, join_paired hmap, ih]
    rfl

/-! ## The arguments exchanged -/

/-- The outcome seen from the other side. -/
def exchange (m : Matching α β) : Matching β α :=
  ⟨m.pairs.map Prod.swap, m.missing, m.extra⟩

/-- The same leftovers in the same order, and the same pairs in any order. -/
structure Alike (m n : Matching α β) : Prop where
  pairs : m.pairs.Perm n.pairs
  extra : m.extra = n.extra
  missing : m.missing = n.missing

theorem Alike.trans {m n o : Matching α β} (h : Alike m n) (h' : Alike n o) : Alike m o :=
  ⟨h.pairs.trans h'.pairs, h.extra.trans h'.extra, h.missing.trans h'.missing⟩

/-- An entry in front on the right that has no partner is left over. -/
theorem join_alone_right {key : Option κ} {first : List (Option κ × α)}
    (h : partner key first = none) (y : β) (second : List (Option κ × β)) :
    join first ((key, y) :: second) =
      ⟨(join first second).pairs, y :: (join first second).extra, (join first second).missing⟩ := by
  induction first, second using join_induction with
  | nil second => rfl
  | alone other x first second hp ih =>
    have hne := ne_of_partner_cons_eq_none h
    rw [partner_cons_of_ne hne, Option.map_eq_none_iff] at h
    have hcons := partner_cons_of_ne (fun k ho hk => hne k hk ho) y second
    rw [hp] at hcons
    rw [join_alone hp, join_alone hcons, ih h]
  | paired other x first second z left htake ih =>
    have hne := ne_of_partner_cons_eq_none h
    rw [partner_cons_of_ne hne, Option.map_eq_none_iff] at h
    have hcons := takeFirst_cons_of_ne (fun hk => hne other hk rfl) y second
    rw [htake] at hcons
    rw [join_paired htake, join_paired hcons, ih h]

/-- An entry in front on the right takes the first entry of its key on the left. -/
theorem join_paired_right {key : κ} {first left : List (Option κ × α)} {x : α}
    (h : takeFirst key first = some (x, left)) (y : β) (second : List (Option κ × β)) :
    Alike (join first ((some key, y) :: second))
      ⟨(x, y) :: (join left second).pairs, (join left second).extra,
        (join left second).missing⟩ := by
  induction first, second using join_induction generalizing left with
  | nil second => simp [takeFirst] at h
  | alone other z first second hp ih =>
    rcases takeFirst_cons_eq_some h with ⟨rfl, rfl, rfl⟩ | ⟨hk, left', hrest, rfl⟩
    · rw [join_paired (takeFirst_cons_self key y second)]
      exact ⟨.refl _, rfl, rfl⟩
    · obtain ⟨hpairs, hextra, hmissing⟩ := ih hrest
      have hne : ∀ k, other = some k → some key ≠ some k := fun k ho hkk => hk (ho.trans hkk.symm)
      have hcons := partner_cons_of_ne hne y second
      rw [hp] at hcons
      rw [join_alone hp, join_alone hcons]
      exact ⟨hpairs, hextra, congrArg (z :: ·) hmissing⟩
  | paired other z first second w rest htake ih =>
    rcases takeFirst_cons_eq_some h with ⟨hk, rfl, rfl⟩ | ⟨hk, left', hrest, rfl⟩
    · rw [hk, join_paired (takeFirst_cons_self key y second)]
      exact ⟨.refl _, rfl, rfl⟩
    · obtain ⟨hpairs, hextra, hmissing⟩ := ih hrest
      have hcons := takeFirst_cons_of_ne (Ne.symm hk) y second
      rw [htake] at hcons
      rw [join_paired htake, join_paired hcons]
      exact ⟨(hpairs.cons _).trans (.swap ..), hextra, hmissing⟩

/-- Which sequence comes first changes the order of the pairs only. -/
theorem join_exchange (first : List (Option κ × α)) (second : List (Option κ × β)) :
    Alike (join second first) (join first second).exchange := by
  induction first, second using join_induction with
  | nil second =>
    induction second with
    | nil => exact ⟨.refl _, rfl, rfl⟩
    | cons e second ih =>
      obtain ⟨key, y⟩ := e
      have hp : partner key ([] : List (Option κ × α)) = none := by cases key <;> rfl
      rw [join_alone hp]
      exact ⟨ih.pairs, ih.extra, congrArg (y :: ·) ih.missing⟩
  | alone key x first second hp ih =>
    rw [join_alone hp, join_alone_right hp]
    exact ⟨ih.pairs, congrArg (x :: ·) ih.extra, ih.missing⟩
  | paired key x first second y left htake ih =>
    rw [join_paired htake]
    exact (join_paired_right htake x first).trans ⟨ih.pairs.cons _, ih.extra, ih.missing⟩

end StyleDelta.Matching
