import Mathlib.Tactic.Linarith
import Mathlib.Tactic.Positivity
import StyleDelta.Number.Shortest

/-!
The rounding of decimals depends on their value alone.

`exactRank` is the rounding without the cuts at both ends. It takes fractions of one
value to one rank (`nearestRank_congr`), and the cuts decide nothing else
(`rankOfDecimal_eq_iff`), so zeros at the end of the digits may go into the exponent
(`ofDecimal?_mul_pow`). A magnitude is rounded to itself, so the shortest decimal of a
number reads back, the last resort included (`ofDecimal?_shortest`).
-/

namespace StyleDelta.Binary64

theorem unitsPerOne_pos : 0 < unitsPerOne := by
  decide +kernel

/-! ## Fractions -/

theorem roundHalfEven_mul (num den : Nat) {c : Nat} (hc : 0 < c) :
    roundHalfEven (num * c) (den * c) = roundHalfEven num den := by
  have hmod : 2 * (num * c % (den * c)) = 2 * (num % den) * c := by
    rw [Nat.mul_mod_mul_right, Nat.mul_assoc]
  unfold roundHalfEven
  simp only [Nat.mul_div_mul_right _ _ hc, hmod, Nat.mul_lt_mul_right hc,
    Nat.mul_left_inj hc.ne']

theorem nearestRank_mul (num den : Nat) {c : Nat} (hc : 0 < c) :
    nearestRank (num * c) (den * c) = nearestRank num den := by
  unfold nearestRank
  simp only [Nat.mul_right_comm num c, Nat.mul_div_mul_right _ _ hc]
  rw [Nat.mul_right_comm den c, roundHalfEven_mul _ _ hc]

/-- Fractions of one value are rounded alike. -/
theorem nearestRank_congr {num den num' den' : Nat} (hden : 0 < den) (hden' : 0 < den')
    (h : num * den' = num' * den) : nearestRank num den = nearestRank num' den' :=
  calc nearestRank num den
      = nearestRank (num * den') (den * den') := (nearestRank_mul num den hden').symm
    _ = nearestRank (num' * den) (den' * den) := by rw [h, Nat.mul_comm den den']
    _ = nearestRank num' den' := nearestRank_mul num' den' hden

/-- A fraction of at least `52 + shift` bits lies in that binade or in a later one. -/
theorem le_nearestRank {num den : Nat} (shift : Nat)
    (h : 2 ^ (52 + shift) ≤ num * unitsPerOne / den) :
    (shift + 1) * binade ≤ nearestRank num den := by
  have hunits : num * unitsPerOne / den ≠ 0 := (lt_of_lt_of_le (by positivity) h).ne'
  have hlog : 52 + shift ≤ Nat.log2 (num * unitsPerOne / den) := (Nat.le_log2 hunits).mpr h
  obtain ⟨bits, hbits⟩ := Nat.exists_eq_add_of_le (Nat.le_of_add_right_le hlog)
  have hself : 2 ^ 52 * 2 ^ bits ≤ num * unitsPerOne / den := by
    rw [← Nat.pow_add, ← hbits]
    exact Nat.log2_self_le hunits
  have hquotient : 2 ^ 52 ≤ num * unitsPerOne / (den * 2 ^ bits) := by
    rw [← Nat.div_div_eq_div_mul]
    exact (Nat.le_div_iff_mul_le (by positivity)).mpr hself
  have hround : num * unitsPerOne / (den * 2 ^ bits) ≤
      roundHalfEven (num * unitsPerOne) (den * 2 ^ bits) := by
    unfold roundHalfEven
    dsimp only
    split <;> omega
  have hshift : shift * binade ≤ bits * binade := Nat.mul_le_mul_right _ (by omega)
  unfold nearestRank
  simp only [hbits, Nat.add_sub_cancel_left, Nat.pow_eq]
  rw [Nat.succ_mul]
  exact Nat.add_le_add hshift (hquotient.trans hround)

/-- A fraction of less than half the least magnitude is rounded to zero. -/
theorem nearestRank_eq_zero {num den : Nat} (h : 2 * (num * unitsPerOne) < den) :
    nearestRank num den = 0 := by
  have hlt : num * unitsPerOne < den := by omega
  unfold nearestRank roundHalfEven
  simp [Nat.div_eq_of_lt hlt, Nat.mod_eq_of_lt hlt]
  omega

theorem roundHalfEven_mul_self (n : Nat) {den : Nat} (hden : 0 < den) :
    roundHalfEven (n * den) den = n := by
  simp [roundHalfEven, Nat.mul_div_cancel _ hden, hden.ne']

/-! ## Magnitudes -/

theorem binade_eq : binade = 2 ^ 52 := rfl

/-- From the second binade on a magnitude has 53 bits and the zeros of its binade. -/
theorem log2_mul_pow {significand : Nat} (hle : binade ≤ significand)
    (hlt : significand < 2 * binade) (shift : Nat) :
    Nat.log2 (significand * 2 ^ shift) = 52 + shift := by
  have hpow : 0 < 2 ^ shift := by positivity
  refine (Nat.log2_eq_iff (Nat.mul_pos (by unfold binade at hle; omega) hpow).ne').mpr ⟨?_, ?_⟩
  · rw [Nat.pow_add, ← binade_eq]
    exact Nat.mul_le_mul_right _ hle
  · have hbound : 2 ^ (52 + shift + 1) = 2 * binade * 2 ^ shift := by
      rw [binade_eq, Nat.pow_succ, Nat.pow_add]
      omega
    rw [hbound]
    exact (Nat.mul_lt_mul_right hpow).mpr hlt

/-- A magnitude is the nearest one to itself. -/
theorem nearestRank_unitsOfRank (rank : Nat) :
    nearestRank (unitsOfRank rank) unitsPerOne = rank := by
  have hscale (shift : Nat) : roundHalfEven (unitsOfRank rank * unitsPerOne)
      (unitsPerOne * Nat.pow 2 shift) = roundHalfEven (unitsOfRank rank) (2 ^ shift) := by
    rw [Nat.mul_comm unitsPerOne, Nat.pow_eq, roundHalfEven_mul _ _ unitsPerOne_pos]
  unfold nearestRank
  simp only [hscale, Nat.mul_div_cancel _ unitsPerOne_pos]
  by_cases hsmall : rank < 2 * binade
  · have hunits : unitsOfRank rank = rank := if_pos hsmall
    have hlog : Nat.log2 rank ≤ 52 := by
      by_cases hzero : rank = 0
      · simp [hzero]
      · exact Nat.le_of_lt_succ ((Nat.log2_lt hzero).mpr hsmall)
    rw [hunits, Nat.sub_eq_zero_of_le hlog]
    simpa using roundHalfEven_mul_self rank Nat.one_pos
  · have hbinade : 0 < binade := by decide
    obtain ⟨shift, hshift⟩ : ∃ shift, rank / binade = shift + 1 :=
      Nat.exists_eq_add_one_of_ne_zero (Nat.div_pos (by omega) hbinade).ne'
    have hunits : unitsOfRank rank = (binade + rank % binade) * 2 ^ shift := by
      rw [unitsOfRank, if_neg hsmall, hshift, Nat.pow_eq, Nat.add_sub_cancel]
    have hlog : Nat.log2 (unitsOfRank rank) = 52 + shift := by
      have hmod := Nat.mod_lt rank hbinade
      rw [hunits, log2_mul_pow (by omega) (by omega)]
    have hrank : binade * (shift + 1) + rank % binade = rank := hshift ▸ Nat.div_add_mod ..
    rw [hlog, Nat.add_sub_cancel_left, hunits, roundHalfEven_mul_self _ (by positivity)]
    linarith

/-! ## Decimals -/

/-- The rank nearest to `digits · 10 ^ exponent`, whatever the size. -/
def exactRank (digits : Nat) (exponent : Int) : Nat :=
  nearestRank (digits * Nat.pow 10 exponent.toNat) (Nat.pow 10 (-exponent).toNat)

theorem pow_ten_pos (n : Nat) : 0 < Nat.pow 10 n := Nat.pow_pos (by decide)

theorem exactRank_zero (exponent : Int) : exactRank 0 exponent = 0 := by
  simp [exactRank, nearestRank, roundHalfEven]

/-- Above the cut every number is infinite. -/
theorem rankBound_le_exactRank {digits : Nat} {exponent : Int} (hdigits : digits ≠ 0)
    (hexponent : 309 < exponent) : rankBound ≤ exactRank digits exponent := by
  have hpow : 10 ^ 310 ≤ 10 ^ exponent.toNat :=
    pow_le_pow_right₀ (by decide) (by omega)
  have hden : (-exponent).toNat = 0 := by omega
  have hbits : 2 ^ (52 + 2046) ≤ 10 ^ 310 * unitsPerOne := by decide +kernel
  refine le_nearestRank 2046 ?_
  rw [hden, Nat.pow_eq, Nat.pow_eq, Nat.pow_zero, Nat.div_one]
  calc 2 ^ (52 + 2046) ≤ 10 ^ 310 * unitsPerOne := hbits
    _ ≤ digits * 10 ^ exponent.toNat * unitsPerOne :=
      Nat.mul_le_mul_right _ (hpow.trans (Nat.le_mul_of_pos_left _ (Nat.pos_of_ne_zero hdigits)))

/-- Below the cut every number is nearer to zero than to the least magnitude. -/
theorem exactRank_eq_zero {digits : Nat} {exponent : Int}
    (h : exponent + Nat.log2 digits < -330) : exactRank digits exponent = 0 := by
  have hnum : exponent.toNat = 0 := by omega
  have hlt : digits < 2 ^ (Nat.log2 digits + 1) := Nat.lt_log2_self
  have hbits : 4 * unitsPerOne ≤ 10 ^ 331 := by decide +kernel
  refine nearestRank_eq_zero ?_
  rw [hnum, Nat.pow_eq, Nat.pow_eq, Nat.pow_zero, Nat.mul_one]
  calc 2 * (digits * unitsPerOne)
      < 2 * (2 ^ (Nat.log2 digits + 1) * unitsPerOne) := by
        have := (Nat.mul_lt_mul_right unitsPerOne_pos).mpr hlt
        omega
    _ = 4 * unitsPerOne * 2 ^ Nat.log2 digits := by rw [Nat.pow_succ]; linarith
    _ ≤ 10 ^ 331 * 10 ^ Nat.log2 digits :=
        Nat.mul_le_mul hbits (Nat.pow_le_pow_left (by decide) _)
    _ = 10 ^ (331 + Nat.log2 digits) := (pow_add ..).symm
    _ ≤ 10 ^ (-exponent).toNat := pow_le_pow_right₀ (by decide) (by omega)

/-- The cuts decide what the rounding decides. -/
theorem rankOfDecimal_eq_iff {digits : Nat} {exponent : Int} {rank : Nat}
    (hrank : rank < rankBound) :
    rankOfDecimal digits exponent = rank ↔ exactRank digits exponent = rank := by
  unfold rankOfDecimal
  split
  next hzero => rw [hzero, exactRank_zero]
  next hdigits =>
    split
    next hlarge =>
      have := rankBound_le_exactRank hdigits hlarge
      omega
    next =>
      split
      next hsmall => rw [exactRank_eq_zero hsmall]
      next =>
        split
        next hnonneg =>
          rw [exactRank, Int.toNat_of_nonpos (by omega : -exponent ≤ 0)]
        next hneg =>
          rw [exactRank, Int.toNat_of_nonpos (by omega : exponent ≤ 0)]
          simp

theorem exactRank_mul_pow (digits zeros : Nat) (exponent : Int) :
    exactRank (digits * 10 ^ zeros) exponent = exactRank digits (exponent + zeros) := by
  refine nearestRank_congr (pow_ten_pos _) (pow_ten_pos _) ?_
  have hpowers : zeros + exponent.toNat + (-(exponent + zeros)).toNat =
      (exponent + zeros).toNat + (-exponent).toNat := by omega
  simp only [Nat.pow_eq, Nat.mul_assoc, ← Nat.pow_add]
  rw [hpowers]

/-- The exact decimal of a magnitude is rounded to it. -/
theorem exactRank_exact {rank k : Nat} (hone : unitsPerOne = Nat.pow 2 k) {exponent : Int}
    {d : Decimal} (hd : ⟨unitsOfRank rank * Nat.pow 5 k, exponent⟩ = d)
    (hexponent : exponent = -k) :
    exactRank d.digits d.exponent = rank := by
  have hnum : exponent.toNat = 0 := by omega
  have hden : (-exponent).toNat = k := by omega
  have hten : Nat.pow 10 k = Nat.pow 5 k * Nat.pow 2 k := Nat.mul_pow 5 2 k
  have hvalue : unitsOfRank rank * Nat.pow 5 k * Nat.pow 10 exponent.toNat * unitsPerOne =
      unitsOfRank rank * Nat.pow 10 (-exponent).toNat := by
    simp only [hnum, hden, hten, hone, Nat.pow_eq, Nat.pow_zero, Nat.mul_one, Nat.mul_assoc]
  subst hd
  exact (nearestRank_congr (pow_ten_pos _) unitsPerOne_pos hvalue).trans
    (nearestRank_unitsOfRank rank)

theorem ofDecimal?_eq_some_iff {negative : Bool} {digits : Nat} {exponent : Int} {x : Binary64} :
    ofDecimal? negative digits exponent = some x ↔
      x.negative = negative ∧ exactRank digits exponent = x.rank := by
  rw [← rankOfDecimal_eq_iff x.rank_lt]
  unfold ofDecimal?
  split
  next h =>
    constructor
    · rintro ⟨rfl⟩
      exact ⟨rfl, rfl⟩
    · rintro ⟨rfl, hrank⟩
      simp [hrank]
  next h =>
    have := x.rank_lt
    simp only [reduceCtorEq, false_iff]
    rintro ⟨-, hrank⟩
    omega

/-- Zeros at the end of the digits may go into the exponent. -/
theorem ofDecimal?_mul_pow (negative : Bool) (digits zeros : Nat) (exponent : Int) :
    ofDecimal? negative (digits * 10 ^ zeros) exponent =
      ofDecimal? negative digits (exponent + zeros) := by
  ext x
  simp only [ofDecimal?_eq_some_iff, exactRank_mul_pow]

theorem exactRank_shortest (x : Binary64) :
    exactRank x.shortest.digits x.shortest.exponent = x.rank := by
  generalize hd : x.shortest = d
  unfold shortest at hd
  split at hd
  next hzero => rw [← hd, exactRank_zero, hzero]
  next =>
    dsimp only at hd
    cases hfound : List.find? _ _ with
    | some found =>
      rw [hfound, Option.getD_some] at hd
      have hreads := List.find?_some hfound
      rw [← hd]
      exact (rankOfDecimal_eq_iff x.rank_lt).mp (of_decide_eq_true hreads)
    | none =>
      rw [hfound, Option.getD_none, units] at hd
      exact exactRank_exact (by decide +kernel) hd rfl

/-- The shortest decimal of a number reads back. -/
theorem ofDecimal?_shortest (x : Binary64) :
    ofDecimal? x.negative x.shortest.digits x.shortest.exponent = some x :=
  ofDecimal?_eq_some_iff.mpr ⟨rfl, exactRank_shortest x⟩

end StyleDelta.Binary64
