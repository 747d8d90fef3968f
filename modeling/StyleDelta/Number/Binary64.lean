/-!
Finite binary64 numbers and the rounding of decimal literals to them.

A magnitude is named by its rank in the ascending order of all finite
magnitudes: rank 0 is zero, rank 1 the least subnormal number, and a rank is the
number that the sixty-three low bits of the format spell. Every magnitude is a
whole multiple of the least one, `2⁻¹⁰⁷⁴`, so comparison and rounding are exact
arithmetic on natural numbers.
-/

namespace StyleDelta

/-- The number of magnitudes from a power of two to below the next one, `2⁵²`. -/
def binade : Nat := 0x10000000000000

/-- The number of finite magnitudes. -/
def rankBound : Nat := 0x7FF * binade

/-- One, in units of the least magnitude. -/
def unitsPerOne : Nat := Nat.pow 2 1074

/-- A finite binary64 number; zero has both signs. -/
structure Binary64 where
  negative : Bool
  rank : Nat
  rank_lt : rank < rankBound
  deriving DecidableEq, Repr

namespace Binary64

/-- The magnitude of a rank in units of `2⁻¹⁰⁷⁴`. -/
def unitsOfRank (rank : Nat) : Nat :=
  if rank < 2 * binade then rank
  else (binade + rank % binade) * Nat.pow 2 (rank / binade - 1)

def units (x : Binary64) : Nat := unitsOfRank x.rank

/-- The quotient rounded to the nearest integer, a half to the even one. -/
def roundHalfEven (num den : Nat) : Nat :=
  let quotient := num / den
  let twice := 2 * (num % den)
  if den < twice ∨ (den = twice ∧ quotient % 2 = 1) then quotient + 1 else quotient

/-- The rank nearest to the fraction; it passes the finite ones on overflow. With
53 or fewer bits the units are the rank; each further bit doubles the spacing. -/
def nearestRank (num den : Nat) : Nat :=
  let scaled := num * unitsPerOne
  let shift := Nat.log2 (scaled / den) - 52
  shift * binade + roundHalfEven scaled (den * Nat.pow 2 shift)

/-- The rank nearest to `digits · 10 ^ exponent`. The outer branches decide
exponents beyond the range of the format without building their powers. -/
def rankOfDecimal (digits : Nat) (exponent : Int) : Nat :=
  if digits = 0 then 0
  else if 309 < exponent then rankBound
  else if exponent + Nat.log2 digits < -330 then 0
  else if 0 ≤ exponent then nearestRank (digits * Nat.pow 10 exponent.toNat) 1
  else nearestRank digits (Nat.pow 10 (-exponent).toNat)

/-- The number that a decimal literal denotes; `none` where it is infinite. The value is
rounded once, to nearest even. A reader that makes a number of the leading digits, as many
as 64 bits hold, and then multiplies or divides it by a power of ten rounds more than once.
It agrees with this one where the digits and the power are exact in the format, as digits
below `2⁵³` and powers up to `10²²` are. On some other literals it differs: `3e23` is the
next number below there, and `17976931348623158e292`, the greatest number here, is infinite. -/
def ofDecimal? (negative : Bool) (digits : Nat) (exponent : Int) : Option Binary64 :=
  if h : rankOfDecimal digits exponent < rankBound then
    some ⟨negative, rankOfDecimal digits exponent, h⟩
  else none

/-- Equality of the numbers: the two zeros are one number. -/
def eqv (x y : Binary64) : Bool :=
  x.rank = y.rank && (x.negative = y.negative || x.rank = 0)

end Binary64

end StyleDelta
