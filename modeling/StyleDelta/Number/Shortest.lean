import StyleDelta.Number.Binary64

/-!
The shortest decimal text of a binary64 number.

Of all decimals that round to the number, the text has the fewest digits, and of
those the nearest one. For one digit, two digits and so on the two neighbours of
the number on the grid of that many digits are tried; the first grid with a
neighbour that reads back gives the digits.
-/

namespace StyleDelta

/-- The number `digits · 10 ^ exponent`. -/
structure Decimal where
  digits : Nat
  exponent : Int
  deriving DecidableEq, Repr

namespace Decimal

/-- The decimal digits, without trailing zeros unless zero itself is written. -/
def significant (d : Decimal) : List Char :=
  let trimmed := (Nat.toDigits 10 d.digits).reverse.dropWhile (· = '0')
  if trimmed.isEmpty then ['0'] else trimmed.reverse

/-- The power of ten of the first digit. -/
def leading (d : Decimal) : Int :=
  d.exponent + (Nat.toDigits 10 d.digits).length - 1

/-- Positional from `10⁻⁵` to below `10¹⁶`, always with a fraction; otherwise
with an exponent, which shows its sign and no padding. -/
def text (d : Decimal) : List Char :=
  let digits := d.significant
  let e := d.leading
  if 0 ≤ e ∧ e ≤ 15 then
    let whole := e.toNat + 1
    let fraction := digits.drop whole
    (digits.take whole).rightpad whole '0' ++ '.' :: (if fraction.isEmpty then ['0'] else fraction)
  else if -5 ≤ e ∧ e < 0 then
    '0' :: '.' :: List.replicate ((-e).toNat - 1) '0' ++ digits
  else
    let fraction := digits.drop 1
    digits.take 1 ++ (if fraction.isEmpty then [] else '.' :: fraction) ++
      'e' :: (if e < 0 then '-' else '+') :: Nat.toDigits 10 e.natAbs

end Decimal

namespace Binary64

/-- The power of ten of the first digit of `units · 2⁻¹⁰⁷⁴`, for positive units;
every magnitude is at least `10⁻³²⁴`, so the quotient has the digit. -/
def leadingPower (units : Nat) : Int :=
  (Nat.toDigits 10 (units * Nat.pow 10 400 / unitsPerOne)).length - 401

/-- The magnitude as a fraction in units of `10 ^ power`. -/
def scaled (units : Nat) (power : Int) : Nat × Nat :=
  if 0 ≤ power then (units, unitsPerOne * Nat.pow 10 power.toNat)
  else (units * Nat.pow 10 (-power).toNat, unitsPerOne)

/-- The neighbours of the number on the grid of `count` digits, the nearer one
first; of two at the same distance the even one. -/
def neighbours (units count : Nat) : List Decimal :=
  let power := leadingPower units + 1 - count
  let (num, den) := scaled units power
  let below := num / den
  let twice := 2 * (num % den)
  if twice < den ∨ (twice = den ∧ below % 2 = 0) then [⟨below, power⟩, ⟨below + 1, power⟩]
  else [⟨below + 1, power⟩, ⟨below, power⟩]

/-- The shortest decimal that reads back. Seventeen digits always suffice; the
last resort is the exact value. -/
def shortest (x : Binary64) : Decimal :=
  if x.rank = 0 then ⟨0, 0⟩
  else
    let candidates := (List.range 17).flatMap fun i => neighbours x.units (i + 1)
    let readsBack (d : Decimal) : Bool := rankOfDecimal d.digits d.exponent = x.rank
    (candidates.find? readsBack).getD ⟨x.units * Nat.pow 5 1074, -1074⟩

def text (x : Binary64) : List Char :=
  if x.negative then '-' :: x.shortest.text else x.shortest.text

end Binary64

end StyleDelta
