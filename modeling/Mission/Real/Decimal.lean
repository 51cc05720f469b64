/-! Exact decimal views of positive binary fractions. A finite double is `mantissa * 2 ^ exponent`
with natural and integer components, so every question about its decimal text is a comparison of
natural numbers. Two views are given: the shortest decimal that rounds back to the same double, and
the decimal with a fixed number of significant digits. A third function rounds an exact decimal to
the nearest double. No floating-point operation takes part. -/
namespace Mission.Real

/-- The decimal `digits * 10 ^ exponent`. -/
structure Decimal where
  digits : Nat
  exponent : Int
deriving DecidableEq, Repr

/-- A positive double `mantissa * 2 ^ exponent`, and whether its mantissa is the least one of its
binade. In that case the neighbour below is twice as near as the one above. -/
structure Binary where
  mantissa : Nat
  exponent : Int
  atEdge : Bool
deriving DecidableEq, Repr

/-- A quotient of naturals, used for values whose scale is known only when they are compared. -/
structure Fraction where
  num : Nat
  den : Nat

namespace Fraction

def ofScaled (n : Nat) (exponent : Int) (base : Nat) : Fraction :=
  if 0 ≤ exponent then ⟨n * base.pow exponent.toNat, 1⟩ else ⟨n, base.pow (-exponent).toNat⟩

def lt (a b : Fraction) : Bool :=
  a.num * b.den < b.num * a.den

def le (a b : Fraction) : Bool :=
  a.num * b.den ≤ b.num * a.den

/-- Division by a power of ten. -/
def shiftDown (a : Fraction) (exponent : Int) : Fraction :=
  if 0 ≤ exponent then ⟨a.num, a.den * Nat.pow 10 exponent.toNat⟩
  else ⟨a.num * Nat.pow 10 (-exponent).toNat, a.den⟩

def floor (a : Fraction) : Nat :=
  a.num / a.den

/-- Twice the fractional part, compared with one: below, at, or above one half. -/
def compareHalf (a : Fraction) : Ordering :=
  compare (2 * (a.num % a.den)) a.den

/-- Rounding to the nearest natural, a half going to the even neighbour. -/
def roundEven (a : Fraction) : Nat :=
  let below := a.floor
  match a.compareHalf with
  | .lt => below
  | .gt => below + 1
  | .eq => if below % 2 = 0 then below else below + 1

end Fraction

namespace Binary

def value (x : Binary) : Fraction :=
  .ofScaled x.mantissa x.exponent 2

/-- The lower end of the interval of reals that round to `x`. -/
def lower (x : Binary) : Fraction :=
  .ofScaled (4 * x.mantissa - if x.atEdge then 1 else 2) (x.exponent - 2) 2

/-- The upper end of the interval of reals that round to `x`. -/
def upper (x : Binary) : Fraction :=
  .ofScaled (4 * x.mantissa + 2) (x.exponent - 2) 2

/-- Whether the decimal reads back as `x`. The ends of the interval belong to it exactly when the
mantissa is even, because a tie goes to the even mantissa. -/
def readsBack (x : Binary) (d : Decimal) : Bool :=
  let point := Fraction.ofScaled d.digits d.exponent 10
  if x.mantissa % 2 = 0 then x.lower.le point && point.le x.upper
  else x.lower.lt point && point.lt x.upper

/-- The multiple of `10 ^ exponent` that reads back as `x` and lies nearest to it. Of two multiples
at the same distance the larger one is taken. -/
def onGrid (x : Binary) (exponent : Int) : Option Decimal :=
  let scaled := x.value.shiftDown exponent
  let below : Decimal := ⟨scaled.floor, exponent⟩
  let above : Decimal := ⟨scaled.floor + 1, exponent⟩
  match x.readsBack below, x.readsBack above with
  | true, true => some (if scaled.compareHalf = .lt then below else above)
  | true, false => some below
  | false, true => some above
  | false, false => none

/-- An exponent of ten above the value: no multiple of the power can be below the upper end. -/
def coarsest (x : Binary) : Int :=
  let bits : Int := x.exponent + (x.mantissa.log2 + 1 : Nat)
  (bits * 30103).fdiv 100000 + 2

/-- The first grid that has a point reading back as `x`, trying `count` grids from coarse to fine. -/
def firstGrid (x : Binary) : Nat → Int → Decimal
  | 0, exponent => ⟨(x.value.shiftDown exponent).floor, exponent⟩
  | count + 1, exponent =>
    match x.onGrid exponent with
    | some d => d
    | none => firstGrid x count (exponent - 1)

/-- The decimal with the fewest digits that reads back as `x`, the nearest one of that length.
Seventeen digits always suffice; the search starts a few grids above the first digit. -/
def shortest (x : Binary) : Decimal :=
  x.firstGrid 24 x.coarsest

/-- The decimal exponent of the leading digit, searched downwards from `start`. -/
def leading (x : Binary) : Nat → Int → Int
  | 0, start => start
  | count + 1, start =>
    if (Fraction.ofScaled 1 start 10).le x.value then start else leading x count (start - 1)

/-- The decimal with `count` significant digits nearest to `x`, a half going to the even digit. -/
def significant (x : Binary) (count : Nat) : Decimal :=
  let exponent := x.leading 8 x.coarsest - (count - 1 : Nat)
  let digits := (x.value.shiftDown exponent).roundEven
  if digits = Nat.pow 10 count then ⟨Nat.pow 10 (count - 1), exponent + 1⟩ else ⟨digits, exponent⟩

end Binary

/-- The number of decimal digits of a positive natural, and zero for zero. -/
def digitCount (n : Nat) : Nat :=
  if n = 0 then 0 else (Nat.toDigits 10 n).length

/-- The leading bit of the mantissa of a normal double, which its bits leave out. -/
def hiddenBit : Nat := 0x10000000000000

/-- Rounds a positive fraction to a mantissa and exponent of a double: at most 53 bits, no exponent
below -1074, a half going to the even mantissa. The mantissa may come out as the next power of two. -/
def roundBinary (a : Fraction) : Nat × Int :=
  let estimate : Int := (a.num.log2 : Int) - a.den.log2 - 53
  let scaled (exponent : Int) : Fraction :=
    if 0 ≤ exponent then ⟨a.num, a.den * Nat.pow 2 exponent.toNat⟩
    else ⟨a.num * Nat.pow 2 (-exponent).toNat, a.den⟩
  let exponent := if 2 * hiddenBit ≤ (scaled estimate).floor then estimate + 1 else estimate
  let exponent := if exponent < -1074 then -1074 else exponent
  ((scaled exponent).roundEven, exponent)

/-- The bits of the double with the given mantissa and exponent, the mantissa being normal, or any
below the hidden bit at the least exponent. A value beyond the largest finite double is infinite. -/
def packBits (mantissa : Nat) (exponent : Int) : Nat :=
  let (mantissa, exponent) :=
    if mantissa = 2 * hiddenBit then (hiddenBit, exponent + 1) else (mantissa, exponent)
  if mantissa < hiddenBit then mantissa
  else if 971 < exponent then 0x7FF0000000000000
  else (exponent + 1075).toNat * hiddenBit + (mantissa - hiddenBit)

/-- The double nearest to a decimal, a half going to the even mantissa. The exponents at which the
outcome is infinite or zero whatever the digits are settled first, so no huge power is computed. -/
def Decimal.nearestBits (d : Decimal) : Nat :=
  if d.digits = 0 then 0
  else
    let magnitude : Int := d.exponent + digitCount d.digits
    if 310 < magnitude then 0x7FF0000000000000
    else if magnitude < -330 then 0
    else
      let (mantissa, exponent) := roundBinary (.ofScaled d.digits d.exponent 10)
      packBits mantissa exponent

end Mission.Real
