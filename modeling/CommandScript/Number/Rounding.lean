/-!
# Rounding a quotient to a number

A number is a binary64 value. `nearest num den` is the value nearest to `num / den`;
of two values equally near it takes the one with an even significand, and a quotient
beyond the largest finite value by half a step or more becomes infinite.

* `roundDiv`: the integer nearest to a quotient, ties to even.
* `nearest`: the number nearest to a quotient of natural numbers.
* `ofDecimal`: the number nearest to `digits * 10 ^ exponent`.
-/

namespace CommandScript.Number

def infinity : Float := Float.ofBits 0x7FF0000000000000

/-- The integer nearest to `num / den`; a tie goes to the even neighbour. -/
def roundDiv (num den : Nat) : Nat :=
  let floor := num / den
  let rest := num % den
  if 2 * rest < den then floor
  else if den < 2 * rest then floor + 1
  else if floor % 2 = 0 then floor else floor + 1

/-- The quotient `num / (den * 2 ^ exponent)` as numerator and denominator. -/
def scaleBinary (num den : Nat) (exponent : Int) : Nat × Nat :=
  if 0 ≤ exponent then (num, den * Nat.pow 2 exponent.toNat)
  else (num * Nat.pow 2 (-exponent).toNat, den)

/-- The exponent of the last significand bit: the one that leaves 53 bits before the
binary point, and never less than that of the smallest positive number. -/
def lastBit (num den : Nat) : Int :=
  let guess : Int := (num.log2 : Int) - (den.log2 : Int) - 53
  let scaled := scaleBinary num den guess
  max (-1074) (if Nat.pow 2 53 ≤ scaled.1 / scaled.2 then guess + 1 else guess)

/-- The significand `m` counts steps of `2 ^ e`. The bits of `m * 2 ^ e` are
`(e + 1074) * 2 ^ 52 + m`, whether `m` is full or, at the smallest exponent, short;
a significand that was rounded up to `2 ^ 53` carries into the exponent field. -/
def nearest (num den : Nat) : Float :=
  if num = 0 then 0
  else
    let exponent := lastBit num den
    let scaled := scaleBinary num den exponent
    let bits := (exponent + 1074).toNat * Nat.pow 2 52 + roundDiv scaled.1 scaled.2
    if bits < 0x7FF0000000000000 then Float.ofBits (UInt64.ofNat bits) else infinity

/-- Exponents that are certainly out of range are answered at once: the value is at
least `10 ^ 400` or below `10 ^ (-400)`. -/
def ofDecimal (digits : Nat) (exponent : Int) : Float :=
  let places : Int := digits.log2
  if digits = 0 then 0
  else if 400 < exponent then infinity
  else if exponent + places < -400 then 0
  else if 0 ≤ exponent then nearest (digits * Nat.pow 10 exponent.toNat) 1
  else nearest digits (Nat.pow 10 (-exponent).toNat)

end CommandScript.Number
