/-!
# The shortest decimal that reads back

A finite nonzero number is `significand * 2 ^ exponent`, and the reals that read back as
it form an interval around it, ends included exactly when the significand is even. Of
all decimals in that interval the shortest one has the fewest digits; among those it is
the one nearest to the number, and of two equally near the larger.

* `Binary`: a magnitude as significand and exponent; `Binary.ofBits`: those of a number.
* `Binary.interval`: the interval, in units of a common denominator.
* `Binary.shortest`: the digits and the power of ten of the shortest decimal.
-/

namespace CommandScript.Number

structure Binary where
  significand : Nat
  exponent : Int
  deriving DecidableEq

namespace Binary

/-- The magnitude encoded by the lower 63 bits of a finite number. -/
def ofBits (bits : UInt64) : Binary :=
  let field : Nat := (bits.toNat / Nat.pow 2 52) % Nat.pow 2 11
  let low : Nat := bits.toNat % Nat.pow 2 52
  if field = 0 then ⟨low, -1074⟩ else ⟨Nat.pow 2 52 + low, (field : Int) - 1075⟩

/-- A value and the ends of its rounding interval as numerators over one denominator. -/
structure Interval where
  low : Nat
  value : Nat
  high : Nat
  den : Nat
  closed : Bool

/-- The upper neighbour is one step away; the lower one is half a step away when the
significand is the least of its binade, and one step otherwise. Each end lies halfway. -/
def interval (b : Binary) : Interval :=
  let below := if b.significand = Nat.pow 2 52 ∧ -1074 < b.exponent then 1 else 2
  let unit := b.exponent - 2
  let factor := if 0 ≤ unit then Nat.pow 2 unit.toNat else 1
  { low := (4 * b.significand - below) * factor
    value := 4 * b.significand * factor
    high := (4 * b.significand + 2) * factor
    den := if 0 ≤ unit then 1 else Nat.pow 2 (-unit).toNat
    closed := b.significand % 2 = 0 }

end Binary

namespace Binary.Interval

/-- Whether `count * 10 ^ power` lies in the interval. -/
def contains (i : Interval) (count : Nat) (power : Int) : Bool :=
  let point := if 0 ≤ power then count * Nat.pow 10 power.toNat * i.den else count * i.den
  let scale := if 0 ≤ power then 1 else Nat.pow 10 (-power).toNat
  if i.closed then i.low * scale ≤ point && point ≤ i.high * scale
  else i.low * scale < point && point < i.high * scale

/-- The least power of ten above the value, as an exponent. -/
def magnitude (i : Interval) : Int :=
  let lift : Nat := i.den.log2 + 1 - i.value.log2
  let leading := i.value * Nat.pow 10 lift / i.den
  (Nat.toDigits 10 leading).length - (lift : Int)

/-- The neighbours of the value on the grid of multiples of `10 ^ power`, and whether
the lower one is strictly nearer. -/
def neighbours (i : Interval) (power : Int) : Nat × Nat × Bool :=
  let num := if 0 ≤ power then i.value else i.value * Nat.pow 10 (-power).toNat
  let den := if 0 ≤ power then i.den * Nat.pow 10 power.toNat else i.den
  let floor := num / den
  (floor, floor + 1, 2 * (num % den) < den)

/-- The grid point that stands for the value, if the grid has one in the interval. -/
def onGrid? (i : Interval) (power : Int) : Option Nat :=
  let (below, above, lowerNearer) := i.neighbours power
  match i.contains below power, i.contains above power with
  | true, true => some (if lowerNearer then below else above)
  | true, false => some below
  | false, true => some above
  | false, false => none

/-- The first grid, from coarse to fine, with a point in the interval. Seventeen digits
always suffice, so the last grid's lower neighbour is never needed. -/
def shortest (i : Interval) : Nat × Int :=
  let top := i.magnitude
  let found := (List.range 17).findSome? fun (extra : Nat) =>
    let power := top - 1 - (extra : Int)
    (i.onGrid? power).map fun count => (count, power)
  found.getD ((i.neighbours (top - 17)).1, top - 17)

end Binary.Interval

def Binary.shortest (b : Binary) : Nat × Int := b.interval.shortest

end CommandScript.Number
