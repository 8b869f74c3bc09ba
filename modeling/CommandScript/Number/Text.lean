import CommandScript.Number.Shortest

/-!
# The text of a number

A number is written with the fewest digits that read back, in positional notation at
every magnitude, without a trailing `.0` and with the sign of a negative zero.

* `positional`: the text of `digits * 10 ^ power`.
* `text`: the text of a number.
-/

namespace CommandScript.Number

/-- Drops the trailing zeros of a digit string, one power of ten for each. -/
def trimZeros (digits : List Char) (power : Int) : List Char × Int :=
  let kept := (digits.reverse.dropWhile (· = '0')).reverse
  (kept, power + (digits.length - kept.length : Nat))

def positional (digits : Nat) (power : Int) : String :=
  let (digits, power) := trimZeros (Nat.toDigits 10 digits) power
  let point := (digits.length : Int) + power
  if 0 ≤ power then String.ofList (digits ++ List.replicate power.toNat '0')
  else if point ≤ 0 then
    String.ofList ('0' :: '.' :: List.replicate (-point).toNat '0' ++ digits)
  else String.ofList (digits.take point.toNat ++ '.' :: digits.drop point.toNat)

def text (x : Float) : String :=
  let bits := x.toBits
  let sign := if bits.toNat < Nat.pow 2 63 then "" else "-"
  if x.isNaN then "NaN"
  else if x.isInf then sign ++ "inf"
  else
    let magnitude := Binary.ofBits bits
    if magnitude.significand = 0 then sign ++ "0"
    else
      let (digits, power) := magnitude.shortest
      sign ++ positional digits power

end CommandScript.Number
