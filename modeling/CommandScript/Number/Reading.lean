import CommandScript.Number.Rounding

/-!
# Reading numbers

Two forms are read. A program writes digits with an optional fraction
(`readPlain?`). A host may also write a sign, an exponent, `inf`, `infinity` or `nan`
in any letter case (`read?`).

* `digitsValue`: the natural number that a list of decimal digits denotes.
* `readPlain?`: digits, then optionally a point and digits, then optionally an exponent.
* `read?`: the host form.
-/

namespace CommandScript.Number

def digitsValue (digits : List Char) : Nat :=
  digits.foldl (fun value digit => 10 * value + (digit.toNat - '0'.toNat)) 0

/-- The fraction after a decimal point, and what follows it. -/
def fraction : List Char → List Char × List Char
  | '.' :: rest => (rest.takeWhile Char.isDigit, rest.dropWhile Char.isDigit)
  | text => ([], text)

/-- An exponent after its letter: an optional sign and at least one digit. -/
def readExponent? : List Char → Option Int
  | '-' :: digits => natural? digits |>.map fun value => -(value : Int)
  | '+' :: digits => natural? digits |>.map fun value => (value : Int)
  | digits => natural? digits |>.map fun value => (value : Int)
where
  natural? (digits : List Char) : Option Nat :=
    if !digits.isEmpty && digits.all Char.isDigit then some (digitsValue digits) else none

def readPlain? (text : List Char) : Option Float :=
  let whole := text.takeWhile Char.isDigit
  let (places, rest) := fraction (text.dropWhile Char.isDigit)
  if whole.isEmpty && places.isEmpty then none
  else
    let digits := digitsValue (whole ++ places)
    match rest with
    | [] => some (ofDecimal digits (-(places.length : Int)))
    | letter :: exponent =>
      if letter = 'e' || letter = 'E' then
        (readExponent? exponent).map fun power => ofDecimal digits (power - places.length)
      else none

def readUnsigned? (text : List Char) : Option Float :=
  match String.ofList (text.map Char.toLower) with
  | "inf" | "infinity" => some infinity
  | "nan" => some (0 / 0)
  | _ => readPlain? text

def read? (text : String) : Option Float :=
  match text.toList with
  | '-' :: rest => (readUnsigned? rest).map fun value => -value
  | '+' :: rest => readUnsigned? rest
  | rest => readUnsigned? rest

end CommandScript.Number
