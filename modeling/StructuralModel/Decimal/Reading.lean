import StructuralModel.Text.Split

/-! Reading decimal numbers. -/

namespace StructuralModel.Decimal

def natOfDigits (digits : List Char) : Nat :=
  digits.foldl (fun n c => n * 10 + (c.toNat - '0'.toNat)) 0

/-- `mantissa * 10 ^ exponent`, rounded to the nearest number. The powers of ten beyond the range
of numbers are decided by size alone. -/
def ofScientific (mantissa : Nat) (exponent : Int) : Float :=
  if mantissa = 0 then 0
  else if 400 < exponent then 1 / 0
  else if exponent + mantissa.log2 + 1 < -400 then 0
  else Float.ofScientific mantissa (exponent < 0) exponent.natAbs

/-- `whole.fraction` times ten to the `exponent`. -/
def ofDigits (whole fraction : List Char) (exponent : Int) : Float :=
  ofScientific (natOfDigits (whole ++ fraction)) (exponent - fraction.length)

/-- An optional sign and at least one digit. -/
def readInt? (text : List Char) : Option Int :=
  match text with
  | '-' :: digits => (natural? digits).map fun n => -n
  | '+' :: digits => (natural? digits).map fun n => n
  | digits => (natural? digits).map fun n => n
where
  natural? (digits : List Char) : Option Nat :=
    if digits ≠ [] ∧ digits.all Char.isDigit then some (natOfDigits digits) else none

/-- The exponent after `e` or `E`; none at all counts as zero. -/
def readExponent? (text : List Char) : Option Int :=
  match text with
  | [] => some 0
  | c :: digits => if c = 'e' ∨ c = 'E' then readInt? digits else none

def readMagnitude? (text : List Char) : Option Float :=
  let name := text.map Char.toLower
  if name = ['i', 'n', 'f'] ∨ name = ['i', 'n', 'f', 'i', 'n', 'i', 't', 'y'] then some (1 / 0)
  else if name = ['n', 'a', 'n'] then some (0 / 0)
  else
    let (whole, rest) := Text.spanOf Char.isDigit text
    let (fraction, rest) :=
      match rest with
      | '.' :: rest => Text.spanOf Char.isDigit rest
      | rest => ([], rest)
    if whole = [] ∧ fraction = [] then none
    else (readExponent? rest).map (ofDigits whole fraction)

/-- Reads digits with an optional point and exponent, or the name of an infinity or of the
non-number, after an optional sign. -/
def read? (text : List Char) : Option Float :=
  match text with
  | '-' :: rest => (readMagnitude? rest).map fun x => -x
  | '+' :: rest => readMagnitude? rest
  | rest => readMagnitude? rest

end StructuralModel.Decimal
