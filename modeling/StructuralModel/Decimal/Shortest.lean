import StructuralModel.Decimal.Dyadic

/-! The fewest decimal digits that read back to the same floating-point number, and their
positional notation. -/

namespace StructuralModel.Decimal

/-- The decimal `digits * 10 ^ exponent`. -/
structure Scaled where
  digits : Nat
  exponent : Int
deriving Repr, DecidableEq

/-- The numbers around a magnitude that round to it, as multiples of `1 / scale`. The ends belong
to the interval when the mantissa is even. -/
structure Interval where
  low : Nat
  value : Nat
  high : Nat
  scale : Nat
  closed : Bool

/-- Half a unit in the last place on both sides; below a power of two the places are twice as
fine. -/
def Interval.around (d : Dyadic) : Interval :=
  let finer := d.mantissa = Dyadic.leadingBit ∧ -1074 < d.exponent
  let quarter (n : Nat) := if 2 ≤ d.exponent then n <<< (d.exponent - 2).toNat else n
  ⟨quarter (4 * d.mantissa - if finer then 1 else 2), quarter (4 * d.mantissa),
    quarter (4 * d.mantissa + 2), Nat.pow 2 (2 - d.exponent).toNat, d.mantissa % 2 = 0⟩

/-- Multiples of `10 ^ exponent` and of `1 / scale` brought to a common unit. -/
def Interval.units (interval : Interval) (exponent : Int) : Nat × Nat :=
  (Nat.pow 10 (-exponent).toNat, Nat.pow 10 exponent.toNat * interval.scale)

def Interval.holds (interval : Interval) (exponent : Int) (digits : Nat) : Bool :=
  let (fine, step) := interval.units exponent
  let point := digits * step
  if interval.closed then interval.low * fine ≤ point && point ≤ interval.high * fine
  else interval.low * fine < point && point < interval.high * fine

/-- The multiple of `10 ^ exponent` in the interval that is nearest to the value; of two that are
equally near, the larger. -/
def Interval.nearest? (interval : Interval) (exponent : Int) : Option Nat :=
  let (fine, step) := interval.units exponent
  let value := interval.value * fine
  let below := value / step
  match interval.holds exponent below, interval.holds exponent (below + 1) with
  | true, true => some (if value - below * step < (below + 1) * step - value then below else below + 1)
  | true, false => some below
  | false, true => some (below + 1)
  | false, false => none

/-- Tries ever finer grids. -/
def Interval.shortest (interval : Interval) : Nat → Int → Scaled
  | 0, exponent =>
    let (fine, step) := interval.units exponent
    ⟨interval.value * fine / step, exponent⟩
  | grids + 1, exponent =>
    match interval.nearest? exponent with
    | some digits => ⟨digits, exponent⟩
    | none => interval.shortest grids (exponent - 1)

/-- An exponent of ten above a magnitude that is not zero, and at most two too large. -/
def exponentAbove (d : Dyadic) : Int :=
  ((d.mantissa.log2 + 1 : Int) + d.exponent) * 30103 / 100000 + 1

/-- The fewest digits that round to the magnitude and, among those, the nearest. Seventeen digits
always suffice. -/
def shortest (d : Dyadic) : Scaled :=
  (Interval.around d).shortest 20 (exponentAbove d)

/-- Digits around a decimal point, without an exponent. -/
def Scaled.positional (s : Scaled) : List Char :=
  let digits := Nat.toDigits 10 s.digits
  if 0 ≤ s.exponent then digits ++ List.replicate s.exponent.toNat '0'
  else
    let places := (-s.exponent).toNat
    if digits.length ≤ places then
      '0' :: '.' :: List.replicate (places - digits.length) '0' ++ digits
    else
      digits.take (digits.length - places) ++ '.' :: digits.drop (digits.length - places)

/-- Shortest digits in positional notation. A number without a fraction has no point, both zeros
keep their sign, and a non-number has none. -/
def text (x : Float) : String :=
  if x.isNaN then "NaN"
  else
    let sign := if isNegative x then "-" else ""
    match Dyadic.ofFloat? x with
    | none => sign ++ "inf"
    | some d =>
      if d.mantissa = 0 then sign ++ "0"
      else sign ++ String.ofList (shortest d).positional

end StructuralModel.Decimal
