/-! The exact value behind a floating-point number: a natural number times a power of two. -/

namespace StructuralModel

/-- The magnitude `mantissa * 2 ^ exponent`. -/
structure Dyadic where
  mantissa : Nat
  exponent : Int
deriving Repr, DecidableEq

namespace Dyadic

/-- The bit above the 52 that are stored of a mantissa. It is not stored itself. -/
def leadingBit : Nat := 4503599627370496

/-- The magnitude of a finite number; infinities and non-numbers have none. -/
def ofFloat? (x : Float) : Option Dyadic :=
  let bits := x.toBits.toNat
  let field := (bits >>> 52) % 2048
  let fraction := bits % leadingBit
  if field = 2047 then none
  else if field = 0 then some ⟨fraction, -1074⟩
  else some ⟨fraction + leadingBit, field - 1075⟩

/-- The number with this magnitude. It is exact whenever some number has the magnitude: bits
below the last place that a number can hold are then zero. -/
def toFloat (d : Dyadic) : Float :=
  if d.mantissa = 0 then 0
  else
    let top := (d.mantissa.log2 : Int) + d.exponent
    if 1024 ≤ top then 1 / 0
    else
      let last := max (top - 52) (-1074)
      let aligned :=
        if last ≤ d.exponent then d.mantissa <<< (d.exponent - last).toNat
        else d.mantissa >>> (last - d.exponent).toNat
      let bits :=
        if top < -1022 then aligned
        else ((top + 1023).toNat <<< 52) + (aligned - leadingBit)
      Float.ofBits bits.toUInt64

def mod (a b : Dyadic) : Dyadic :=
  let last := min a.exponent b.exponent
  ⟨(a.mantissa <<< (a.exponent - last).toNat) % (b.mantissa <<< (b.exponent - last).toNat), last⟩

def toNat? (d : Dyadic) : Option Nat :=
  if 0 ≤ d.exponent then some (d.mantissa <<< d.exponent.toNat)
  else
    let places := (-d.exponent).toNat
    if d.mantissa % Nat.pow 2 places = 0 then some (d.mantissa / Nat.pow 2 places) else none

end Dyadic

/-- Whether the sign bit is set, which also tells the two zeros apart. -/
def isNegative (x : Float) : Bool :=
  x.toBits >>> 63 = 1

/-- The integer a number is equal to, if there is one. -/
def toInteger? (x : Float) : Option Int := do
  let magnitude ← (← Dyadic.ofFloat? x).toNat?
  return if isNegative x then -magnitude else magnitude

/-- The remainder of a division that rounds toward zero; it takes the sign of the dividend. -/
def remainder (x y : Float) : Float :=
  match Dyadic.ofFloat? x, Dyadic.ofFloat? y with
  | some a, some b =>
    if b.mantissa = 0 then 0 / 0
    else
      let magnitude := (a.mod b).toFloat
      if isNegative x then -magnitude else magnitude
  | some _, none => if y.isNaN then y else x
  | none, _ => 0 / 0

/-- A number raised to an integer by repeated squaring; a negative exponent inverts the result. -/
def powInt (x : Float) (n : Int) : Float :=
  let result := go x 1 n.natAbs
  if n < 0 then 1 / result else result
where
  go (square result : Float) (n : Nat) : Float :=
    let result := if n % 2 = 1 then result * square else result
    if n / 2 = 0 then result else go (square * square) result (n / 2)
  termination_by n
  decreasing_by omega

end StructuralModel
